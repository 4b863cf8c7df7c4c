/-
  YOrch.Bind.Specs — argument specs and the access they declare to the parent.

  A spec says where one argument of a task comes from.  Four of them read the
  direct parent's payload; `PrevAccessSummary` counts those of a task, and
  `locallyValid` is the rule that an exclusive access stands alone.
-/
import YOrch.Bind.Types

namespace YOrch

/-! ## §1. Specs. -/

/-- The argument specs of `specs.hpp`, each with the type it is written with. -/
inductive Spec where
  | fromCtx (type : CppType)
  | borrowPrev (type : CppType)
  | borrowPrevMut (type : CppType)
  | copyPrev (type : CppType)
  | consumePrev (type : CppType)
  | value (type : CppType)
  deriving Repr, DecidableEq

/-- `prev_access_kind`. -/
inductive PrevAccessKind where
  | none
  | borrow
  | borrowMut
  | copy
  | consume
  deriving Repr, DecidableEq

namespace Spec

/-- `prev_access_spec_traits<Spec>::kind`. -/
def kind : Spec → PrevAccessKind
  | .borrowPrev _ => .borrow
  | .borrowPrevMut _ => .borrowMut
  | .copyPrev _ => .copy
  | .consumePrev _ => .consume
  | .fromCtx _ | .value _ => .none

/-- `prev_access_spec_traits<Spec>::payload_type`. -/
def payloadType : Spec → CppType
  | .borrowPrev t | .borrowPrevMut t | .copyPrev t | .consumePrev t => t.removeCvref
  | .fromCtx _ | .value _ => .void

/-- `is_prev_access_spec_v`. -/
def isPrevAccess (spec : Spec) : Bool := spec.kind != .none

/-- `is_exclusive_prev_access_spec_v`. -/
def isExclusive (spec : Spec) : Bool := spec.kind == .borrowMut || spec.kind == .consume

/-- `prev_access_spec_traits<Spec>::matches_arg<Arg>`. -/
def matchesArg (spec : Spec) (arg : CppType) : Bool :=
  match spec.kind with
  | .borrow => arg == spec.payloadType.constRef
  | .borrowMut => arg == .lvalueRef spec.payloadType
  | .copy => arg == spec.payloadType
  | .consume => arg == spec.payloadType || arg == .rvalueRef spec.payloadType
  | .none => false

/-- `prev_access_spec_traits<Spec>::matches_member_receiver<F>`, for a member
function of `classType`. -/
def matchesMemberReceiver (spec : Spec) (classType : CppType) (receiverIsConst : Bool) : Bool :=
  match spec.kind with
  | .borrow => spec.payloadType == classType && receiverIsConst
  | .borrowMut | .copy | .consume => spec.payloadType == classType
  | .none => false

end Spec

/-! ## §2. Summaries. -/

/-- `prev_access_summary`. -/
structure PrevAccessSummary where
  prevAccessCount : Nat := 0
  exclusivePrevAccessCount : Nat := 0
  borrowPrevCount : Nat := 0
  borrowPrevMutCount : Nat := 0
  copyPrevCount : Nat := 0
  consumePrevCount : Nat := 0
  deriving Repr, DecidableEq

namespace PrevAccessSummary

/-- `merge_prev_access_summary`. -/
def merge (lhs rhs : PrevAccessSummary) : PrevAccessSummary where
  prevAccessCount := lhs.prevAccessCount + rhs.prevAccessCount
  exclusivePrevAccessCount := lhs.exclusivePrevAccessCount + rhs.exclusivePrevAccessCount
  borrowPrevCount := lhs.borrowPrevCount + rhs.borrowPrevCount
  borrowPrevMutCount := lhs.borrowPrevMutCount + rhs.borrowPrevMutCount
  copyPrevCount := lhs.copyPrevCount + rhs.copyPrevCount
  consumePrevCount := lhs.consumePrevCount + rhs.consumePrevCount

/-- `prev_access_summary_is_locally_valid`. -/
def locallyValid (summary : PrevAccessSummary) : Bool :=
  summary.exclusivePrevAccessCount == 0
    || (summary.exclusivePrevAccessCount == 1 && summary.prevAccessCount == 1)

end PrevAccessSummary

/-- `summarize_prev_access_spec`. -/
def summarizePrevAccessSpec (spec : Spec) : PrevAccessSummary where
  prevAccessCount := if spec.isPrevAccess then 1 else 0
  exclusivePrevAccessCount := if spec.isExclusive then 1 else 0
  borrowPrevCount := if spec.kind == .borrow then 1 else 0
  borrowPrevMutCount := if spec.kind == .borrowMut then 1 else 0
  copyPrevCount := if spec.kind == .copy then 1 else 0
  consumePrevCount := if spec.kind == .consume then 1 else 0

/-- `summarize_task_binding_impl`: the receiver's spec, if any, comes first. -/
def summarizeSpecs (specs : List Spec) : PrevAccessSummary :=
  specs.foldl (fun summary spec => summary.merge (summarizePrevAccessSpec spec)) {}

/-- A summary counts the specs of each kind. -/
theorem summarizeSpecs_eq (specs : List Spec) : summarizeSpecs specs =
    { prevAccessCount := specs.countP Spec.isPrevAccess
      exclusivePrevAccessCount := specs.countP Spec.isExclusive
      borrowPrevCount := specs.countP (·.kind == .borrow)
      borrowPrevMutCount := specs.countP (·.kind == .borrowMut)
      copyPrevCount := specs.countP (·.kind == .copy)
      consumePrevCount := specs.countP (·.kind == .consume) } := by
  suffices h : ∀ acc : PrevAccessSummary,
      specs.foldl (fun summary spec => summary.merge (summarizePrevAccessSpec spec)) acc =
      acc.merge
        { prevAccessCount := specs.countP Spec.isPrevAccess
          exclusivePrevAccessCount := specs.countP Spec.isExclusive
          borrowPrevCount := specs.countP (·.kind == .borrow)
          borrowPrevMutCount := specs.countP (·.kind == .borrowMut)
          copyPrevCount := specs.countP (·.kind == .copy)
          consumePrevCount := specs.countP (·.kind == .consume) } by
    rw [summarizeSpecs, h]
    simp [PrevAccessSummary.merge]
  induction specs with
  | nil => intro acc; rfl
  | cons spec specs ih =>
      intro acc
      rw [List.foldl_cons, ih]
      simp only [PrevAccessSummary.merge, summarizePrevAccessSpec, List.countP_cons,
        PrevAccessSummary.mk.injEq]
      refine ⟨?_, ?_, ?_, ?_, ?_, ?_⟩ <;> omega

/-- The rule in terms of the specs: an exclusive access is the only access. -/
theorem locallyValid_iff {specs : List Spec} :
    (summarizeSpecs specs).locallyValid ↔
      specs.countP Spec.isExclusive = 0 ∨
        (specs.countP Spec.isExclusive = 1 ∧ specs.countP Spec.isPrevAccess = 1) := by
  rw [summarizeSpecs_eq]
  simp [PrevAccessSummary.locallyValid]

end YOrch
