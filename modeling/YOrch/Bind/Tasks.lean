/-
  YOrch.Bind.Tasks — library-bound tasks and the traits plans read off them.

  A task is one of the six bound forms under a stack of adapters.  Everything a
  plan asks of a task type is defined here by recursion over that stack: the
  prev-access summary and its validity, the raw result and output types, the
  storage mode and the slot policy.  Main facts:

    • `forwardPrev_summary` — a forward-prev task declares one exclusive access
      that is not a consumption,
    • `valid_exclusive_unique` — a valid exclusive access is the only access,
    • `valid_consume_no_retry` — a valid task that consumes has no retry layer.
-/
import YOrch.Bind.Callables
import YOrch.Slots.Layout

namespace YOrch

/-! ## §1. Tasks. -/

/-- The tasks of `bind/tasks/types.hpp`. -/
inductive BaseTask where
  | boundTask (f : Callable) (specs : List Spec)
  | boundOutputTask (T : CppType) (f : Callable) (specs : List Spec)
  | boundForwardPrevTask (T : CppType) (f : Callable) (specs : List Spec)
  | boundMemberTask (f : Callable) (receiver : Spec) (specs : List Spec)
  | boundMemberOutputTask (T : CppType) (f : Callable) (receiver : Spec) (specs : List Spec)
  | boundMemberForwardPrevTask (T : CppType) (f : Callable) (receiver : Spec)
      (specs : List Spec)
  deriving Repr, DecidableEq

/-- A bound task under its adapters, the outermost first.  Of the policies' types
a plan only sees what a catch policy returns, `policy_result_t`; what they do
belongs to a run. -/
inductive Task where
  | base (task : BaseTask)
  | catchFailureTask (task : Task)
  | catchFailureWithPolicyTask (policyResult : CppType) (task : Task)
  | retryTask (task : Task)
  deriving Repr, DecidableEq

/-- The output protocol tags of `detail/task/traits.hpp`. -/
inductive OutputProtocol where
  | noDeclaredOutput
  | directOutput
  | forwardPrevOutput
  deriving Repr, DecidableEq

namespace BaseTask

def callable : BaseTask → Callable
  | .boundTask f _ | .boundOutputTask _ f _ | .boundForwardPrevTask _ f _
  | .boundMemberTask f _ _ | .boundMemberOutputTask _ f _ _
  | .boundMemberForwardPrevTask _ f _ _ => f

/-- `task_binding_view<Task>::receiver_spec`. -/
def receiverSpec : BaseTask → Option Spec
  | .boundTask .. | .boundOutputTask .. | .boundForwardPrevTask .. => none
  | .boundMemberTask _ receiver _ | .boundMemberOutputTask _ _ receiver _
  | .boundMemberForwardPrevTask _ _ receiver _ => some receiver

/-- `task_binding_view<Task>::specs_tuple`. -/
def specs : BaseTask → List Spec
  | .boundTask _ specs | .boundOutputTask _ _ specs | .boundForwardPrevTask _ _ specs
  | .boundMemberTask _ _ specs | .boundMemberOutputTask _ _ _ specs
  | .boundMemberForwardPrevTask _ _ _ specs => specs

/-- All specs of a task in the order they are resolved, the receiver first. -/
def allSpecs (task : BaseTask) : List Spec := task.receiverSpec.toList ++ task.specs

/-- What a receiver spec is resolved to: the object itself for a copy or a
consumption, else a reference the member function can be called on. -/
def receiverArg (f : Callable) (receiver : Spec) : CppType :=
  match f, receiver.kind with
  | .member classType _ _ _, .copy | .member classType _ _ _, .consume => classType
  | .member classType true _ _, _ => classType.constRef
  | .member classType false _ _, _ => .lvalueRef classType
  | _, _ => .void

/-- Each spec of a task with the type its argument is resolved as. -/
def bindings (task : BaseTask) : List (Spec × CppType) :=
  (task.receiverSpec.toList.map fun receiver => (receiver, receiverArg task.callable receiver))
    ++ task.specs.zip task.callable.params

/-- The binder that builds the task accepts it. -/
def accepted : BaseTask → Bool
  | .boundTask f specs => validateBind f specs == .ok
  | .boundOutputTask T f specs => validateBindInto T f specs == .ok
  | .boundForwardPrevTask T f specs => validateBindForwardPrev T f specs == .ok
  | .boundMemberTask f _ specs => validateBindMember f specs == .ok
  | .boundMemberOutputTask T f _ specs => validateBindIntoMember T f specs == .ok
  | .boundMemberForwardPrevTask T f receiver specs =>
      validateBindForwardPrevMember T f receiver specs == .ok

/-- `output_protocol`. -/
def outputProtocol : BaseTask → OutputProtocol
  | .boundTask .. | .boundMemberTask .. => .noDeclaredOutput
  | .boundOutputTask .. | .boundMemberOutputTask .. => .directOutput
  | .boundForwardPrevTask .. | .boundMemberForwardPrevTask .. => .forwardPrevOutput

/-- `output_type`, where the task declares one. -/
def declaredOutput : BaseTask → Option CppType
  | .boundTask .. | .boundMemberTask .. => none
  | .boundOutputTask T _ _ | .boundMemberOutputTask T _ _ _
  | .boundForwardPrevTask T _ _ | .boundMemberForwardPrevTask T _ _ _ => some T

/-- `raw_result_type`. -/
def rawResultType : BaseTask → CppType
  | .boundTask f _ | .boundMemberTask f _ _ => f.result
  | .boundOutputTask .. | .boundMemberOutputTask .. | .boundForwardPrevTask ..
  | .boundMemberForwardPrevTask .. => .stepResult

theorem zip_specs_sublist : ∀ (specs : List Spec) (params : List CppType),
    ((specs.zip params).map Prod.fst).Sublist specs
  | [], _ => List.Sublist.refl _
  | _ :: _, [] => List.nil_sublist _
  | _ :: specs, _ :: params => (zip_specs_sublist specs params).cons_cons _

/-- The bindings are of the task's specs. -/
theorem bindings_sublist (task : BaseTask) :
    (task.bindings.map Prod.fst).Sublist task.allSpecs := by
  rw [bindings, List.map_append, List.map_map, allSpecs]
  apply List.Sublist.append
  · cases task.receiverSpec <;> exact List.Sublist.refl _
  · exact zip_specs_sublist _ _

/-- A fact about the bindings is one about the receiver's and those of the
arguments. -/
theorem forall_bindings {task : BaseTask} {P : Spec × CppType → Prop} :
    (∀ binding ∈ task.bindings, P binding) ↔
      (∀ receiver, task.receiverSpec = some receiver →
        P (receiver, receiverArg task.callable receiver))
      ∧ ∀ binding ∈ task.specs.zip task.callable.params, P binding := by
  rw [bindings, List.forall_mem_append]
  apply and_congr _ Iff.rfl
  cases task.receiverSpec <;> simp

/-! ## §2. Prev access. -/

/-- `summarize_task_binding_impl`. -/
def summary (task : BaseTask) : PrevAccessSummary := summarizeSpecs task.allSpecs

/-- `task_binding_prev_access_bindings_valid_impl`. -/
def prevAccessBindingsValid (task : BaseTask) : Bool :=
  (match task.receiverSpec with
    | none => true
    | some receiver =>
        !receiver.isPrevAccess || task.callable.receiverPrevAccessValid receiver)
    && (task.specs.zip task.callable.params).all fun (spec, arg) =>
        !spec.isPrevAccess || spec.matchesArg arg

/-- `task_prev_access_traits_from_binding_view<Task>::valid`. -/
def prevAccessValid (task : BaseTask) : Bool :=
  task.prevAccessBindingsValid && task.summary.locallyValid

end BaseTask

namespace Task

/-- The bound task under the adapters. -/
def bound : Task → BaseTask
  | .base task => task
  | .catchFailureTask task | .catchFailureWithPolicyTask _ task | .retryTask task => task.bound

/-- `task_prev_access_traits_impl<Task>::summary`: adapters pass it through. -/
def summary (task : Task) : PrevAccessSummary := task.bound.summary

/-- `task_prev_access_traits_impl<Task>::valid`. -/
def prevAccessValid : Task → Bool
  | .base task => task.prevAccessValid
  | .catchFailureTask task | .catchFailureWithPolicyTask _ task => task.prevAccessValid
  | .retryTask task => task.prevAccessValid && task.summary.consumePrevCount == 0

/-- `task_uses_prev_access_v`. -/
def usesPrevAccess (task : Task) : Bool := task.summary.prevAccessCount != 0

/-- `task_uses_exclusive_prev_access_v`. -/
def usesExclusivePrevAccess (task : Task) : Bool := task.summary.exclusivePrevAccessCount != 0

/-- `task_uses_consume_prev_v`. -/
def usesConsumePrev (task : Task) : Bool := task.summary.consumePrevCount != 0

/-- `task_uses_borrow_prev_v`. -/
def usesBorrowPrev (task : Task) : Bool := task.summary.borrowPrevCount != 0

/-- `task_uses_borrow_prev_mut_v`. -/
def usesBorrowPrevMut (task : Task) : Bool := task.summary.borrowPrevMutCount != 0

/-- `task_uses_copy_prev_v`. -/
def usesCopyPrev (task : Task) : Bool := task.summary.copyPrevCount != 0

/-- `task_uses_copy_only_prev_access_v`. -/
def usesCopyOnlyPrevAccess (task : Task) : Bool :=
  task.usesCopyPrev && !task.usesBorrowPrev && !task.usesBorrowPrevMut && !task.usesConsumePrev

/-! ## §3. Results and outputs. -/

/-- `raw_result_type`: catching turns `void` into `step_result`, or into what the
catch policy returns. -/
def rawResultType : Task → CppType
  | .base task => task.rawResultType
  | .catchFailureTask task =>
      if task.rawResultType.isVoid then .stepResult else task.rawResultType
  | .catchFailureWithPolicyTask policyResult task =>
      if task.rawResultType.isVoid then policyResult else task.rawResultType
  | .retryTask task => task.rawResultType

/-- What `catch_policy_supported_v` asks of a policy for a `void` task: that it
returns `step_result`.  `invoke_raw` requires it, `raw_result_type` does not. -/
def policiesSupported : Task → Bool
  | .base _ => true
  | .catchFailureTask task | .retryTask task => task.policiesSupported
  | .catchFailureWithPolicyTask policyResult task =>
      task.policiesSupported && (!task.rawResultType.isVoid || policyResult == .stepResult)

/-- `declared_task_output`: adapters forward it. -/
def declaredOutput (task : Task) : Option CppType := task.bound.declaredOutput

/-- `declared_task_output_protocol`: adapters forward it. -/
def outputProtocol (task : Task) : OutputProtocol := task.bound.outputProtocol

/-- `task_uses_forward_prev_output_protocol_v`. -/
def usesForwardPrevOutputProtocol (task : Task) : Bool :=
  task.outputProtocol == .forwardPrevOutput

/-- `task_uses_direct_output_protocol_v`. -/
def usesDirectOutputProtocol (task : Task) : Bool := task.outputProtocol == .directOutput

/-- `task_output_t`, of a raw result type that is not a reference. -/
def taskOutputType (raw : CppType) : CppType :=
  match raw.removeCv with
  | .stepResult => .void
  | .taskResult T => T
  | t => t

/-- `task_output_for_t`. -/
def outputType (task : Task) : CppType :=
  match task.declaredOutput with
  | some T => T
  | none => taskOutputType task.rawResultType

/-- `task_output_storage_mode_v`. -/
def outputStorageMode (task : Task) : OutputStorageMode :=
  match task.declaredOutput with
  | some _ => if task.usesForwardPrevOutputProtocol then .forwardedPrev else .owned
  | none =>
      if task.rawResultType.isVoid || task.rawResultType == .stepResult then .none else .owned

/-- `task_slot_logical_policy_v`. -/
def slotLogicalPolicy (task : Task) : SlotLogicalPolicy :=
  match task.declaredOutput with
  | some _ => if task.usesForwardPrevOutputProtocol then .none else .maybePayload
  | none =>
      if task.rawResultType.isVoid || task.rawResultType == .stepResult then .none
      else if task.rawResultType.isTaskResult then .maybePayload
      else .mustPayload

/-! ## §4. What validity says. -/

theorem summary_eq (task : Task) : task.summary = summarizeSpecs task.bound.allSpecs := rfl

/-- A task declares a forward-prev output exactly if its bound form is one of
the two forward-prev forms, and its specs are then a forward-prev binding. -/
theorem forwardPrev_binding {task : Task} (haccepted : task.bound.accepted)
    (h : task.usesForwardPrevOutputProtocol) :
    ∃ T, task.declaredOutput = some T ∧ ForwardPrevBinding T task.bound.allSpecs := by
  simp only [usesForwardPrevOutputProtocol, outputProtocol, beq_iff_eq] at h
  simp only [declaredOutput]
  cases hb : task.bound with
  | boundForwardPrevTask T f specs =>
      rw [hb, BaseTask.accepted, beq_iff_eq] at haccepted
      exact ⟨T, rfl, validateBindForwardPrev_ok haccepted⟩
  | boundMemberForwardPrevTask T f receiver specs =>
      rw [hb, BaseTask.accepted, beq_iff_eq] at haccepted
      exact ⟨T, rfl, validateBindForwardPrevMember_ok haccepted⟩
  | _ => rw [hb] at h; cases h

/-- A forward-prev task declares one exclusive access and does not consume. -/
theorem forwardPrev_summary {task : Task} (haccepted : task.bound.accepted)
    (h : task.usesForwardPrevOutputProtocol) :
    task.usesExclusivePrevAccess ∧ task.usesConsumePrev = false := by
  obtain ⟨T, -, hbinding⟩ := forwardPrev_binding haccepted h
  obtain ⟨hexclusive, hconsume⟩ := hbinding.counts
  simp only [usesExclusivePrevAccess, usesConsumePrev, summary_eq, summarizeSpecs_eq,
    hexclusive, hconsume]
  exact ⟨rfl, rfl⟩

/-- A task that declares its output returns a `step_result`. -/
theorem rawResultType_of_declared : ∀ {task : Task} {T : CppType},
    task.declaredOutput = some T → task.rawResultType = .stepResult
  | Task.base bound, _, h => by
      cases bound <;> first | rfl | cases h
  | .catchFailureTask task, _, h | .catchFailureWithPolicyTask _ task, _, h => by
      have ih : task.rawResultType = .stepResult := @rawResultType_of_declared task _ h
      rw [rawResultType, ih]
      rfl
  | .retryTask task, _, h => @rawResultType_of_declared task _ h

/-- A task declares its output if it has one of the output protocols. -/
theorem declared_iff {task : Task} : task.declaredOutput = none ↔
    task.usesDirectOutputProtocol = false ∧ task.usesForwardPrevOutputProtocol = false := by
  simp only [declaredOutput, usesDirectOutputProtocol, usesForwardPrevOutputProtocol,
    outputProtocol]
  cases task.bound <;> simp [BaseTask.declaredOutput, BaseTask.outputProtocol]

/-- Adapters keep the validity of the bound task. -/
theorem bound_valid : ∀ {task : Task}, task.prevAccessValid → task.bound.prevAccessValid
  | .base _, h => h
  | .catchFailureTask task, h => @bound_valid task h
  | .catchFailureWithPolicyTask _ task, h => @bound_valid task h
  | .retryTask task, h => by
      rw [prevAccessValid, Bool.and_eq_true] at h
      exact @bound_valid task h.1

/-- A valid exclusive access is the only access of its task. -/
theorem valid_exclusive_unique {task : Task} (hvalid : task.prevAccessValid)
    (h : task.usesExclusivePrevAccess) :
    task.bound.allSpecs.countP Spec.isExclusive = 1
      ∧ task.bound.allSpecs.countP Spec.isPrevAccess = 1 := by
  have hlocal : (summarizeSpecs task.bound.allSpecs).locallyValid := by
    have := bound_valid hvalid
    rw [BaseTask.prevAccessValid, Bool.and_eq_true] at this
    exact this.2
  -- a summary is valid without exclusive accesses, or with one and no other access
  rcases locallyValid_iff.mp hlocal with h0 | h1
  · simp [usesExclusivePrevAccess, summary_eq, summarizeSpecs_eq, h0] at h
  · exact h1

/-- The number of retry layers around the bound task. -/
def retryLayers : Task → Nat
  | .base _ => 0
  | .catchFailureTask task | .catchFailureWithPolicyTask _ task => task.retryLayers
  | .retryTask task => task.retryLayers + 1

/-- **A valid task that consumes its parent's payload has no retry layer.** -/
theorem valid_consume_no_retry : ∀ {task : Task}, task.prevAccessValid →
    task.usesConsumePrev → task.retryLayers = 0
  | .base _, _, _ => rfl
  | .catchFailureTask task, h, hc => @valid_consume_no_retry task h hc
  | .catchFailureWithPolicyTask _ task, h, hc => @valid_consume_no_retry task h hc
  | .retryTask task, h, hc => by
      rw [prevAccessValid, Bool.and_eq_true, beq_iff_eq] at h
      have hconsume : task.summary.consumePrevCount ≠ 0 := by
        simpa [usesConsumePrev, summary, bound] using hc
      exact absurd h.2 hconsume

/-- Consuming is exclusive. -/
theorem consume_exclusive {task : Task} (h : task.usesConsumePrev) :
    task.usesExclusivePrevAccess := by
  simp only [usesConsumePrev, usesExclusivePrevAccess, summary_eq, summarizeSpecs_eq,
    bne_iff_ne, ne_eq, List.countP_eq_zero, not_forall, not_not] at h ⊢
  obtain ⟨spec, hspec, hkind⟩ := h
  refine ⟨spec, hspec, ?_⟩
  rw [Spec.isExclusive, hkind, Bool.or_true]

/-- An exclusive access is an access. -/
theorem exclusive_uses {task : Task} (h : task.usesExclusivePrevAccess) :
    task.usesPrevAccess := by
  simp only [usesPrevAccess, usesExclusivePrevAccess, summary_eq, summarizeSpecs_eq,
    bne_iff_ne, ne_eq, List.countP_eq_zero, not_forall, not_not] at h ⊢
  obtain ⟨spec, hspec, hexclusive⟩ := h
  refine ⟨spec, hspec, ?_⟩
  simp only [Spec.isExclusive, Spec.isPrevAccess, Bool.or_eq_true, beq_iff_eq] at hexclusive ⊢
  rcases hexclusive with hk | hk <;> simp [hk]

/-- A copy-only task has no exclusive access. -/
theorem copyOnly_not_exclusive {task : Task} (h : task.usesCopyOnlyPrevAccess) :
    task.usesExclusivePrevAccess = false := by
  simp only [usesCopyOnlyPrevAccess, usesBorrowPrevMut, usesConsumePrev, Bool.and_eq_true,
    Bool.not_eq_true', bne_eq_false_iff_eq, summary_eq, summarizeSpecs_eq,
    List.countP_eq_zero] at h
  simp only [usesExclusivePrevAccess, bne_eq_false_iff_eq, summary_eq, summarizeSpecs_eq,
    List.countP_eq_zero]
  intro spec hspec
  have hmut := h.1.2 spec hspec
  have hconsume := h.2 spec hspec
  simp only [Spec.isExclusive, Bool.or_eq_true, not_or]
  exact ⟨hmut, hconsume⟩

end Task

end YOrch
