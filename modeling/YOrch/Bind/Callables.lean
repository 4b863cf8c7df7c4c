/-
  YOrch.Bind.Callables — callable signatures and what each binder accepts.

  The six binders check a callable against its specs in a fixed order and name
  the first check that fails.  `ForwardPrevBinding` collects what the two
  forward-prev binders guarantee about an accepted binding.
-/
import YOrch.Bind.Specs

namespace YOrch

/-! ## §1. Signatures. -/

/-- A callable as `function_traits` and `member_function_traits` see it. -/
inductive Callable where
  /-- No single concrete signature, or one the traits do not cover. -/
  | unsupported
  | function (params : List CppType) (result : CppType)
  | member (classType : CppType) (isConst : Bool) (params : List CppType) (result : CppType)
  deriving Repr, DecidableEq

/-- `direct_out_arg_v`. -/
def CppType.isDirectOut (t : CppType) : Bool :=
  match t.removeCvref with
  | .directOut _ => true
  | _ => false

namespace Callable

def params : Callable → List CppType
  | .unsupported => []
  | .function params _ | .member _ _ params _ => params

/-- `result_t`, `member_result_t`. -/
def result : Callable → CppType
  | .unsupported => .void
  | .function _ result | .member _ _ _ result => result

/-- `function_traits<F>::arity`. -/
def arity (f : Callable) : Nat := f.params.length

/-- `bind_callable`. -/
def bindCallable : Callable → Bool
  | .unsupported => false
  | .function .. | .member .. => true

/-- `member_bind_callable`. -/
def memberBindCallable : Callable → Bool
  | .member .. => true
  | .unsupported | .function .. => false

/-- The last parameter is a `direct_out<T>`; no parameter is not. -/
def lastIsDirectOut (f : Callable) : Bool :=
  match f.params.getLast? with
  | some last => last.isDirectOut
  | none => false

/-- `inferable_direct_output_callable`. -/
def inferableDirectOutputCallable (f : Callable) : Bool :=
  f.bindCallable && !f.memberBindCallable && f.lastIsDirectOut

/-- `ordinary_bind_callable`. -/
def ordinaryBindCallable (f : Callable) : Bool :=
  f.bindCallable && !f.memberBindCallable && !f.inferableDirectOutputCallable

/-- `ordinary_member_bind_callable`. -/
def ordinaryMemberBindCallable (f : Callable) : Bool :=
  f.memberBindCallable && !f.lastIsDirectOut

/-- The last parameter is exactly `direct_out<T>`, up to cv-ref. -/
def lastIsDirectOutOf (f : Callable) (T : CppType) : Bool :=
  match f.params.getLast? with
  | some last => last.removeCvref == .directOut T
  | none => false

end Callable

/-! ## §2. Ordinary and direct-output binders. -/

/-- `bind_error`. -/
inductive BindError where
  | ok
  | memberCallableNotSupported
  | callableShapeInvalid
  | arityMismatch
  deriving Repr, DecidableEq

/-- `validate_bind`. -/
def validateBind (f : Callable) (specs : List Spec) : BindError :=
  if f.memberBindCallable then .memberCallableNotSupported
  else if !f.ordinaryBindCallable then .callableShapeInvalid
  else if specs.length ≠ f.arity then .arityMismatch
  else .ok

/-- `bind_into_error`. -/
inductive BindIntoError where
  | ok
  | invalidOutputType
  | memberCallableNotSupported
  | callableShapeInvalid
  | missingOutputParameter
  | arityMismatch
  | lastParameterNotDirectOut
  deriving Repr, DecidableEq

/-- `validate_bind_into`. -/
def validateBindInto (T : CppType) (f : Callable) (specs : List Spec) : BindIntoError :=
  if T.isReference || T.isVoid then .invalidOutputType
  else if f.memberBindCallable then .memberCallableNotSupported
  else if !f.bindCallable then .callableShapeInvalid
  else if f.arity = 0 then .missingOutputParameter
  else if specs.length + 1 ≠ f.arity then .arityMismatch
  else if !f.lastIsDirectOutOf T then .lastParameterNotDirectOut
  else .ok

/-- `bind_member_error`. -/
inductive BindMemberError where
  | ok
  | callableNotMember
  | directOutputMemberNotSupported
  | arityMismatch
  deriving Repr, DecidableEq

/-- `validate_bind_member`. -/
def validateBindMember (f : Callable) (specs : List Spec) : BindMemberError :=
  if !f.memberBindCallable then .callableNotMember
  else if !f.ordinaryMemberBindCallable then .directOutputMemberNotSupported
  else if specs.length ≠ f.arity then .arityMismatch
  else .ok

/-- `bind_into_member_error`. -/
inductive BindIntoMemberError where
  | ok
  | invalidOutputType
  | callableNotMember
  | missingOutputParameter
  | arityMismatch
  | lastParameterNotDirectOut
  deriving Repr, DecidableEq

/-- `validate_bind_into_member`. -/
def validateBindIntoMember (T : CppType) (f : Callable) (specs : List Spec) :
    BindIntoMemberError :=
  if T.isReference || T.isVoid then .invalidOutputType
  else if !f.memberBindCallable then .callableNotMember
  else if f.arity = 0 then .missingOutputParameter
  else if specs.length + 1 ≠ f.arity then .arityMismatch
  else if !f.lastIsDirectOutOf T then .lastParameterNotDirectOut
  else .ok

/-! ## §3. Forward-prev binders. -/

/-- `forward_prev_prev_access_count_v`. -/
def forwardPrevPrevAccessCount (specs : List Spec) : Nat := specs.countP Spec.isPrevAccess

/-- `forward_prev_unique_prev_payload_t`. -/
def forwardPrevUniquePrevPayload : List Spec → CppType
  | [] => .void
  | spec :: rest =>
      if spec.isPrevAccess then
        if (forwardPrevUniquePrevPayload rest).isVoid then spec.payloadType else .void
      else
        forwardPrevUniquePrevPayload rest

/-- `forward_prev_spec_matches_binding_v`. -/
def forwardPrevSpecMatchesBinding (T arg : CppType) (spec : Spec) : Bool :=
  spec.kind == .borrowMut && spec.payloadType == T && arg == .lvalueRef T

/-- `forward_prev_bindings_supported_impl`. -/
def forwardPrevBindingsSupported (T : CppType) (f : Callable) (specs : List Spec) : Bool :=
  (specs.zip f.params).all fun (spec, arg) =>
    !spec.isPrevAccess || forwardPrevSpecMatchesBinding T arg spec

/-- `member_receiver_prev_access_valid_v`. -/
def Callable.receiverPrevAccessValid (f : Callable) (receiver : Spec) : Bool :=
  match f with
  | .member classType isConst _ _ => receiver.matchesMemberReceiver classType isConst
  | .unsupported | .function .. => false

/-- `forward_prev_member_receiver_binding_supported_v`. -/
def forwardPrevMemberReceiverBindingSupported (T : CppType) (f : Callable) (receiver : Spec) :
    Bool :=
  !receiver.isPrevAccess
    || (receiver.kind == .borrowMut && receiver.payloadType == T
        && f.receiverPrevAccessValid receiver)

/-- `bind_forward_prev_error`. -/
inductive BindForwardPrevError where
  | ok
  | invalidOutputType
  | memberCallableNotSupported
  | directOutputCallableNotSupported
  | callableShapeInvalid
  | arityMismatch
  | invalidResultType
  | prevAccessCountInvalid
  | payloadTypeMismatch
  | bindingModeNotSupported
  deriving Repr, DecidableEq

/-- `validate_bind_forward_prev`. -/
def validateBindForwardPrev (T : CppType) (f : Callable) (specs : List Spec) :
    BindForwardPrevError :=
  if T.isReference || T.isVoid then .invalidOutputType
  else if f.memberBindCallable then .memberCallableNotSupported
  else if f.inferableDirectOutputCallable then .directOutputCallableNotSupported
  else if !f.ordinaryBindCallable then .callableShapeInvalid
  else if specs.length ≠ f.arity then .arityMismatch
  else if !(f.result.isVoid || f.result == .stepResult) then .invalidResultType
  else if forwardPrevPrevAccessCount specs ≠ 1 then .prevAccessCountInvalid
  else if T ≠ forwardPrevUniquePrevPayload specs then .payloadTypeMismatch
  else if !forwardPrevBindingsSupported T f specs then .bindingModeNotSupported
  else .ok

/-- `bind_forward_prev_member_error`. -/
inductive BindForwardPrevMemberError where
  | ok
  | invalidOutputType
  | callableNotMember
  | directOutputMemberNotSupported
  | arityMismatch
  | invalidResultType
  | prevAccessCountInvalid
  | payloadTypeMismatch
  | bindingModeNotSupported
  deriving Repr, DecidableEq

/-- `validate_bind_forward_prev_member`. -/
def validateBindForwardPrevMember (T : CppType) (f : Callable) (receiver : Spec)
    (specs : List Spec) : BindForwardPrevMemberError :=
  if T.isReference || T.isVoid then .invalidOutputType
  else if !f.memberBindCallable then .callableNotMember
  else if !f.ordinaryMemberBindCallable then .directOutputMemberNotSupported
  else if specs.length ≠ f.arity then .arityMismatch
  else if !(f.result.isVoid || f.result == .stepResult) then .invalidResultType
  else if forwardPrevPrevAccessCount (receiver :: specs) ≠ 1 then .prevAccessCountInvalid
  else if T ≠ forwardPrevUniquePrevPayload (receiver :: specs) then .payloadTypeMismatch
  else if !(forwardPrevMemberReceiverBindingSupported T f receiver
      && forwardPrevBindingsSupported T f specs) then .bindingModeNotSupported
  else .ok

/-! ## §4. What an accepted forward-prev binding is. -/

/-- A chain of checks finds nothing if neither the first check nor the rest do. -/
theorem check_passed {ε : Type} {failed : Prop} [Decidable failed] {error ok rest : ε}
    (hne : error ≠ ok) : (if failed then error else rest) = ok ↔ ¬ failed ∧ rest = ok := by
  by_cases h : failed
  · rw [if_pos h]
    exact ⟨fun herror => absurd herror hne, fun hok => absurd h hok.1⟩
  · rw [if_neg h]
    exact ⟨fun hok => ⟨h, hok⟩, And.right⟩

/-- The one access of a forward-prev task is a mutable borrow of `T`. -/
structure ForwardPrevBinding (T : CppType) (specs : List Spec) : Prop where
  single : specs.countP Spec.isPrevAccess = 1
  mutable : ∀ spec ∈ specs, spec.isPrevAccess → spec.kind = .borrowMut ∧ spec.payloadType = T

theorem supported_mutable {T : CppType} {f : Callable} {specs : List Spec}
    (harity : specs.length = f.arity) (h : forwardPrevBindingsSupported T f specs) :
    ∀ spec ∈ specs, spec.isPrevAccess → spec.kind = .borrowMut ∧ spec.payloadType = T := by
  intro spec hspec hprev
  obtain ⟨n, hn, rfl⟩ := List.mem_iff_getElem.mp hspec
  -- every spec stands opposite a parameter
  have hn' : n < f.params.length := by
    show n < f.arity
    omega
  have hmem : (specs[n], f.params[n]) ∈ specs.zip f.params := by
    rw [List.mem_iff_getElem]
    exact ⟨n, by rw [List.length_zip]; omega, by simp⟩
  have hspec := List.all_eq_true.mp h _ hmem
  simp only [hprev, forwardPrevSpecMatchesBinding, Bool.not_true, Bool.false_or,
    Bool.and_eq_true, beq_iff_eq] at hspec
  exact hspec.1

theorem validateBindForwardPrev_ok {T : CppType} {f : Callable} {specs : List Spec}
    (h : validateBindForwardPrev T f specs = .ok) : ForwardPrevBinding T specs := by
  unfold validateBindForwardPrev at h
  simp only [check_passed, ne_eq, reduceCtorEq, not_false_eq_true, not_not] at h
  obtain ⟨-, -, -, -, harity, -, hcount, -, hbind, -⟩ := h
  exact ⟨hcount, supported_mutable harity (by simpa using hbind)⟩

theorem validateBindForwardPrevMember_ok {T : CppType} {f : Callable} {receiver : Spec}
    {specs : List Spec} (h : validateBindForwardPrevMember T f receiver specs = .ok) :
    ForwardPrevBinding T (receiver :: specs) := by
  unfold validateBindForwardPrevMember at h
  simp only [check_passed, ne_eq, reduceCtorEq, not_false_eq_true, not_not] at h
  obtain ⟨-, -, -, harity, -, hcount, -, hbind, -⟩ := h
  rw [Bool.not_eq_true, Bool.not_eq_false', Bool.and_eq_true] at hbind
  refine ⟨hcount, fun spec hspec hprev => ?_⟩
  rcases List.mem_cons.mp hspec with rfl | hspec
  · have hreceiver := hbind.1
    simp only [forwardPrevMemberReceiverBindingSupported, hprev, Bool.not_true, Bool.false_or,
      Bool.and_eq_true, beq_iff_eq] at hreceiver
    exact hreceiver.1
  · exact supported_mutable harity hbind.2 spec hspec hprev

theorem ForwardPrevBinding.kind {T : CppType} {specs : List Spec}
    (h : ForwardPrevBinding T specs) {spec : Spec} (hspec : spec ∈ specs) :
    spec.kind = .none ∨ spec.kind = .borrowMut := by
  cases hprev : spec.isPrevAccess with
  | false => exact Or.inl (by simpa [Spec.isPrevAccess] using hprev)
  | true => exact Or.inr (h.mutable spec hspec hprev).1

/-- A forward-prev task declares one access, and that access is exclusive. -/
theorem ForwardPrevBinding.counts {T : CppType} {specs : List Spec}
    (h : ForwardPrevBinding T specs) :
    specs.countP Spec.isExclusive = 1 ∧ specs.countP (·.kind == .consume) = 0 := by
  constructor
  · rw [← h.single]
    apply List.countP_congr
    intro spec hspec
    rcases h.kind hspec with hk | hk <;> simp [Spec.isExclusive, Spec.isPrevAccess, hk]
  · rw [List.countP_eq_zero]
    intro spec hspec
    rcases h.kind hspec with hk | hk <;> simp [hk]

end YOrch
