/-
  YOrch.Executor.Adapters — running a task through its adapters.

  A raw result is typed by its kind, as the executor distinguishes raw result
  types.  `invokeRaw` and `invokeInto` follow the adapters' two entry points
  around one attempt of the bound task.  The state is a pair of what the
  executor owns and the rest of the world; policies only see the world.

    • `invokeRaw_sim`, `invokeInto_sim` — if attempts turn states related by
      `Ready` into states related by `Tried`, and the retry loop's cleanup turns
      these into `Ready` ones, then attempts under any stack of adapters do, too.
-/
import YOrch.Bind.Tasks
import YOrch.Library.Exec
import YOrch.Result

namespace YOrch

open Library

/-! ## §1. Raw results. -/

/-- The categories of raw result types the executor and the adapters tell
apart. -/
inductive RawKind where
  | void
  | step
  | taskResult
  | value
  deriving Repr, DecidableEq

/-- The values of a raw result type of each kind. -/
abbrev RawKind.Result (V : Type) : RawKind → Type
  | .void => Unit
  | .step => StepResult
  | .taskResult => TaskResult V
  | .value => V

def CppType.rawKind (t : CppType) : RawKind :=
  match t.removeCvref with
  | .void => .void
  | .stepResult => .step
  | .taskResult _ => .taskResult
  | _ => .value

/-- A caught `void` becomes a `step_result`. -/
def RawKind.caught : RawKind → RawKind
  | .void => .step
  | .step => .step
  | .taskResult => .taskResult
  | .value => .value

/-- The kind of what `invoke_raw` returns, where it compiles. -/
def Task.rawKind : Task → RawKind
  | .base task => task.rawResultType.rawKind
  | .catchFailureTask task | .catchFailureWithPolicyTask _ task => task.rawKind.caught
  | .retryTask task => task.rawKind

theorem CppType.removeCvref_eq {t : CppType} (href : t.isReference = false) :
    t.removeCvref = t.removeCv := by
  cases t <;> first | rfl | cases href

/-- A type that is neither a reference nor `void` is not of the kind `void`. -/
theorem CppType.rawKind_ne_void {t : CppType} (href : t.isReference = false)
    (hvoid : t.isVoid = false) : t.rawKind ≠ .void := by
  rw [CppType.rawKind, CppType.removeCvref_eq href]
  rw [CppType.isVoid, beq_eq_false_iff_ne] at hvoid
  cases h : t.removeCv <;> simp_all

theorem CppType.isReference_of_void : ∀ {t : CppType}, t.isVoid → t.isReference = false
  | .void, _ => rfl
  | .cv _ _, _ => rfl

theorem CppType.isVoid_rawKind {t : CppType} (h : t.isVoid) : t.rawKind = .void := by
  rw [rawKind, removeCvref_eq (isReference_of_void h), beq_iff_eq.mp h]

/-- Only a `void` is changed by a catch. -/
theorem RawKind.caught_eq {kind : RawKind} (h : kind ≠ .void) : kind.caught = kind := by
  cases kind <;> first | rfl | exact absurd rfl h

/-- A supported policy makes the results a catch without a policy does. -/
theorem Task.rawResultType_of_supported {policyResult : CppType} {task : Task}
    (h : (Task.catchFailureWithPolicyTask policyResult task).policiesSupported) :
    (Task.catchFailureWithPolicyTask policyResult task).rawResultType
      = (Task.catchFailureTask task).rawResultType := by
  rw [policiesSupported, Bool.and_eq_true, Bool.or_eq_true, Bool.not_eq_true', beq_iff_eq] at h
  rw [rawResultType, rawResultType]
  split
  · next hvoid =>
      rcases h.2 with hnot | rfl
      · exact absurd (hvoid.symm.trans hnot) (by decide)
      · rfl
  · rfl

/-- Catching changes the kind as it does the type. -/
theorem Task.rawKind_caught {task : Task}
    (ih : task.rawResultType.isReference = false → task.rawKind = task.rawResultType.rawKind)
    (h : (Task.catchFailureTask task).rawResultType.isReference = false) :
    task.rawKind.caught = (Task.catchFailureTask task).rawResultType.rawKind := by
  rw [rawResultType] at h ⊢
  cases hvoid : task.rawResultType.isVoid with
  | true =>
      rw [if_pos rfl, ih (CppType.isReference_of_void hvoid), CppType.isVoid_rawKind hvoid]
      rfl
  | false =>
      simp only [hvoid, Bool.false_eq_true, if_false] at h ⊢
      rw [ih h, RawKind.caught_eq (CppType.rawKind_ne_void h hvoid)]

/-- The kind agrees with the type the plan records. -/
theorem Task.rawKind_eq : ∀ {task : Task}, task.policiesSupported →
    task.rawResultType.isReference = false → task.rawKind = task.rawResultType.rawKind
  | .base _, _, _ => rfl
  | .retryTask task, hsupported, h => @rawKind_eq task hsupported h
  | .catchFailureTask task, hsupported, h => rawKind_caught (@rawKind_eq task hsupported) h
  | .catchFailureWithPolicyTask policyResult task, hsupported, h => by
      rw [rawResultType_of_supported hsupported] at h ⊢
      rw [policiesSupported, Bool.and_eq_true] at hsupported
      exact rawKind_caught (@rawKind_eq task hsupported.1) h

/-! ## §2. Adapter helpers. -/

variable {V W : Type}

/-- The return path of a catch adapter. -/
def caughtReturn : (kind : RawKind) → kind.Result V → kind.caught.Result V
  | .void, _ => StepResult.success
  | .step, step => step
  | .taskResult, raw => raw
  | .value, v => v

/-- `default_catch_failure_result`, where `default_catch_supported_v` holds. -/
def defaultCatchFailureResult : (kind : RawKind) → Option (kind.caught.Result V)
  | .void => some StepResult.failure
  | .step => some StepResult.failure
  | .taskResult => none
  | .value => none

/-- `raw_result_requests_retry`. -/
def rawResultRequestsRetry : (kind : RawKind) → kind.Result V → Bool
  | .step, step => step.status == .retry
  | .taskResult, raw => raw.step.status == .retry
  | .void, _ => false
  | .value, _ => false

/-- `retry_status_capable_result_v`. -/
def RawKind.retryStatusCapable : RawKind → Bool
  | .step | .taskResult => true
  | .void | .value => false

/-- A retry policy over raw results `R`.  `onExhausted` is there if the policy
satisfies `retry_exhaustion_policy` for `R`: it has such a member, which is
`noexcept`, can be called on a raw result of this type and value category and
converts back to it.  Hence it depends on the entry point: a policy may have one
for `step_result` and none for `task_result<T>`. -/
structure RetryPolicy (W R : Type) where
  shouldRetry : Nat → W → Bool × W
  onExhausted : Option (R → W → R × W)

/-- `++retry_count` of a `std::size_t`. -/
def nextRetryCount (retryCount : Nat) : Nat := (retryCount + 1) % 2 ^ 64

/-- The policies of an adapter stack, where the task under each adapter has
results `R`. -/
def Task.Policies (R : Task → Type) (W : Type) : Task → Type
  | .base _ => Unit
  | .catchFailureTask task => task.Policies R W
  | .catchFailureWithPolicyTask policyResult task =>
      (W → R (.catchFailureWithPolicyTask policyResult task) × W) × task.Policies R W
  | .retryTask task => RetryPolicy W (R task) × task.Policies R W

/-! ## §3. Invocation. -/

section Invoke

variable {M : Type}

/-- Run something that only sees the world. -/
def onWorld {α : Type} (f : W → α × W) : Exec (M × W) α :=
  Exec.act fun s => ((f s.2).1, (s.1, (f s.2).2))

/-- `handle_retry_exhausted`. -/
def handleRetryExhausted {R : Type} (policy : RetryPolicy W R) (raw : R) : Exec (M × W) R :=
  match policy.onExhausted with
  | some exhausted => onWorld (exhausted raw)
  | none => pure raw

/-- The loops of `retry_task`.  `again` runs before each further attempt; the
number of iterations is bounded by `fuel`. -/
def retryLoop {R : Type} (policy : RetryPolicy W R) (requestsRetry : R → Bool) (again : M → M)
    (invoke : Exec (M × W) R) (fuel : Nat) : Exec (M × W) R :=
  Exec.iterate (fun retryCount => do
    let raw ← invoke
    if !requestsRetry raw then
      pure (.inr raw)
    else do
      -- the retries granted so far are counted, from zero
      let retries ← onWorld (policy.shouldRetry retryCount)
      if !retries then do
        let raw ← handleRetryExhausted policy raw
        pure (.inr raw)
      else do
        Exec.modify fun s => (again s.1, s.2)
        pure (.inl (nextRetryCount retryCount))) fuel 0

/-- `retry_task::invoke_raw`: results that cannot request a retry are forwarded. -/
def retryInvokeRaw (kind : RawKind) (policy : RetryPolicy W (kind.Result V))
    (invoke : Exec (M × W) (kind.Result V)) (fuel : Nat) : Exec (M × W) (kind.Result V) :=
  if kind.retryStatusCapable then
    retryLoop policy (rawResultRequestsRetry kind) id invoke fuel
  else
    invoke

/-- `invoke_raw` through the adapters.  A catch adapter without a policy does
not compile for results it cannot make up. -/
def invokeRaw (fuel : Nat) : (task : Task) →
    task.Policies (fun task => task.rawKind.Result V) W →
    Exec (M × W) (task.bound.rawResultType.rawKind.Result V) →
    Exec (M × W) (task.rawKind.Result V)
  | .base _, _, attempt => attempt
  | .catchFailureTask task, policies, attempt =>
      Exec.catchAll
        (do
          let raw ← invokeRaw fuel task policies attempt
          pure (caughtReturn task.rawKind raw))
        (Exec.ofOption (defaultCatchFailureResult task.rawKind))
  | .catchFailureWithPolicyTask _ task, (policy, policies), attempt =>
      Exec.catchAll
        (do
          let raw ← invokeRaw fuel task policies attempt
          pure (caughtReturn task.rawKind raw))
        (onWorld policy)
  | .retryTask task, (policy, policies), attempt =>
      retryInvokeRaw task.rawKind policy (invokeRaw fuel task policies attempt) fuel

/-- `invoke_into` through the adapters.  `cleanUp` is what the retry loop does
to the sink: `if (out.has_value()) { out.destroy(); }`. -/
def invokeInto (fuel : Nat) (cleanUp : M → M) (attempt : Exec (M × W) StepResult) :
    (task : Task) → task.Policies (fun _ => StepResult) W → Exec (M × W) StepResult
  | .base _, _ => attempt
  | .catchFailureTask task, policies =>
      Exec.catchAll (invokeInto fuel cleanUp attempt task policies) (pure .failure)
  | .catchFailureWithPolicyTask _ task, (policy, policies) =>
      Exec.catchAll (invokeInto fuel cleanUp attempt task policies) (onWorld policy)
  | .retryTask task, (policy, policies) =>
      retryLoop policy (fun step => step.status == .retry) cleanUp
        (invokeInto fuel cleanUp attempt task policies) fuel

end Invoke

/-! ## §4. Simulation. -/

section Simulation

variable {M N : Type} {Ready Tried E H : M × W → N × W → Prop}

/-- A relation that only compares the worlds for equality survives what happens
in the world. -/
def WorldStable (Inv : M × W → N × W → Prop) : Prop :=
  ∀ s t, Inv s t → s.2 = t.2 ∧ ∀ w, Inv (s.1, w) (t.1, w)

theorem onWorld_sim {α : Type} (h : WorldStable Tried) (f : W → α × W) :
    Exec.Sim Tried (onWorld f) (onWorld f) (fun _ => Tried) E H := by
  apply Exec.Sim.act
  intro s t hst
  obtain ⟨hworld, hset⟩ := h s t hst
  rw [hworld]
  exact ⟨rfl, hset _⟩

theorem handleRetryExhausted_sim {R : Type} (h : WorldStable Tried) (policy : RetryPolicy W R)
    (raw : R) : Exec.Sim Tried (handleRetryExhausted policy raw)
      (handleRetryExhausted policy raw) (fun _ => Tried) E H := by
  unfold handleRetryExhausted
  cases policy.onExhausted with
  | some exhausted => exact onWorld_sim h _
  | none => exact .pure fun _ _ hst => hst

theorem retryLoop_sim {R : Type} (hw : WorldStable Tried) (hH : ∀ s t, Ready s t → H s t)
    (policy : RetryPolicy W R) (requestsRetry : R → Bool) {again : M → M} {again' : N → N}
    {invoke : Exec (M × W) R} {invoke' : Exec (N × W) R} (fuel : Nat)
    (hagain : ∀ s t, Tried s t → Ready (again s.1, s.2) (again' t.1, t.2))
    (hinvoke : Exec.Sim Ready invoke invoke' (fun _ => Tried) E H) :
    Exec.Sim Ready (retryLoop policy requestsRetry again invoke fuel)
      (retryLoop policy requestsRetry again' invoke' fuel) (fun _ => Tried) E H := by
  apply Exec.Sim.iterate (I := fun _ => Ready)
  · intro retryCount
    apply hinvoke.bind
    intro raw
    split
    · exact .pure fun _ _ hst => hst
    · apply (onWorld_sim hw _).bind
      intro retries
      split
      · apply (handleRetryExhausted_sim hw policy raw).bind
        intro raw
        exact .pure fun _ _ hst => hst
      · apply Exec.Sim.bind (S := fun _ => Ready) (.modify hagain)
        intro _
        exact .pure fun _ _ hst => hst
  · exact fun _ => hH

theorem retryInvokeRaw_sim (hw : WorldStable Tried) (hH : ∀ s t, Ready s t → H s t)
    {kind : RawKind} (policy : RetryPolicy W (kind.Result V))
    {invoke : Exec (M × W) (kind.Result V)} {invoke' : Exec (N × W) (kind.Result V)} (fuel : Nat)
    (hagain : ∀ s t, Tried s t → Ready s t)
    (h : Exec.Sim Ready invoke invoke' (fun _ => Tried) Tried H) :
    Exec.Sim Ready (retryInvokeRaw kind policy invoke fuel)
      (retryInvokeRaw kind policy invoke' fuel) (fun _ => Tried) Tried H := by
  unfold retryInvokeRaw
  -- nothing is cleaned up between two calls of `invoke_raw`
  split
  · exact retryLoop_sim hw hH policy _ fuel hagain h
  · exact h

/-- **Through `invoke_raw`.**  If attempts turn `Ready` into `Tried`, so does
every adapter stack, as long as a retry finds `Ready` again. -/
theorem invokeRaw_sim (hw : WorldStable Tried) (hH : ∀ s t, Ready s t → H s t)
    (hH' : ∀ s t, Tried s t → H s t) (fuel : Nat) :
    ∀ (task : Task) (policies : task.Policies (fun task => task.rawKind.Result V) W)
      {attempt : Exec (M × W) (task.bound.rawResultType.rawKind.Result V)}
      {attempt' : Exec (N × W) (task.bound.rawResultType.rawKind.Result V)},
      (task.retryLayers ≠ 0 → ∀ s t, Tried s t → Ready s t) →
      Exec.Sim Ready attempt attempt' (fun _ => Tried) Tried H →
      Exec.Sim Ready (invokeRaw fuel task policies attempt)
        (invokeRaw fuel task policies attempt') (fun _ => Tried) Tried H
  | .base _, _, _, _, _, h => h
  | .catchFailureTask task, policies, _, _, hagain, h => by
      apply Exec.Sim.catchAll
      · apply (invokeRaw_sim hw hH hH' fuel task policies hagain h).bind
        exact fun _ => .pure fun _ _ hst => hst
      · exact .ofOption (fun _ _ _ _ hst => hst) fun _ => hH'
  | .catchFailureWithPolicyTask _ task, (policy, policies), _, _, hagain, h => by
      apply Exec.Sim.catchAll
      · apply (invokeRaw_sim hw hH hH' fuel task policies hagain h).bind
        exact fun _ => .pure fun _ _ hst => hst
      · exact onWorld_sim hw policy
  | .retryTask task, (policy, policies), _, _, hagain, h => by
      have hagain : ∀ s t, Tried s t → Ready s t := hagain (Nat.succ_ne_zero _)
      exact retryInvokeRaw_sim hw hH policy fuel hagain
        (invokeRaw_sim hw hH hH' fuel task policies (fun _ => hagain) h)

/-- **Through `invoke_into`.**  Every adapter stack alternates attempts and the
retry loop's cleanup. -/
theorem invokeInto_sim (hw : WorldStable Tried) (hH : ∀ s t, Ready s t → H s t) (fuel : Nat)
    {cleanUp : M → M} {cleanUp' : N → N} {attempt : Exec (M × W) StepResult}
    {attempt' : Exec (N × W) StepResult}
    (h : Exec.Sim Ready attempt attempt' (fun _ => Tried) Tried H) :
    ∀ (task : Task) (policies : task.Policies (fun _ => StepResult) W),
      (task.retryLayers ≠ 0 → ∀ s t, Tried s t → Ready (cleanUp s.1, s.2) (cleanUp' t.1, t.2)) →
      Exec.Sim Ready (invokeInto fuel cleanUp attempt task policies)
        (invokeInto fuel cleanUp' attempt' task policies) (fun _ => Tried) Tried H
  | .base _, _, _ => h
  | .catchFailureTask task, policies, hclean =>
      .catchAll (invokeInto_sim hw hH fuel h task policies hclean) (.pure fun _ _ hst => hst)
  | .catchFailureWithPolicyTask _ task, (policy, policies), hclean =>
      .catchAll (invokeInto_sim hw hH fuel h task policies hclean) (onWorld_sim hw policy)
  | .retryTask task, (policy, policies), hclean =>
      retryLoop_sim hw hH policy _ fuel (hclean (Nat.succ_ne_zero _))
        (invokeInto_sim hw hH fuel h task policies fun _ => hclean (Nat.succ_ne_zero _))

end Simulation

end YOrch
