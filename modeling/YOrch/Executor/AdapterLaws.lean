/-
  YOrch.Executor.AdapterLaws — stacks of adapters that do the same.

  Adapters are applied in the order they are listed in, and the order matters:
  a retry sees what a catch below it makes of an exception.  The laws say when it
  does not matter, and which adapters do nothing.  They are equations between
  computations, for any task below and any attempt of it, so that one stack may
  replace the other wherever it stands:

    • `invokeRaw_catch_retry`, `invokeInto_catch_retry` — a catch whose result
      never asks for a retry may be inside the retry or outside,
    • `catches_neverThrows` — around a stack that catches, a catch only returns,
    • `retryLoop_settled` — a retry of what never asks for one runs it once,
    • `retryLoop_nested` — retries that pass on what they run out of multiply.
-/
import YOrch.Executor.Concepts
import YOrch.Executor.Retries

namespace YOrch

open Library

variable {M V W R : Type}

/-! ## §1. Loops. -/

theorem onWorld_neverThrows {α : Type} (f : W → α × W) :
    Exec.NeverThrows (onWorld f : Exec (M × W) α) := .act _

theorem handleRetryExhausted_neverThrows (policy : RetryPolicy W R) (raw : R) :
    Exec.NeverThrows (handleRetryExhausted policy raw : Exec (M × W) R) := by
  unfold handleRetryExhausted
  cases policy.onExhausted with
  | some exhausted => exact onWorld_neverThrows _
  | none => exact .pure _

/-- What an iteration does after an attempt that returned. -/
def afterAttempt (policy : RetryPolicy W R) (requestsRetry : R → Bool) (again : M → M)
    (retryCount : Nat) (raw : R) : Exec (M × W) (Nat ⊕ R) :=
  if !requestsRetry raw then
    pure (.inr raw)
  else do
    let retries ← onWorld (policy.shouldRetry retryCount)
    if !retries then do
      let raw ← handleRetryExhausted policy raw
      pure (.inr raw)
    else do
      Exec.modify fun s => (again s.1, s.2)
      pure (.inl (nextRetryCount retryCount))

section Loop

variable (policy : RetryPolicy W R) (requestsRetry : R → Bool) (again : M → M)
  (invoke : Exec (M × W) R)

theorem retryStep_eq (retryCount : Nat) : retryStep policy requestsRetry again invoke retryCount
    = invoke >>= afterAttempt policy requestsRetry again retryCount := rfl

theorem afterAttempt_neverThrows (retryCount : Nat) (raw : R) :
    Exec.NeverThrows (afterAttempt policy requestsRetry again retryCount raw
      : Exec (M × W) (Nat ⊕ R)) := by
  unfold afterAttempt
  split
  · exact .pure _
  · apply Exec.NeverThrows.bind (onWorld_neverThrows _)
    intro retries
    split
    · exact (handleRetryExhausted_neverThrows policy raw).bind fun _ => .pure _
    · exact Exec.NeverThrows.bind (.act _) fun _ => .pure _

/-- A result that does not ask ends the loop. -/
theorem afterAttempt_settled {raw : R} (h : requestsRetry raw = false) (retryCount : Nat) :
    (afterAttempt policy requestsRetry again retryCount raw : Exec (M × W) (Nat ⊕ R))
      = pure (.inr raw) := by
  unfold afterAttempt
  rw [h, Bool.not_false, if_pos rfl]

variable {invoke}

/-- A loop of attempts that never throw never throws. -/
theorem retryLoop_neverThrows (h : Exec.NeverThrows invoke) (fuel : Nat) :
    Exec.NeverThrows (retryLoop policy requestsRetry again invoke fuel) := by
  rw [retryLoop_eq]
  apply Exec.NeverThrows.iterate
  intro retryCount
  rw [retryStep_eq]
  exact h.bind (afterAttempt_neverThrows policy requestsRetry again retryCount)

/-- **Catching around a loop or in it.**  What the handler makes of an exception
has to end the loop. -/
theorem catchAll_retryLoop {handler : Exec (M × W) R}
    (hends : ∀ retryCount, handler >>= afterAttempt policy requestsRetry again retryCount
      = handler >>= fun raw => pure (.inr raw)) (fuel : Nat) :
    Exec.catchAll (retryLoop policy requestsRetry again invoke fuel) handler
      = retryLoop policy requestsRetry again (Exec.catchAll invoke handler) fuel := by
  rw [retryLoop_eq, retryLoop_eq, Exec.catchAll_iterate]
  congr 1
  funext retryCount
  rw [retryStep_eq, retryStep_eq]
  exact Exec.catchAll_bind (afterAttempt_neverThrows policy requestsRetry again retryCount)
    (hends retryCount)

/-- The same, where the attempts' results are returned as they are. -/
theorem catchAll_retryLoop_pure {handler : Exec (M × W) R}
    (hends : ∀ retryCount, handler >>= afterAttempt policy requestsRetry again retryCount
      = handler >>= fun raw => pure (.inr raw)) (fuel : Nat) :
    Exec.catchAll (retryLoop policy requestsRetry again invoke fuel >>= pure) handler
      = retryLoop policy requestsRetry again (Exec.catchAll (invoke >>= pure) handler) fuel := by
  rw [Exec.bind_pure_right, Exec.bind_pure_right]
  exact catchAll_retryLoop policy requestsRetry again hends fuel

/-- A handler's result that does not ask ends the loop. -/
theorem onWorld_ends {handler : W → R × W} (h : ∀ w, requestsRetry (handler w).1 = false)
    (retryCount : Nat) :
    (onWorld handler >>= afterAttempt policy requestsRetry again retryCount
        : Exec (M × W) (Nat ⊕ R))
      = onWorld handler >>= fun raw => pure (.inr raw) := by
  funext s
  show afterAttempt policy requestsRetry again retryCount (handler s.2).1 _ = _
  rw [afterAttempt_settled policy requestsRetry again (h s.2)]
  rfl

/-- The results of `x` do not ask for a retry. -/
def Settles (requestsRetry : R → Bool) (x : Exec (M × W) R) : Prop :=
  ∀ s raw s', x s = (.ret raw, s') → requestsRetry raw = false

/-- **Nothing to retry.** -/
theorem retryLoop_settled (h : Settles requestsRetry invoke) {fuel : Nat} (hfuel : 0 < fuel) :
    retryLoop policy requestsRetry again invoke fuel = invoke := by
  obtain ⟨fuel, rfl⟩ := Nat.exists_eq_succ_of_ne_zero (Nat.ne_of_gt hfuel)
  funext s
  rw [retryLoop_eq, Exec.iterate_succ, retryStep_eq, Exec.bind_assoc, Exec.bind_run]
  have hs := h s
  revert hs
  rcases invoke s with ⟨raw | _ | _, s'⟩
  · intro hs
    show (afterAttempt policy requestsRetry again 0 raw >>= _) s' = _
    rw [afterAttempt_settled policy requestsRetry again (hs raw s' rfl) 0]
    rfl
  · exact fun _ => rfl
  · exact fun _ => rfl

/-- A loop whose exhaustion results do not ask leaves nothing to retry. -/
theorem retryLoop_settles {exhausted : R → W → R × W}
    (hpolicy : policy.onExhausted = some exhausted)
    (hexhausted : ∀ raw w, requestsRetry (exhausted raw w).1 = false) (fuel : Nat) :
    Settles requestsRetry (retryLoop policy requestsRetry again invoke fuel) := by
  rw [retryLoop_eq]
  have hstep : ∀ retryCount, Exec.Triple (fun _ => True)
      (retryStep policy requestsRetry again invoke retryCount)
      (Sum.elim (fun _ _ => True) fun raw _ => requestsRetry raw = false) (fun _ => True)
      (fun _ => True) := by
    intro retryCount
    rw [retryStep_eq]
    apply Exec.Triple.bind (Q := fun _ _ => True) (.of_ends fun s _ => by
      rcases invoke s with ⟨_ | _ | _, s'⟩ <;> trivial)
    intro raw
    unfold afterAttempt
    split
    · next hsettled => exact .pure fun _ _ => by simpa using hsettled
    · apply Exec.Triple.bind (Q := fun _ _ => True) (.act fun _ _ => trivial)
      intro retries
      split
      · unfold handleRetryExhausted
        rw [hpolicy]
        exact Exec.Triple.bind (Q := fun raw _ => requestsRetry raw = false)
          (.act fun s _ => hexhausted raw s.2) fun _ => .pure fun _ h => h
      · exact Exec.Triple.bind (Q := fun _ _ => True) (.act fun _ _ => trivial)
          fun _ => .pure fun _ _ => trivial
  intro s raw s' hrun
  have hends := (Exec.Triple.iterate hstep (fun _ _ _ => trivial) fuel 0).ends (s := s) trivial
  rw [hrun] at hends
  exact hends

end Loop

/-! ## §2. Nested loops. -/

/-- The policies that grant `maxRetries` retries. -/
def retryFixed (maxRetries : Nat) (onExhausted : Option (R → W → R × W)) : RetryPolicy W R where
  shouldRetry retryCount w := (decide (retryCount < maxRetries), w)
  onExhausted := onExhausted

theorem retryFixedPassthroughPolicy_eq (n : Nat) :
    (retryFixedPassthroughPolicy n : RetryPolicy W R)
      = retryFixed n (some fun raw w => (raw, w)) := rfl

/-- What a loop does between attempts. -/
def betweenAttempts (again : M → M) : Exec (M × W) Unit := Exec.modify fun s => (again s.1, s.2)

section Nested

variable (requestsRetry : R → Bool) (again : M → M) (invoke : Exec (M × W) R)

theorem afterAttempt_fixed (e : Option (R → W → R × W)) (n retryCount : Nat) {raw : R}
    (hraw : requestsRetry raw = true) :
    (afterAttempt (retryFixed n e) requestsRetry again retryCount raw : Exec (M × W) (Nat ⊕ R))
      = if retryCount < n then
          betweenAttempts again >>= fun _ => pure (.inl (nextRetryCount retryCount))
        else
          handleRetryExhausted (retryFixed n e) raw >>= fun raw => pure (.inr raw) := by
  unfold afterAttempt
  rw [hraw, Bool.not_true, if_neg Bool.false_ne_true]
  -- the policy leaves the world as it is
  have hanswer : ∀ f : Bool → Exec (M × W) (Nat ⊕ R),
      onWorld ((retryFixed n e).shouldRetry retryCount) >>= f = f (decide (retryCount < n)) :=
    fun _ => rfl
  rw [hanswer]
  by_cases hlt : retryCount < n
  · rw [decide_eq_true hlt, Bool.not_true, if_neg Bool.false_ne_true, if_pos hlt]
    rfl
  · rw [decide_eq_false hlt, Bool.not_false, if_pos rfl, if_neg hlt]

/-- **A loop that counts is one that counts down.** -/
theorem retryLoop_attempts (e : Option (R → W → R × W)) {n fuel : Nat} (hn : n < 2 ^ 64)
    (hfuel : n < fuel) :
    retryLoop (retryFixed n e) requestsRetry again invoke fuel
      = Exec.attempts requestsRetry (betweenAttempts again) invoke
          (handleRetryExhausted (retryFixed n e)) n := by
  rw [retryLoop_eq]
  -- with `k` retries left
  have hfrom : ∀ k i fuel, i + k = n → k < fuel →
      Exec.iterate (retryStep (retryFixed n e) requestsRetry again invoke) fuel i
        = Exec.attempts requestsRetry (betweenAttempts again) invoke
            (handleRetryExhausted (retryFixed n e)) k := by
    intro k
    induction k with
    | zero =>
        intro i fuel hi hfuel
        obtain ⟨fuel, rfl⟩ := Nat.exists_eq_succ_of_ne_zero (Nat.ne_of_gt hfuel)
        rw [Exec.iterate_succ, retryStep_eq, Exec.bind_assoc, Exec.attempts]
        congr 1
        funext raw
        cases hraw : requestsRetry raw with
        | false =>
            rw [afterAttempt_settled _ _ _ hraw, if_neg Bool.false_ne_true]
            rfl
        | true =>
            -- no further one is granted
            have hdenied : ¬ i < n := by omega
            rw [afterAttempt_fixed _ _ _ _ _ hraw, if_neg hdenied, if_pos rfl, Exec.bind_assoc]
            exact Exec.bind_pure_right _
    | succ k ih =>
        intro i fuel hi hfuel
        obtain ⟨fuel, rfl⟩ := Nat.exists_eq_succ_of_ne_zero (Nat.ne_of_gt (Nat.zero_lt_of_lt hfuel))
        rw [Exec.iterate_succ, retryStep_eq, Exec.bind_assoc, Exec.attempts]
        congr 1
        funext raw
        cases hraw : requestsRetry raw with
        | false =>
            rw [afterAttempt_settled _ _ _ hraw, if_neg Bool.false_ne_true]
            rfl
        | true =>
            have hgranted : i < n := by omega
            have hcount : nextRetryCount i = i + 1 := Nat.mod_eq_of_lt (by omega)
            rw [afterAttempt_fixed _ _ _ _ _ hraw, if_pos hgranted, if_pos rfl, Exec.bind_assoc,
              hcount, ← ih (i + 1) fuel (by omega) (by omega)]
            rfl
  exact hfrom n 0 fuel (Nat.zero_add n) hfuel

/-- **Nested loops.**  A loop of loops that pass on what they run out of is one
loop of as many attempts. -/
theorem retryLoop_nested (e : Option (R → W → R × W)) {n m fuel : Nat}
    (hsize : (n + 1) * (m + 1) ≤ 2 ^ 64) (hfuel : 2 ^ 64 ≤ fuel) :
    retryLoop (retryFixed n e) requestsRetry again
        (retryLoop (retryFixedPassthroughPolicy m) requestsRetry again invoke fuel) fuel
      = retryLoop (retryFixed ((n + 1) * (m + 1) - 1) e) requestsRetry again invoke fuel := by
  have hn : n + 1 ≤ (n + 1) * (m + 1) := Nat.le_mul_of_pos_right _ (Nat.succ_pos m)
  have hm : m + 1 ≤ (n + 1) * (m + 1) := Nat.le_mul_of_pos_left _ (Nat.succ_pos n)
  have hpass : handleRetryExhausted (retryFixedPassthroughPolicy m)
      = (pure : R → Exec (M × W) R) := rfl
  rw [retryLoop_attempts requestsRetry again _ e (by omega) (by omega),
    retryLoop_attempts requestsRetry again invoke e (by omega) (by omega),
    retryFixedPassthroughPolicy_eq,
    retryLoop_attempts requestsRetry again invoke _ (by omega) (by omega),
    ← retryFixedPassthroughPolicy_eq, hpass, Exec.attempts_attempts]
  rfl

end Nested

/-! ## §3. Stacks that catch. -/

theorem retryInvokeRaw_neverThrows {kind : RawKind} (policy : RetryPolicy W (kind.Result V))
    {invoke : Exec (M × W) (kind.Result V)} (h : Exec.NeverThrows invoke) (fuel : Nat) :
    Exec.NeverThrows (retryInvokeRaw kind policy invoke fuel) := by
  unfold retryInvokeRaw
  split
  · exact retryLoop_neverThrows policy _ id h fuel
  · exact h

/-- **Through `invoke_raw`** no exception leaves a stack that catches. -/
theorem catches_neverThrows (fuel : Nat) : ∀ (task : Task)
    (policies : task.Policies (fun task => task.rawKind.Result V) W)
    (attempt : Exec (M × W) (task.bound.rawResultType.rawKind.Result V)), task.catches →
    Exec.NeverThrows (invokeRaw fuel task policies attempt)
  | .base _, _, _, h => absurd h Bool.false_ne_true
  | .catchFailureTask task, _, _, _ => by
      apply Exec.NeverThrows.catchAll
      cases (defaultCatchFailureResult task.rawKind : Option (task.rawKind.caught.Result V)) with
      | some raw => exact .pure raw
      | none => exact .halt
  | .catchFailureWithPolicyTask _ _, (policy, _), _, _ =>
      Exec.NeverThrows.catchAll (onWorld_neverThrows policy) _
  | .retryTask task, (policy, policies), attempt, h =>
      retryInvokeRaw_neverThrows policy (catches_neverThrows fuel task policies attempt h) fuel

/-- **Through `invoke_into`** neither. -/
theorem catches_neverThrows_into (fuel : Nat) (cleanUp : M → M)
    (attempt : Exec (M × W) StepResult) : ∀ (task : Task)
    (policies : task.Policies (fun _ => StepResult) W), task.catches →
    Exec.NeverThrows (invokeInto fuel cleanUp attempt task policies)
  | .base _, _, h => absurd h Bool.false_ne_true
  | .catchFailureTask _, _, _ => Exec.NeverThrows.catchAll (.pure _) _
  | .catchFailureWithPolicyTask _ _, (policy, _), _ =>
      Exec.NeverThrows.catchAll (onWorld_neverThrows policy) _
  | .retryTask task, (policy, policies), h =>
      retryLoop_neverThrows policy _ cleanUp
        (catches_neverThrows_into fuel cleanUp attempt task policies h) fuel

/-! ## §4. Catching and retrying. -/

/-- The same policy for what a catch returns.  For a task that returns nothing it
is never asked, and may be any. -/
def RetryPolicy.AsCaught : (kind : RawKind) → RetryPolicy W (kind.Result V) →
    RetryPolicy W (kind.caught.Result V) → Prop
  | .void, _, _ => True
  | .step, policy, policy' => policy' = policy
  | .taskResult, policy, policy' => policy' = policy
  | .value, policy, policy' => policy' = policy

/-- **A catch around a retry of raw results.** -/
theorem catchAll_retryInvokeRaw {kind : RawKind} {policy : RetryPolicy W (kind.Result V)}
    {policy' : RetryPolicy W (kind.caught.Result V)} (hpolicy : policy.AsCaught kind policy')
    (invoke : Exec (M × W) (kind.Result V)) {handler : Exec (M × W) (kind.caught.Result V)}
    (hends : ∀ retryCount,
      handler >>= afterAttempt policy' (rawResultRequestsRetry kind.caught) id retryCount
        = handler >>= fun raw => pure (.inr raw))
    {fuel : Nat} (hfuel : 0 < fuel) :
    Exec.catchAll (retryInvokeRaw kind policy invoke fuel
        >>= fun raw => pure (caughtReturn kind raw)) handler
      = retryInvokeRaw kind.caught policy'
          (Exec.catchAll (invoke >>= fun raw => pure (caughtReturn kind raw)) handler) fuel := by
  cases kind with
  | step | taskResult =>
      obtain rfl : policy' = policy := hpolicy
      exact catchAll_retryLoop_pure policy' (rawResultRequestsRetry _) id hends fuel
  | value => rfl
  | void =>
      -- what the catch returns could be retried, and never asks
      have hsettles : Settles (rawResultRequestsRetry RawKind.void.caught)
          (invoke >>= fun raw => pure (caughtReturn (V := V) .void raw)) := by
        intro s raw s' hrun
        obtain ⟨_, _, -, hpure⟩ := Exec.bind_eq_ret.mp hrun
        cases hpure
        rfl
      show Exec.catchAll (invoke >>= fun raw => pure (caughtReturn .void raw)) handler
        = retryLoop policy' _ id _ fuel
      rw [← catchAll_retryLoop policy' _ id hends fuel,
        retryLoop_settled policy' _ id hsettles hfuel]

/-- The default result is a failure. -/
theorem default_ends (kind : RawKind) (policy : RetryPolicy W (kind.caught.Result V))
    (retryCount : Nat) :
    (Exec.ofOption (defaultCatchFailureResult kind)
        >>= afterAttempt policy (rawResultRequestsRetry kind.caught) id retryCount
        : Exec (M × W) (Nat ⊕ kind.caught.Result V))
      = Exec.ofOption (defaultCatchFailureResult kind) >>= fun raw => pure (.inr raw) := by
  cases kind with
  | void | step =>
      have hfailure : rawResultRequestsRetry (V := V) .step .failure = false := rfl
      exact afterAttempt_settled policy _ id hfailure retryCount
  | taskResult | value => rfl

section Stacks

variable {fuel : Nat} {policyResult : CppType} {task : Task}

/-- **Catch and retry**, through `invoke_raw`. -/
theorem invokeRaw_catch_retry (hfuel : 0 < fuel)
    (policies : task.Policies (fun task => task.rawKind.Result V) W)
    (attempt : Exec (M × W) (task.bound.rawResultType.rawKind.Result V))
    {policy : RetryPolicy W (task.rawKind.Result V)}
    {policy' : RetryPolicy W (task.rawKind.caught.Result V)}
    (hpolicy : policy.AsCaught task.rawKind policy') :
    invokeRaw fuel (.catchFailureTask (.retryTask task)) (policy, policies) attempt
        = invokeRaw fuel (.retryTask (.catchFailureTask task)) (policy', policies) attempt
      ∧ ∀ handler : W → task.rawKind.caught.Result V × W,
        (∀ w, rawResultRequestsRetry task.rawKind.caught (handler w).1 = false) →
        invokeRaw fuel (.catchFailureWithPolicyTask policyResult (.retryTask task))
            (handler, policy, policies) attempt
          = invokeRaw fuel (.retryTask (.catchFailureWithPolicyTask policyResult task))
              (policy', handler, policies) attempt := by
  constructor
  · exact catchAll_retryInvokeRaw hpolicy _ (default_ends task.rawKind policy') hfuel
  · intro handler hhandler
    exact catchAll_retryInvokeRaw hpolicy _ (onWorld_ends policy' _ id hhandler) hfuel

/-- **Catch and retry**, through `invoke_into`. -/
theorem invokeInto_catch_retry (cleanUp : M → M) (attempt : Exec (M × W) StepResult)
    (policy : RetryPolicy W StepResult) (policies : task.Policies (fun _ => StepResult) W) :
    invokeInto fuel cleanUp attempt (.catchFailureTask (.retryTask task)) (policy, policies)
        = invokeInto fuel cleanUp attempt (.retryTask (.catchFailureTask task)) (policy, policies)
      ∧ ∀ handler : W → StepResult × W, (∀ w, ((handler w).1.status == .retry) = false) →
        invokeInto fuel cleanUp attempt
            (.catchFailureWithPolicyTask policyResult (.retryTask task)) (handler, policy, policies)
          = invokeInto fuel cleanUp attempt
            (.retryTask (.catchFailureWithPolicyTask policyResult task))
            (policy, handler, policies) := by
  constructor
  · apply catchAll_retryLoop policy _ cleanUp
    intro retryCount
    have hfailure : (StepResult.failure.status == .retry) = false := rfl
    exact afterAttempt_settled policy (fun step => step.status == .retry) cleanUp hfailure
      retryCount
  · intro handler hhandler
    exact catchAll_retryLoop policy _ cleanUp (onWorld_ends policy _ cleanUp hhandler) fuel

/-- A retry of raw results that never ask. -/
theorem retryInvokeRaw_settled {kind : RawKind} (policy : RetryPolicy W (kind.Result V))
    {invoke : Exec (M × W) (kind.Result V)} (h : Settles (rawResultRequestsRetry kind) invoke)
    (hfuel : 0 < fuel) : retryInvokeRaw kind policy invoke fuel = invoke := by
  unfold retryInvokeRaw
  split
  · exact retryLoop_settled policy _ id h hfuel
  · rfl

/-- `retry_fixed_policy` makes failures of what asks too often. -/
theorem retryInvokeRaw_settles {kind : RawKind} (n : Nat)
    (invoke : Exec (M × W) (kind.Result V)) :
    Settles (rawResultRequestsRetry kind)
      (retryInvokeRaw kind (retryFixedPolicy kind n) invoke fuel) := by
  by_cases hcapable : kind.retryStatusCapable
  · unfold retryInvokeRaw
    rw [if_pos hcapable]
    apply retryLoop_settles _ _ _ rfl
    intro raw w
    cases kind with
    | step | taskResult => rfl
    | void | value => exact absurd hcapable Bool.false_ne_true
  · exact fun _ raw _ _ => rawResultRequestsRetry_incapable hcapable raw

/-- **Nested retries**, of raw results. -/
theorem retryInvokeRaw_nested {kind : RawKind} (invoke : Exec (M × W) (kind.Result V))
    (e : Option (kind.Result V → W → kind.Result V × W)) {n m : Nat}
    (hsize : (n + 1) * (m + 1) ≤ 2 ^ 64) (hfuel : 2 ^ 64 ≤ fuel) :
    retryInvokeRaw kind (retryFixed n e)
        (retryInvokeRaw kind (retryFixedPassthroughPolicy m) invoke fuel) fuel
      = retryInvokeRaw kind (retryFixed ((n + 1) * (m + 1) - 1) e) invoke fuel := by
  unfold retryInvokeRaw
  split
  · exact retryLoop_nested _ id invoke e hsize hfuel
  · rfl

end Stacks

/-- **The laws of the adapters.**  Take any stack of adapters, any attempt and
either entry point.  A catch whose result does not ask for a retry does the same
inside a retry and around it; around a stack that catches, another catch only
returns what that does; a retry of a stack whose outermost adapter is a retry
with `retry_fixed_policy` does nothing; and a retry of one with
`retry_fixed_passthrough_policy` is a single retry with the product of their
numbers of attempts. -/
theorem adapter_laws {fuel : Nat} (hfuel : 2 ^ 64 ≤ fuel) (policyResult : CppType) (task : Task)
    (policies : task.Policies (fun task => task.rawKind.Result V) W)
    (attempt : Exec (M × W) (task.bound.rawResultType.rawKind.Result V))
    (policiesInto : task.Policies (fun _ => StepResult) W) (cleanUp : M → M)
    (attemptInto : Exec (M × W) StepResult) :
    -- inside or around
    (∀ policy policy', RetryPolicy.AsCaught task.rawKind policy policy' →
      invokeRaw fuel (.catchFailureTask (.retryTask task)) (policy, policies) attempt
          = invokeRaw fuel (.retryTask (.catchFailureTask task)) (policy', policies) attempt
        ∧ ∀ handler, (∀ w, rawResultRequestsRetry task.rawKind.caught (handler w).1 = false) →
          invokeRaw fuel (.catchFailureWithPolicyTask policyResult (.retryTask task))
              (handler, policy, policies) attempt
            = invokeRaw fuel (.retryTask (.catchFailureWithPolicyTask policyResult task))
                (policy', handler, policies) attempt)
    ∧ (∀ policy,
      invokeInto fuel cleanUp attemptInto (.catchFailureTask (.retryTask task))
            (policy, policiesInto)
          = invokeInto fuel cleanUp attemptInto (.retryTask (.catchFailureTask task))
              (policy, policiesInto)
        ∧ ∀ handler, (∀ w, ((handler w).1.status == .retry) = false) →
          invokeInto fuel cleanUp attemptInto
              (.catchFailureWithPolicyTask policyResult (.retryTask task))
              (handler, policy, policiesInto)
            = invokeInto fuel cleanUp attemptInto
              (.retryTask (.catchFailureWithPolicyTask policyResult task))
              (policy, handler, policiesInto))
    -- nothing to catch
    ∧ (task.catches → ∀ handler handlerInto,
      let returned := invokeRaw fuel task policies attempt
        >>= fun raw => pure (caughtReturn task.rawKind raw)
      invokeRaw fuel (.catchFailureTask task) policies attempt = returned
        ∧ invokeRaw fuel (.catchFailureWithPolicyTask policyResult task) (handler, policies) attempt
          = returned
        ∧ invokeInto fuel cleanUp attemptInto (.catchFailureTask task) policiesInto
          = invokeInto fuel cleanUp attemptInto task policiesInto
        ∧ invokeInto fuel cleanUp attemptInto (.catchFailureWithPolicyTask policyResult task)
              (handlerInto, policiesInto)
          = invokeInto fuel cleanUp attemptInto task policiesInto)
    -- nothing to retry
    ∧ (∀ (n : Nat) policy policyInto,
      invokeRaw fuel (.retryTask (.retryTask task))
            (policy, retryFixedPolicy task.rawKind n, policies) attempt
          = invokeRaw fuel (.retryTask task) (retryFixedPolicy task.rawKind n, policies) attempt
        ∧ invokeInto fuel cleanUp attemptInto (.retryTask (.retryTask task))
              (policyInto, retryFixedPolicy (V := V) .step n, policiesInto)
          = invokeInto fuel cleanUp attemptInto (.retryTask task)
              (retryFixedPolicy (V := V) .step n, policiesInto))
    -- retries of retries
    ∧ ∀ (n m : Nat) e eInto, (n + 1) * (m + 1) ≤ 2 ^ 64 →
      invokeRaw fuel (.retryTask (.retryTask task))
            (retryFixed n e, retryFixedPassthroughPolicy m, policies) attempt
          = invokeRaw fuel (.retryTask task)
              (retryFixed ((n + 1) * (m + 1) - 1) e, policies) attempt
        ∧ invokeInto fuel cleanUp attemptInto (.retryTask (.retryTask task))
              (retryFixed n eInto, retryFixedPassthroughPolicy m, policiesInto)
          = invokeInto fuel cleanUp attemptInto (.retryTask task)
              (retryFixed ((n + 1) * (m + 1) - 1) eInto, policiesInto) := by
  have hpos : 0 < fuel := Nat.lt_of_lt_of_le (by decide) hfuel
  refine ⟨?_, ?_, ?_, ?_, ?_⟩
  · intro policy policy' hpolicy
    exact invokeRaw_catch_retry hpos policies attempt hpolicy
  · intro policy
    exact invokeInto_catch_retry cleanUp attemptInto policy policiesInto
  · intro hcatches handler handlerInto
    have hraw : Exec.NeverThrows (invokeRaw fuel task policies attempt
        >>= fun raw => pure (caughtReturn task.rawKind raw)) :=
      (catches_neverThrows fuel task policies attempt hcatches).bind fun _ => .pure _
    have hinto := catches_neverThrows_into fuel cleanUp attemptInto task policiesInto hcatches
    exact ⟨Exec.catchAll_neverThrows hraw _, Exec.catchAll_neverThrows hraw _,
      Exec.catchAll_neverThrows hinto _, Exec.catchAll_neverThrows hinto _⟩
  · intro n policy policyInto
    constructor
    · exact retryInvokeRaw_settled policy (retryInvokeRaw_settles n _) hpos
    · apply retryLoop_settled policyInto _ cleanUp _ hpos
      apply retryLoop_settles _ _ _ rfl
      intro step w
      rfl
  · intro n m e eInto hsize
    constructor
    · exact retryInvokeRaw_nested _ e hsize hfuel
    · exact retryLoop_nested _ cleanUp _ eInto hsize hfuel

/-- One retry around two, of a task that always asks: six attempts. -/
theorem adapter_laws_nested :
    let attempt : Exec (Unit × Nat) StepResult := fun s => (.ret .retry, s.1, s.2 + 1)
    invokeRaw (V := Nat) (2 ^ 64)
        (.retryTask (.retryTask (.base (.boundTask (.function [] .stepResult) []))))
        (retryFixedPolicy .step 1, retryFixedPassthroughPolicy 2, ()) attempt ((), 0)
      = (.ret .failure, (), 6) := by
  intro attempt
  obtain ⟨-, -, -, -, hnested⟩ := adapter_laws (V := Nat) (Nat.le_refl (2 ^ 64)) .stepResult
    (.base (.boundTask (.function [] .stepResult) [])) () attempt () id (pure .success)
  have hlaw := (hnested 1 2 (some fun _ w => (.failure, w)) none (by decide)).1
  exact (congrFun hlaw ((), 0)).trans (by rfl)

end YOrch
