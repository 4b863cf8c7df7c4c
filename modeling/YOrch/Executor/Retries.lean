/-
  YOrch.Executor.Retries — how often an adapter stack runs its task.

  `counted` adds to a computation a count of how often it is run, which nothing
  else looks at.  `RetryLaw` is what the comments on `retry_task` say, from any
  state: attempts follow each other as long as each of them asks for a retry and
  the policy, told how many there were, grants it.

    • `retryLoop_law` — both loops obey the law,
    • `Bounded.stops` — under a policy with `max_retries`, the count passed to
      it never wraps,
    • `retryInvoke_same` — the two entry points do not drift apart,
    • `invokeRaw_costs`, `invokeInto_costs` — under any stack of adapters whose
      retry layers are bounded, the task runs at most the product of their
      numbers of attempts,
    • `retry_law` — all of it, under the names of `RetryTaskLaws`.
-/
import Mathlib.Algebra.BigOperators.Group.List.Basic
import YOrch.Executor.NodeEntry

namespace YOrch

open Library

variable {M N V W R : Type}

/-! ## §1. Counting. -/

/-- Count how often `x` is run. -/
def counted (x : Exec (M × W) R) : Exec ((Nat × M) × W) R := fun s =>
  let (exit, m, w) := x (s.1.2, s.2)
  (exit, ((s.1.1 + 1, m), w))

/-- A change of the machine beside a count. -/
def besideCount (f : M → M) (m : Nat × M) : Nat × M := (m.1, f m.2)

/-- A result beside a count. -/
def withCount (n : Nat) (result : Exit R × M × W) : Exit R × (Nat × M) × W :=
  (result.1, (n, result.2.1), result.2.2)

theorem counted_run (x : Exec (M × W) R) (n : Nat) (s : M × W) :
    counted x ((n, s.1), s.2) = withCount (n + 1) (x s) := rfl

/-- The same state beside a count. -/
def BesideCount (s : (Nat × M) × W) (t : M × W) : Prop := s.1.2 = t.1 ∧ s.2 = t.2

theorem counted_sim (x : Exec (M × W) R) :
    Exec.Sim BesideCount (counted x) x (fun _ => BesideCount) BesideCount BesideCount := by
  intro s t hst
  obtain ⟨⟨n, m⟩, w⟩ := s
  obtain ⟨m', w'⟩ := t
  obtain ⟨rfl, rfl⟩ : m = m' ∧ w = w' := hst
  rw [counted_run x n (m, w)]
  generalize x (m, w) = result
  rcases result with ⟨_ | _ | _, m', w'⟩
  · exact .ret ⟨rfl, rfl⟩
  · exact .thrown ⟨rfl, rfl⟩
  · exact .halted ⟨rfl, rfl⟩

theorem besideCount_stable : WorldStable (BesideCount : (Nat × M) × W → M × W → Prop) :=
  fun _ _ h => ⟨h.2, fun _ => ⟨h.1, rfl⟩⟩

/-- A counted run shows what the run itself does. -/
theorem of_counted {x : Exec ((Nat × M) × W) R} {y : Exec (M × W) R}
    (h : Exec.Sim BesideCount x y (fun _ => BesideCount) BesideCount BesideCount) {n k : Nat}
    {s : M × W} {result : Exit R × M × W} (hx : x ((n, s.1), s.2) = withCount k result) :
    y s = result := by
  have hsame := (h ((n, s.1), s.2) s ⟨rfl, rfl⟩).same
  rw [hx] at hsame
  obtain ⟨hexit, hmachine, hworld⟩ := hsame
  exact (Prod.ext hexit (Prod.ext hmachine hworld)).symm

/-! ## §2. Policies. -/

/-- `retry_exhausted_as_failure`, for results that carry a status. -/
def retryExhaustedAsFailure : (kind : RawKind) → kind.Result V → kind.Result V
  | .step, _ => StepResult.failure
  | .taskResult, _ => { step := .failure, value := none }
  | .void, raw => raw
  | .value, raw => raw

/-- `retry_fixed_policy`. -/
def retryFixedPolicy (kind : RawKind) (maxRetries : Nat) : RetryPolicy W (kind.Result V) where
  shouldRetry retryCount w := (decide (retryCount < maxRetries), w)
  onExhausted := some fun raw w => (retryExhaustedAsFailure kind raw, w)

/-- `retry_fixed_passthrough_policy`. -/
def retryFixedPassthroughPolicy (maxRetries : Nat) : RetryPolicy W R where
  shouldRetry retryCount w := (decide (retryCount < maxRetries), w)
  onExhausted := some fun raw w => (raw, w)

/-- `retry_forever_policy`. -/
def retryForeverPolicy : RetryPolicy W R where
  shouldRetry _ w := (true, w)
  onExhausted := none

/-- The policy's exhaustion result: the last one, if it does not make one. -/
def RetryPolicy.exhausted (policy : RetryPolicy W R) (raw : R) (w : W) : R × W :=
  match policy.onExhausted with
  | some exhausted => exhausted raw w
  | none => (raw, w)

/-- The policy grants a retry while fewer than `maxRetries`, a `std::size_t`, were
granted. -/
structure RetryPolicy.Bounded (policy : RetryPolicy W R) (maxRetries : Nat) : Prop where
  size : maxRetries < 2 ^ 64
  grants : ∀ retryCount w, (policy.shouldRetry retryCount w).1 = decide (retryCount < maxRetries)

theorem retryFixedPolicy_bounded (kind : RawKind) {n : Nat} (h : n < 2 ^ 64) :
    (retryFixedPolicy kind n : RetryPolicy W (kind.Result V)).Bounded n :=
  ⟨h, fun _ _ => rfl⟩

theorem retryFixedPassthroughPolicy_bounded {n : Nat} (h : n < 2 ^ 64) :
    (retryFixedPassthroughPolicy n : RetryPolicy W R).Bounded n :=
  ⟨h, fun _ _ => rfl⟩

/-! ## §3. The law. -/

/-- One iteration of the loop of `retry_task`. -/
def retryStep (policy : RetryPolicy W R) (requestsRetry : R → Bool) (again : M → M)
    (invoke : Exec (M × W) R) (retryCount : Nat) : Exec (M × W) (Nat ⊕ R) := do
  let raw ← invoke
  if !requestsRetry raw then
    pure (.inr raw)
  else do
    let retries ← onWorld (policy.shouldRetry retryCount)
    if !retries then do
      let raw ← handleRetryExhausted policy raw
      pure (.inr raw)
    else do
      Exec.modify fun s => (again s.1, s.2)
      pure (.inl (nextRetryCount retryCount))

theorem retryLoop_eq (policy : RetryPolicy W R) (requestsRetry : R → Bool) (again : M → M)
    (invoke : Exec (M × W) R) (fuel : Nat) :
    retryLoop policy requestsRetry again invoke fuel
      = Exec.iterate (retryStep policy requestsRetry again invoke) fuel 0 := rfl

section Law

variable (policy : RetryPolicy W R) (requestsRetry : R → Bool) (again : M → M)
  (invoke : Exec (M × W) R)

/-- The state before attempt `j + 1`, if all attempts before it are retried. -/
def beforeAttempt (s : M × W) : Nat → M × W
  | 0 => s
  | j + 1 =>
      let after := (invoke (beforeAttempt s j)).2
      (again after.1, (policy.shouldRetry (j % 2 ^ 64) after.2).2)

/-- How attempt `j + 1` ends. -/
def attempt (s : M × W) (j : Nat) : Exit R × M × W := invoke (beforeAttempt policy again invoke s j)

/-- The policy's answer after attempt `j + 1`. -/
def granted (s : M × W) (j : Nat) : Bool × W :=
  policy.shouldRetry (j % 2 ^ 64) (attempt policy again invoke s j).2.2

/-- Attempt `j + 1` asks for a retry, and it is granted. -/
def Retried (s : M × W) (j : Nat) : Prop :=
  ∃ raw, (attempt policy again invoke s j).1 = .ret raw ∧ requestsRetry raw
    ∧ (granted policy again invoke s j).1

/-- The end, if attempt `j + 1` is the last one. -/
def finalAttempt (s : M × W) (j : Nat) : Exit R × M × W :=
  match attempt policy again invoke s j with
  | (.ret raw, m, w) =>
      if requestsRetry raw then
        let exhausted := policy.exhausted raw (granted policy again invoke s j).2
        (.ret exhausted.1, m, exhausted.2)
      else
        (.ret raw, m, w)
  | (.thrown, s') => (.thrown, s')
  | (.halted, s') => (.halted, s')

/-- The law of a retry adapter: from any state, it runs the task up to the first
attempt that is not retried, and ends with that attempt's outcome, or the
exhaustion result if this asked for a retry.  If every attempt is retried, it
does not end. -/
structure RetryLaw (adapter : Nat → Exec ((Nat × M) × W) R) : Prop where
  stops : ∀ s n j fuel, (∀ i < j, Retried policy requestsRetry again invoke s i) →
    ¬ Retried policy requestsRetry again invoke s j → j < fuel →
      adapter fuel ((n, s.1), s.2)
        = withCount (n + (j + 1)) (finalAttempt policy requestsRetry again invoke s j)
  runs : ∀ s n fuel, (∀ i ≤ fuel, Retried policy requestsRetry again invoke s i) →
    adapter (fuel + 1) ((n, s.1), s.2)
      = withCount (n + (fuel + 1)) (.halted, beforeAttempt policy again invoke s (fuel + 1))

variable {policy requestsRetry again invoke}

/-- A retried attempt leads to the next one. -/
theorem retryStep_retried {s : M × W} {j : Nat} (n : Nat)
    (h : Retried policy requestsRetry again invoke s j) :
    retryStep policy requestsRetry (besideCount again) (counted invoke) (j % 2 ^ 64)
        ((n, (beforeAttempt policy again invoke s j).1), (beforeAttempt policy again invoke s j).2)
      = withCount (n + 1) (.ret (.inl ((j + 1) % 2 ^ 64)),
          beforeAttempt policy again invoke s (j + 1)) := by
  obtain ⟨raw, hraw, hrequests, hgranted⟩ := h
  unfold retryStep
  have hinvoke : counted invoke ((n, (beforeAttempt policy again invoke s j).1),
      (beforeAttempt policy again invoke s j).2)
        = withCount (n + 1) (.ret raw, (attempt policy again invoke s j).2) := by
    rw [counted_run, ← hraw]
    rfl
  rw [Exec.bind_ret hinvoke, hrequests, Bool.not_true, if_neg (by simp)]
  have hpolicy : onWorld (policy.shouldRetry (j % 2 ^ 64))
      ((n + 1, (attempt policy again invoke s j).2.1), (attempt policy again invoke s j).2.2)
        = (.ret true, ((n + 1, (attempt policy again invoke s j).2.1),
            (granted policy again invoke s j).2)) := by
    rw [← hgranted]
    rfl
  rw [Exec.bind_ret hpolicy, Bool.not_true, if_neg (by simp)]
  have hcount : nextRetryCount (j % 2 ^ 64) = (j + 1) % 2 ^ 64 := by
    unfold nextRetryCount
    omega
  -- what is left is how `beforeAttempt` was defined
  rw [hcount]
  rfl

/-- An attempt that is not retried ends the loop. -/
theorem retryStep_last {s : M × W} {j : Nat} (n : Nat)
    (h : ¬ Retried policy requestsRetry again invoke s j) (next : Nat → Exec ((Nat × M) × W) R) :
    (retryStep policy requestsRetry (besideCount again) (counted invoke) (j % 2 ^ 64)
          >>= Sum.elim next pure)
        ((n, (beforeAttempt policy again invoke s j).1), (beforeAttempt policy again invoke s j).2)
      = withCount (n + 1) (finalAttempt policy requestsRetry again invoke s j) := by
  have hinvoke : counted invoke ((n, (beforeAttempt policy again invoke s j).1),
      (beforeAttempt policy again invoke s j).2)
        = withCount (n + 1) (attempt policy again invoke s j) := counted_run _ n _
  unfold retryStep finalAttempt
  rw [Exec.bind_assoc]
  rcases hattempt : attempt policy again invoke s j with ⟨raw | _ | _, m, w⟩
  · -- it returned: either it does not ask, or the policy, asked, denies
    rw [hattempt] at hinvoke
    rw [Exec.bind_ret hinvoke]
    cases hrequests : requestsRetry raw with
    | false =>
        rw [Bool.not_false, if_pos rfl]
        show _ = withCount (n + 1) (if requestsRetry raw then _ else _)
        rw [if_neg (by rw [hrequests]; exact Bool.false_ne_true)]
        rfl
    | true =>
        have hdenied : (granted policy again invoke s j).1 = false := by
          by_contra hgranted
          exact h ⟨raw, by rw [hattempt], hrequests, by simpa using hgranted⟩
        have hpolicy : onWorld (policy.shouldRetry (j % 2 ^ 64)) ((n + 1, m), w)
            = (.ret false, ((n + 1, m), (granted policy again invoke s j).2)) := by
          rw [← hdenied]
          unfold granted
          rw [hattempt]
          rfl
        rw [Bool.not_true, if_neg (by simp), Exec.bind_assoc, Exec.bind_ret hpolicy, Bool.not_false,
          if_pos rfl]
        show _ = withCount (n + 1) (if requestsRetry raw then _ else _)
        rw [if_pos hrequests]
        unfold handleRetryExhausted RetryPolicy.exhausted
        cases policy.onExhausted <;> rfl
  · -- nothing catches an exception in the loop
    rw [hattempt] at hinvoke
    rw [Exec.bind_thrown hinvoke]
    rfl
  · rw [hattempt] at hinvoke
    rw [Exec.bind_halted hinvoke]
    rfl

/-- **Both loops obey the law.** -/
theorem retryLoop_law : RetryLaw policy requestsRetry again invoke
    (retryLoop policy requestsRetry (besideCount again) (counted invoke)) := by
  constructor
  · intro s n j fuel hretried hlast hfuel
    rw [retryLoop_eq]
    -- from attempt `i + 1` on, by induction on the attempts still to come
    have hfrom : ∀ k i fuel n, i + k = j → k < fuel →
        Exec.iterate (retryStep policy requestsRetry (besideCount again) (counted invoke)) fuel
            (i % 2 ^ 64)
            ((n, (beforeAttempt policy again invoke s i).1),
              (beforeAttempt policy again invoke s i).2)
          = withCount (n + (k + 1)) (finalAttempt policy requestsRetry again invoke s j) := by
      intro k
      induction k with
      | zero =>
          intro i fuel n hi hfuel
          obtain ⟨fuel, rfl⟩ := Nat.exists_eq_succ_of_ne_zero (Nat.ne_of_gt hfuel)
          obtain rfl : i = j := hi
          rw [Exec.iterate_succ]
          exact retryStep_last n hlast _
      | succ k ih =>
          intro i fuel n hi hfuel
          obtain ⟨fuel, rfl⟩ := Nat.exists_eq_succ_of_ne_zero
            (Nat.ne_of_gt (Nat.zero_lt_of_lt hfuel))
          rw [Exec.iterate_succ, Exec.bind_ret (retryStep_retried n (hretried i (by omega)))]
          show Exec.iterate _ fuel ((i + 1) % 2 ^ 64) _ = _
          have hnext := ih (i + 1) fuel (n + 1) (by omega) (by omega)
          rw [show n + 1 + (k + 1) = n + (k + 1 + 1) by omega] at hnext
          exact hnext
    exact hfrom j 0 fuel n (by omega) hfuel
  · -- as long as everything is retried, the loop only stops at its bound
    intro s n fuel hretried
    rw [retryLoop_eq]
    have hfrom : ∀ k i n, i + k = fuel + 1 →
        Exec.iterate (retryStep policy requestsRetry (besideCount again) (counted invoke)) k
            (i % 2 ^ 64)
            ((n, (beforeAttempt policy again invoke s i).1),
              (beforeAttempt policy again invoke s i).2)
          = withCount (n + k) (.halted, beforeAttempt policy again invoke s (fuel + 1)) := by
      intro k
      induction k with
      | zero =>
          intro i n hi
          obtain rfl : i = fuel + 1 := hi
          rfl
      | succ k ih =>
          intro i n hi
          rw [Exec.iterate_succ, Exec.bind_ret (retryStep_retried n (hretried i (by omega)))]
          show Exec.iterate _ k ((i + 1) % 2 ^ 64) _ = _
          have hnext := ih (i + 1) (n + 1) (by omega)
          rw [show n + 1 + k = n + (k + 1) by omega] at hnext
          exact hnext
    exact hfrom (fuel + 1) 0 n (by omega)

/-- What the counted loop does is what the loop does. -/
theorem retryLoop_counted_sim (fuel : Nat) :
    Exec.Sim BesideCount (retryLoop policy requestsRetry (besideCount again) (counted invoke) fuel)
      (retryLoop policy requestsRetry again invoke fuel) (fun _ => BesideCount) BesideCount
      BesideCount := by
  apply retryLoop_sim besideCount_stable (fun _ _ => id)
  · intro s t hst
    exact ⟨congrArg again hst.1, hst.2⟩
  · exact counted_sim invoke

/-- Under a bounded policy an attempt is denied the next one, and the count
passed to the policy is that of the retries up to it. -/
theorem RetryPolicy.Bounded.stops {n : Nat} (h : policy.Bounded n) (s : M × W) :
    ∃ j ≤ n, (∀ i < j, Retried policy requestsRetry again invoke s i)
      ∧ ¬ Retried policy requestsRetry again invoke s j ∧ ∀ i ≤ j, i % 2 ^ 64 = i := by
  -- counts up to `n` are what they are meant to be, `n` included
  have hsize : ∀ i ≤ n, i % 2 ^ 64 = i := by
    intro i hi
    exact Nat.mod_eq_of_lt (Nat.lt_of_le_of_lt hi h.size)
  have hdenied : ¬ Retried policy requestsRetry again invoke s n := by
    rintro ⟨raw, hraw, hrequests, hgranted⟩
    unfold granted at hgranted
    rw [hsize n (Nat.le_refl n), h.grants] at hgranted
    exact Nat.lt_irrefl n (of_decide_eq_true hgranted)
  classical
  have hex : ∃ j, ¬ Retried policy requestsRetry again invoke s j := ⟨n, hdenied⟩
  have hle : Nat.find hex ≤ n := Nat.find_min' hex hdenied
  refine ⟨Nat.find hex, hle, ?_, Nat.find_spec hex, ?_⟩
  · intro i hi
    exact Classical.not_not.mp (Nat.find_min hex hi)
  · intro i hi
    exact hsize i (Nat.le_trans hi hle)

/-- Beyond a policy's bound, the loop's own does not matter. -/
theorem retryLoop_fuel {n : Nat} (h : policy.Bounded n) {fuel fuel' : Nat} (hfuel : n < fuel)
    (hfuel' : n < fuel') :
    retryLoop policy requestsRetry again invoke fuel
      = retryLoop policy requestsRetry again invoke fuel' := by
  funext s
  obtain ⟨j, hj, hretried, hlast, -⟩ :
      ∃ j ≤ n, (∀ i < j, Retried policy requestsRetry again invoke s i)
        ∧ ¬ Retried policy requestsRetry again invoke s j ∧ ∀ i ≤ j, i % 2 ^ 64 = i :=
    h.stops s
  have hends : ∀ fuel, n < fuel → retryLoop policy requestsRetry again invoke fuel s
      = finalAttempt policy requestsRetry again invoke s j := by
    intro fuel hfuel
    exact of_counted (retryLoop_counted_sim fuel)
      (retryLoop_law.stops s 0 j fuel hretried hlast (Nat.lt_of_le_of_lt hj hfuel))
  rw [hends fuel hfuel, hends fuel' hfuel']

end Law

/-! ## §4. The two entry points. -/

section EntryPoints

/-- `retry_task::invoke_into`, which is `invokeInto` at a retry layer. -/
def retryInvokeInto (policy : RetryPolicy W StepResult) (cleanUp : M → M)
    (invoke : Exec (M × W) StepResult) (fuel : Nat) : Exec (M × W) StepResult :=
  retryLoop policy (fun step => step.status == .retry) cleanUp invoke fuel

theorem rawResultRequestsRetry_eq {kind : RawKind} (raw : kind.Result V) :
    rawResultRequestsRetry kind raw = ((Program.extractStepResult kind raw).status == .retry) := by
  cases kind <;> rfl

/-- Results that cannot ask for a retry do not. -/
theorem rawResultRequestsRetry_incapable {kind : RawKind} (h : ¬ kind.retryStatusCapable)
    (raw : kind.Result V) : rawResultRequestsRetry kind raw = false := by
  cases kind with
  | void => rfl
  | value => rfl
  | step => exact absurd rfl h
  | taskResult => exact absurd rfl h

/-- **`invoke_raw` obeys the law**, also where it only forwards. -/
theorem retryInvokeRaw_law (kind : RawKind) (policy : RetryPolicy W (kind.Result V))
    (invoke : Exec (M × W) (kind.Result V)) :
    RetryLaw policy (rawResultRequestsRetry kind) id invoke
      (retryInvokeRaw kind policy (counted invoke)) := by
  by_cases hcapable : kind.retryStatusCapable
  · have hloop : retryInvokeRaw kind policy (counted invoke)
        = retryLoop policy (rawResultRequestsRetry kind) (besideCount id) (counted invoke) := by
      funext fuel
      unfold retryInvokeRaw
      rw [if_pos hcapable]
      rfl
    rw [hloop]
    exact retryLoop_law
  · -- such a result never asks, so there is one attempt
    have hnever : ∀ s j, ¬ Retried policy (rawResultRequestsRetry kind) id invoke s j := by
      rintro s j ⟨raw, -, hrequests, -⟩
      rw [rawResultRequestsRetry_incapable hcapable raw] at hrequests
      exact Bool.false_ne_true hrequests
    constructor
    · intro s n j fuel hretried _ _
      obtain rfl : j = 0 := by
        by_contra hj
        exact hnever s 0 (hretried 0 (Nat.pos_of_ne_zero hj))
      unfold retryInvokeRaw finalAttempt
      rw [if_neg hcapable, counted_run invoke n s]
      -- the only attempt, forwarded
      have hattempt : attempt policy id invoke s 0 = invoke s := rfl
      rw [hattempt]
      rcases invoke s with ⟨raw | _ | _, s'⟩
      · show _ = withCount (n + 1) (if rawResultRequestsRetry kind raw then _ else _)
        rw [rawResultRequestsRetry_incapable hcapable raw, if_neg Bool.false_ne_true]
      · rfl
      · rfl
    · intro s n fuel hretried
      exact absurd (hretried 0 (Nat.zero_le _)) (hnever s 0)

/-- **`invoke_into` obeys the law.** -/
theorem retryInvokeInto_law (policy : RetryPolicy W StepResult) (cleanUp : M → M)
    (invoke : Exec (M × W) StepResult) :
    RetryLaw policy (fun step => step.status == .retry) cleanUp invoke
      (retryInvokeInto policy (besideCount cleanUp) (counted invoke)) :=
  retryLoop_law

/-- The step an exit carries. -/
def exitStep (kind : RawKind) : Exit (kind.Result V) → Exit StepResult
  | .ret raw => .ret (Program.extractStepResult kind raw)
  | .thrown => .thrown
  | .halted => .halted

/-- Two attempts with one status, after which the policy's answers are one. -/
structure SameAttempt {kind : RawKind} (policy : RetryPolicy W (kind.Result V))
    (invoke : Exec (M × W) (kind.Result V)) (policy' : RetryPolicy W StepResult) (cleanUp : N → N)
    (invoke' : Exec (N × W) StepResult) (s : M × W) (t : N × W) (j : Nat) : Prop where
  step : exitStep kind (attempt policy id invoke s j).1 = (attempt policy' cleanUp invoke' t j).1
  granted : (granted policy id invoke s j).1 = (granted policy' cleanUp invoke' t j).1

/-- A policy's members make results with one status of raw results and of
steps. -/
def SameExhausted {kind : RawKind} (policy : RetryPolicy W (kind.Result V))
    (policy' : RetryPolicy W StepResult) : Prop :=
  ∀ raw w w', rawResultRequestsRetry kind raw →
    Program.extractStepResult kind (policy.exhausted raw w).1
      = (policy'.exhausted (Program.extractStepResult kind raw) w').1

variable {kind : RawKind} {policy : RetryPolicy W (kind.Result V)}
  {invoke : Exec (M × W) (kind.Result V)} {policy' : RetryPolicy W StepResult} {cleanUp : N → N}
  {invoke' : Exec (N × W) StepResult} {s : M × W} {t : N × W} {j : Nat}

/-- On one status the two loops decide the same. -/
theorem SameAttempt.retried_iff (h : SameAttempt policy invoke policy' cleanUp invoke' s t j) :
    Retried policy (rawResultRequestsRetry kind) id invoke s j
      ↔ Retried policy' (fun step => step.status == .retry) cleanUp invoke' t j := by
  have hstep := h.step
  constructor
  · rintro ⟨raw, hraw, hrequests, hgranted⟩
    rw [hraw] at hstep
    refine ⟨Program.extractStepResult kind raw, hstep.symm, ?_, ?_⟩
    · show ((Program.extractStepResult kind raw).status == .retry) = true
      rw [← rawResultRequestsRetry_eq]
      exact hrequests
    · rw [← h.granted]
      exact hgranted
  · rintro ⟨step, hraw, hrequests, hgranted⟩
    rw [hraw] at hstep
    generalize hexit : (attempt policy id invoke s j).1 = exit at hstep
    rcases exit with raw | _ | _
    · cases hstep
      refine ⟨raw, hexit, ?_, ?_⟩
      · rw [rawResultRequestsRetry_eq]
        exact hrequests
      · rw [h.granted]
        exact hgranted
    · cases hstep
    · cases hstep

/-- On one status the two loops end with the same status. -/
theorem SameAttempt.finalAttempt (h : SameAttempt policy invoke policy' cleanUp invoke' s t j)
    (hexhausted : SameExhausted policy policy') :
    exitStep kind (finalAttempt policy (rawResultRequestsRetry kind) id invoke s j).1
      = (finalAttempt policy' (fun step => step.status == .retry) cleanUp invoke' t j).1 := by
  have hstep := h.step
  unfold YOrch.finalAttempt
  generalize attempt policy id invoke s j = result at hstep ⊢
  generalize attempt policy' cleanUp invoke' t j = result' at hstep ⊢
  rcases result with ⟨raw | _ | _, m, w⟩
  · rcases result' with ⟨step | _ | _, m', w'⟩
    · cases hstep
      show exitStep kind (if rawResultRequestsRetry kind raw then _ else _ : Exit _ × M × W).1
        = (if (Program.extractStepResult kind raw).status == .retry then _ else _
            : Exit _ × N × W).1
      rw [← rawResultRequestsRetry_eq]
      by_cases hrequests : rawResultRequestsRetry kind raw
      · rw [if_pos hrequests, if_pos hrequests]
        exact congrArg Exit.ret (hexhausted raw _ _ hrequests)
      · rw [if_neg hrequests, if_neg hrequests]
        rfl
    · cases hstep
    · cases hstep
  · rcases result' with ⟨step | _ | _, m', w'⟩
    · cases hstep
    · rfl
    · cases hstep
  · rcases result' with ⟨step | _ | _, m', w'⟩
    · cases hstep
    · cases hstep
    · rfl

/-- **No drift.**  Where the attempts of `invoke_raw` and `invoke_into` have one
status after another, both adapters run the task equally often and end with one
status. -/
theorem retryInvoke_same (hsame : ∀ i ≤ j, SameAttempt policy invoke policy' cleanUp invoke' s t i)
    (hexhausted : SameExhausted policy policy')
    (hretried : ∀ i < j, Retried policy (rawResultRequestsRetry kind) id invoke s i)
    (hlast : ¬ Retried policy (rawResultRequestsRetry kind) id invoke s j) (n : Nat) {fuel : Nat}
    (hfuel : j < fuel) :
    exitStep kind (retryInvokeRaw kind policy (counted invoke) fuel ((n, s.1), s.2)).1
        = (retryInvokeInto policy' (besideCount cleanUp) (counted invoke') fuel
            ((n, t.1), t.2)).1
      ∧ (retryInvokeRaw kind policy (counted invoke) fuel ((n, s.1), s.2)).2.1.1 = n + (j + 1)
      ∧ (retryInvokeInto policy' (besideCount cleanUp) (counted invoke') fuel
          ((n, t.1), t.2)).2.1.1 = n + (j + 1) := by
  have hretried' : ∀ i < j,
      Retried policy' (fun step => step.status == .retry) cleanUp invoke' t i := by
    intro i hi
    exact (hsame i (Nat.le_of_lt hi)).retried_iff.mp (hretried i hi)
  have hlast' : ¬ Retried policy' (fun step => step.status == .retry) cleanUp invoke' t j := by
    intro h
    exact hlast ((hsame j (Nat.le_refl j)).retried_iff.mpr h)
  rw [(retryInvokeRaw_law kind policy invoke).stops s n j fuel hretried hlast hfuel,
    (retryInvokeInto_law policy' cleanUp invoke').stops t n j fuel hretried' hlast' hfuel]
  exact ⟨(hsame j (Nat.le_refl j)).finalAttempt hexhausted, rfl, rfl⟩

theorem retryFixedPolicy_sameExhausted (kind : RawKind) (n : Nat) :
    SameExhausted (@retryFixedPolicy V W kind n) (@retryFixedPolicy V W .step n) := by
  intro raw w w' hrequests
  cases kind with
  | step => rfl
  | taskResult => rfl
  | void => cases hrequests
  | value => cases hrequests

theorem retryFixedPassthroughPolicy_sameExhausted (kind : RawKind) (n : Nat) :
    SameExhausted (retryFixedPassthroughPolicy n : RetryPolicy W (kind.Result V))
      (retryFixedPassthroughPolicy n) :=
  fun _ _ _ _ => rfl

theorem sameExhausted_of_none (h : policy.onExhausted = none) (h' : policy'.onExhausted = none) :
    SameExhausted policy policy' := by
  intro raw w w' _
  unfold RetryPolicy.exhausted
  rw [h, h']

end EntryPoints

/-! ## §5. Nesting. -/

section Nesting

/-- `x` adds at most `b` to the count. -/
def CostsAtMost (b : Nat) (x : Exec ((Nat × M) × W) R) : Prop :=
  ∀ c, Exec.Triple (fun s => s.1.1 ≤ c) x (fun _ s => s.1.1 ≤ c + b) (fun s => s.1.1 ≤ c + b)
    (fun s => s.1.1 ≤ c + b)

theorem counted_costs (x : Exec (M × W) R) : CostsAtMost 1 (counted x) := by
  intro c
  apply Exec.Triple.of_ends
  rintro ⟨⟨n, m⟩, w⟩ (hn : n ≤ c)
  rw [counted_run x n (m, w)]
  rcases x (m, w) with ⟨_ | _ | _, m', w'⟩
  · exact Nat.succ_le_succ hn
  · exact Nat.succ_le_succ hn
  · exact Nat.succ_le_succ hn

theorem CostsAtMost.mono {b b' : Nat} {x : Exec ((Nat × M) × W) R} (hx : CostsAtMost b x)
    (hle : b ≤ b') : CostsAtMost b' x := by
  intro c
  have hbound : ∀ s : (Nat × M) × W, s.1.1 ≤ c + b → s.1.1 ≤ c + b' :=
    fun _ hs => Nat.le_trans hs (Nat.add_le_add_left hle c)
  exact (hx c).conseq (fun _ => id) (fun _ => hbound) hbound hbound

/-- What a handler does is not counted. -/
theorem CostsAtMost.catchAll {b : Nat} {x h : Exec ((Nat × M) × W) R} (hx : CostsAtMost b x)
    (hh : ∀ c, Exec.Triple (fun s => s.1.1 ≤ c) h (fun _ s => s.1.1 ≤ c) (fun s => s.1.1 ≤ c)
      (fun s => s.1.1 ≤ c)) : CostsAtMost b (Exec.catchAll x h) :=
  fun c => (hx c).catchAll (hh (c + b))

theorem CostsAtMost.map {b : Nat} {R' : Type} {x : Exec ((Nat × M) × W) R}
    (hx : CostsAtMost b x) (f : R → R') : CostsAtMost b (x >>= fun raw => pure (f raw)) :=
  fun c => (hx c).bind fun _ => .pure fun _ h => h

theorem onWorld_costs {α : Type} (f : W → α × W) (c : Nat) :
    Exec.Triple (fun s : (Nat × M) × W => s.1.1 ≤ c) (onWorld f) (fun _ s => s.1.1 ≤ c)
      (fun s => s.1.1 ≤ c) (fun s => s.1.1 ≤ c) :=
  .act fun _ h => h

theorem handleRetryExhausted_costs (policy : RetryPolicy W R) (raw : R) (c : Nat) :
    Exec.Triple (fun s : (Nat × M) × W => s.1.1 ≤ c) (handleRetryExhausted policy raw)
      (fun _ s => s.1.1 ≤ c) (fun s => s.1.1 ≤ c) (fun s => s.1.1 ≤ c) := by
  unfold handleRetryExhausted
  cases policy.onExhausted with
  | some exhausted => exact onWorld_costs _ c
  | none => exact .pure fun _ h => h

/-- Iteration `i + 1` costs one attempt, and there is a next one only if
`i < n`. -/
theorem retryStep_costs {policy : RetryPolicy W R} {n b : Nat} (hn : policy.Bounded n)
    {invoke : Exec ((Nat × M) × W) R} (hinvoke : CostsAtMost b invoke)
    (requestsRetry : R → Bool) (again : M → M) (c i : Nat) :
    Exec.Triple (fun s => s.1.1 ≤ c + i * b)
      (retryStep policy requestsRetry (besideCount again) invoke i)
      (fun next s => s.1.1 ≤ c + (i + 1) * b ∧ ∀ i', next = .inl i' → i' = i + 1 ∧ i < n)
      (fun s => s.1.1 ≤ c + (i + 1) * b) (fun s => s.1.1 ≤ c + (i + 1) * b) := by
  unfold retryStep
  have hattempt := hinvoke (c + i * b)
  rw [show c + i * b + b = c + (i + 1) * b by rw [Nat.succ_mul, Nat.add_assoc]] at hattempt
  apply hattempt.bind
  intro raw
  -- nothing after the attempt is counted
  by_cases hrequests : requestsRetry raw
  · rw [hrequests, Bool.not_true, if_neg Bool.false_ne_true]
    -- the policy's answer is that `i < n`
    have hpolicy : Exec.Triple (fun s : (Nat × M) × W => s.1.1 ≤ c + (i + 1) * b)
        (onWorld (policy.shouldRetry i))
        (fun retries s => s.1.1 ≤ c + (i + 1) * b ∧ retries = decide (i < n))
        (fun s => s.1.1 ≤ c + (i + 1) * b) (fun s => s.1.1 ≤ c + (i + 1) * b) :=
      .act fun s hs => ⟨hs, hn.grants i s.2⟩
    apply hpolicy.bind
    rintro (_ | _)
    · rw [Bool.not_false, if_pos rfl]
      apply ((handleRetryExhausted_costs policy raw _).pre fun _ hs => hs.1).bind
      intro raw
      exact .pure fun _ hs => ⟨hs, nofun⟩
    · rw [Bool.not_true, if_neg Bool.false_ne_true]
      have hagain : Exec.Triple
          (fun s : (Nat × M) × W => s.1.1 ≤ c + (i + 1) * b ∧ true = decide (i < n))
          (Exec.modify fun s => (besideCount again s.1, s.2))
          (fun _ s => s.1.1 ≤ c + (i + 1) * b ∧ i < n)
          (fun s => s.1.1 ≤ c + (i + 1) * b) (fun s => s.1.1 ≤ c + (i + 1) * b) :=
        .modify fun _ hs => ⟨hs.1, of_decide_eq_true hs.2.symm⟩
      apply hagain.bind
      intro _
      apply Exec.Triple.pure
      rintro s ⟨hs, hlt⟩
      refine ⟨hs, ?_⟩
      rintro i' ⟨⟩
      have hsize := hn.size
      unfold nextRetryCount
      omega
  · rw [Bool.not_eq_true] at hrequests
    rw [hrequests, Bool.not_false, if_pos rfl]
    exact .pure fun _ hs => ⟨hs, nofun⟩

/-- **The budget of one layer.**  With `n` retries, a loop costs `n + 1` of its
attempts. -/
theorem retryLoop_costs {policy : RetryPolicy W R} {n b : Nat} (hn : policy.Bounded n)
    {invoke : Exec ((Nat × M) × W) R} (hinvoke : CostsAtMost b invoke)
    (requestsRetry : R → Bool) (again : M → M) (fuel : Nat) :
    CostsAtMost ((n + 1) * b)
      (retryLoop policy requestsRetry (besideCount again) invoke fuel) := by
  intro c
  rw [retryLoop_eq]
  have hle : ∀ i ≤ n, c + (i + 1) * b ≤ c + (n + 1) * b := by
    intro i hi
    exact Nat.add_le_add_left (Nat.mul_le_mul_right b (Nat.succ_le_succ hi)) c
  -- before attempt `i + 1`, there were `i` attempts
  let I : Nat → (Nat × M) × W → Prop := fun i s => i ≤ n ∧ s.1.1 ≤ c + i * b
  let Spent : (Nat × M) × W → Prop := fun s => s.1.1 ≤ c + (n + 1) * b
  -- an iteration with `n < i` does not happen, so nothing is to be shown of it
  have hstep : ∀ i, Exec.Triple (I i) (retryStep policy requestsRetry (besideCount again) invoke i)
      (Sum.elim I fun _ => Spent) Spent Spent := by
    intro i
    by_cases hi : i ≤ n
    · apply (retryStep_costs hn hinvoke requestsRetry again c i).conseq
      · exact fun _ hs => hs.2
      · rintro (i' | raw) s ⟨hs, hnext⟩
        · obtain ⟨rfl, hlt⟩ := hnext i' rfl
          exact ⟨hlt, hs⟩
        · exact Nat.le_trans hs (hle i hi)
      · exact fun _ hs => Nat.le_trans hs (hle i hi)
      · exact fun _ hs => Nat.le_trans hs (hle i hi)
    · exact .of_ends fun s hs => absurd hs.1 hi
  have hhalt : ∀ i s, I i s → Spent s := by
    rintro i s ⟨hi, hs⟩
    have hmul : i * b ≤ (i + 1) * b := Nat.mul_le_mul_right b (Nat.le_succ i)
    have hbound := hle i hi
    show s.1.1 ≤ c + (n + 1) * b
    omega
  apply (Exec.Triple.iterate hstep hhalt fuel 0).pre
  intro s hs
  exact ⟨Nat.zero_le n, by omega⟩

/-- The retry layers of a stack, from the outermost, are bounded by `ns`. -/
def Task.RetriesBounded {R : Task → Type} : (task : Task) → task.Policies R W → List Nat → Prop
  | .base _, _, ns => ns = []
  | .catchFailureTask task, policies, ns => task.RetriesBounded policies ns
  | .catchFailureWithPolicyTask _ task, policies, ns => task.RetriesBounded policies.2 ns
  | .retryTask _, _, [] => False
  | .retryTask task, policies, n :: ns => policies.1.Bounded n ∧ task.RetriesBounded policies.2 ns

/-- The product of the layers' attempts. -/
def attemptBudget (ns : List Nat) : Nat := (ns.map (· + 1)).prod

theorem attemptBudget_cons (n : Nat) (ns : List Nat) :
    attemptBudget (n :: ns) = (n + 1) * attemptBudget ns := by
  unfold attemptBudget
  rw [List.map_cons, List.prod_cons]

/-- **The budget of a stack**, through `invoke_raw`. -/
theorem invokeRaw_costs (fuel : Nat) : ∀ (task : Task)
    (policies : task.Policies (fun task => task.rawKind.Result V) W) (ns : List Nat),
    task.RetriesBounded policies ns →
    ∀ attempt : Exec (M × W) (task.bound.rawResultType.rawKind.Result V),
      CostsAtMost (attemptBudget ns) (invokeRaw fuel task policies (counted attempt))
  | .base _, _, ns, h, attempt => by
      obtain rfl : ns = [] := h
      exact counted_costs attempt
  | .catchFailureTask task, policies, ns, h, attempt => by
      apply ((invokeRaw_costs fuel task policies ns h attempt).map _).catchAll
      intro c
      exact .ofOption (fun _ _ _ hs => hs) fun _ _ hs => hs
  | .catchFailureWithPolicyTask _ task, (policy, policies), ns, h, attempt =>
      ((invokeRaw_costs fuel task policies ns h attempt).map _).catchAll (onWorld_costs policy)
  | .retryTask task, (policy, policies), n :: ns, h, attempt => by
      have hinner := invokeRaw_costs fuel task policies ns h.2 attempt
      rw [attemptBudget_cons]
      show CostsAtMost _ (retryInvokeRaw task.rawKind policy
        (invokeRaw fuel task policies (counted attempt)) fuel)
      unfold retryInvokeRaw
      split
      · -- the outer loop counts whole runs of the inner stack
        exact retryLoop_costs h.1 hinner _ id fuel
      · exact hinner.mono (Nat.le_mul_of_pos_left _ (Nat.succ_pos n))

/-- **The budget of a stack**, through `invoke_into`. -/
theorem invokeInto_costs (fuel : Nat) (cleanUp : M → M) (attempt : Exec (M × W) StepResult) :
    ∀ (task : Task) (policies : task.Policies (fun _ => StepResult) W) (ns : List Nat),
      task.RetriesBounded policies ns →
      CostsAtMost (attemptBudget ns)
        (invokeInto fuel (besideCount cleanUp) (counted attempt) task policies)
  | .base _, _, ns, h => by
      obtain rfl : ns = [] := h
      exact counted_costs attempt
  | .catchFailureTask task, policies, ns, h => by
      apply (invokeInto_costs fuel cleanUp attempt task policies ns h).catchAll
      exact fun _ => .pure fun _ hs => hs
  | .catchFailureWithPolicyTask _ task, (policy, policies), ns, h =>
      (invokeInto_costs fuel cleanUp attempt task policies ns h).catchAll (onWorld_costs policy)
  | .retryTask task, (policy, policies), n :: ns, h => by
      have hinner := invokeInto_costs fuel cleanUp attempt task policies ns h.2
      rw [attemptBudget_cons]
      exact retryLoop_costs h.1 hinner _ cleanUp fuel

/-- The loops of a bounded stack do not run out of `2 ^ 64` iterations. -/
theorem invokeRaw_fuel {fuel : Nat} (hfuel : 2 ^ 64 ≤ fuel) : ∀ (task : Task)
    (policies : task.Policies (fun task => task.rawKind.Result V) W) (ns : List Nat),
    task.RetriesBounded policies ns →
    ∀ attempt : Exec (M × W) (task.bound.rawResultType.rawKind.Result V),
      invokeRaw fuel task policies attempt = invokeRaw (2 ^ 64) task policies attempt
  | .base _, _, _, _, _ => rfl
  | .catchFailureTask task, policies, ns, h, attempt => by
      unfold invokeRaw
      rw [invokeRaw_fuel hfuel task policies ns h attempt]
  | .catchFailureWithPolicyTask _ task, (policy, policies), ns, h, attempt => by
      show Exec.catchAll (invokeRaw fuel task policies attempt
        >>= fun raw => pure (caughtReturn task.rawKind raw)) (onWorld policy) = _
      rw [invokeRaw_fuel hfuel task policies ns h attempt]
      rfl
  | .retryTask task, (policy, policies), n :: ns, h, attempt => by
      show retryInvokeRaw task.rawKind policy (invokeRaw fuel task policies attempt) fuel
        = retryInvokeRaw task.rawKind policy (invokeRaw (2 ^ 64) task policies attempt) (2 ^ 64)
      rw [invokeRaw_fuel hfuel task policies ns h.2 attempt]
      unfold retryInvokeRaw
      split
      · exact retryLoop_fuel h.1 (Nat.lt_of_lt_of_le h.1.size hfuel) h.1.size
      · rfl

theorem invokeInto_fuel {fuel : Nat} (hfuel : 2 ^ 64 ≤ fuel) (cleanUp : M → M)
    (attempt : Exec (M × W) StepResult) : ∀ (task : Task)
    (policies : task.Policies (fun _ => StepResult) W) (ns : List Nat),
    task.RetriesBounded policies ns →
      invokeInto fuel cleanUp attempt task policies
        = invokeInto (2 ^ 64) cleanUp attempt task policies
  | .base _, _, _, _ => rfl
  | .catchFailureTask task, policies, ns, h => by
      unfold invokeInto
      rw [invokeInto_fuel hfuel cleanUp attempt task policies ns h]
  | .catchFailureWithPolicyTask _ task, (policy, policies), ns, h => by
      show Exec.catchAll (invokeInto fuel cleanUp attempt task policies) (onWorld policy) = _
      rw [invokeInto_fuel hfuel cleanUp attempt task policies ns h]
      rfl
  | .retryTask task, (policy, policies), n :: ns, h => by
      show retryInvokeInto policy cleanUp (invokeInto fuel cleanUp attempt task policies) fuel
        = retryInvokeInto policy cleanUp (invokeInto (2 ^ 64) cleanUp attempt task policies)
            (2 ^ 64)
      rw [invokeInto_fuel hfuel cleanUp attempt task policies ns h.2]
      exact retryLoop_fuel h.1 (Nat.lt_of_lt_of_le h.1.size hfuel) h.1.size

/-- Counting attempts does not change what a stack does. -/
theorem invokeRaw_counted_sim (fuel : Nat) (task : Task)
    (policies : task.Policies (fun task => task.rawKind.Result V) W)
    (attempt : Exec (M × W) (task.bound.rawResultType.rawKind.Result V)) :
    Exec.Sim BesideCount (invokeRaw fuel task policies (counted attempt))
      (invokeRaw fuel task policies attempt) (fun _ => BesideCount) BesideCount BesideCount :=
  invokeRaw_sim besideCount_stable (fun _ _ => id) (fun _ _ => id) fuel task policies
    (fun _ _ _ => id) (counted_sim attempt)

theorem invokeInto_counted_sim (fuel : Nat) (cleanUp : M → M) (attempt : Exec (M × W) StepResult)
    (task : Task) (policies : task.Policies (fun _ => StepResult) W) :
    Exec.Sim BesideCount
      (invokeInto fuel (besideCount cleanUp) (counted attempt) task policies)
      (invokeInto fuel cleanUp attempt task policies) (fun _ => BesideCount) BesideCount
      BesideCount :=
  invokeInto_sim besideCount_stable (fun _ _ => id) fuel (counted_sim attempt) task policies
    fun _ _ _ h => ⟨congrArg cleanUp h.1, h.2⟩

end Nesting

/-! ## §6. The laws of `retry_task`. -/

/-- What the comments on `retry_task` and the wiki promise, each clause for every
task, policy and attempt.  Only `agree` compares the entry points, and it asks
the two policies to answer alike once a retry is denied: `onExhausted` is
resolved at the raw result type of each. -/
structure RetryTaskLaws (M N R V W : Type) : Prop where
  /-- `invoke_raw` runs the task up to the first attempt that is not retried. -/
  raw : ∀ (kind : RawKind) (policy : RetryPolicy W (kind.Result V))
    (invoke : Exec (M × W) (kind.Result V)),
    RetryLaw policy (rawResultRequestsRetry kind) id invoke
      (retryInvokeRaw kind policy (counted invoke))
  /-- `invoke_into` does, and cleans up before each further attempt. -/
  into : ∀ (policy : RetryPolicy W StepResult) (cleanUp : M → M)
    (invoke : Exec (M × W) StepResult),
    RetryLaw policy (fun step => step.status == .retry) cleanUp invoke
      (retryInvokeInto policy (besideCount cleanUp) (counted invoke))
  /-- `retry_fixed_policy` fails once a retry is denied. -/
  fixed_fails : ∀ (kind : RawKind) (n : Nat) (raw : kind.Result V) (w : W),
    kind.retryStatusCapable →
      Program.extractStepResult kind ((retryFixedPolicy kind n).exhausted raw w).1 = .failure
  /-- `retry_fixed_passthrough_policy` returns the result it was denied for. -/
  passthrough_returns : ∀ (n : Nat) (raw : R) (w : W),
    ((retryFixedPassthroughPolicy n).exhausted raw w).1 = raw
  /-- So does a policy without `on_exhausted`. -/
  none_returns : ∀ (policy : RetryPolicy W R) (raw : R) (w : W), policy.onExhausted = none →
    (policy.exhausted raw w).1 = raw
  /-- On attempts of the same statuses both entry points end in the same one,
  after as many attempts. -/
  agree : ∀ (kind : RawKind) (policy : RetryPolicy W (kind.Result V))
    (invoke : Exec (M × W) (kind.Result V)) (policy' : RetryPolicy W StepResult)
    (cleanUp : N → N) (invoke' : Exec (N × W) StepResult) (s : M × W) (t : N × W)
    (j n fuel : Nat),
    (∀ i ≤ j, SameAttempt policy invoke policy' cleanUp invoke' s t i) →
    SameExhausted policy policy' →
    (∀ i < j, Retried policy (rawResultRequestsRetry kind) id invoke s i) →
    ¬ Retried policy (rawResultRequestsRetry kind) id invoke s j → j < fuel →
      exitStep kind (retryInvokeRaw kind policy (counted invoke) fuel ((n, s.1), s.2)).1
          = (retryInvokeInto policy' (besideCount cleanUp) (counted invoke') fuel
              ((n, t.1), t.2)).1
        ∧ (retryInvokeRaw kind policy (counted invoke) fuel ((n, s.1), s.2)).2.1.1 = n + (j + 1)
        ∧ (retryInvokeInto policy' (besideCount cleanUp) (counted invoke') fuel
            ((n, t.1), t.2)).2.1.1 = n + (j + 1)
  fixed_same : ∀ (kind : RawKind) (n : Nat),
    SameExhausted (@retryFixedPolicy V W kind n) (@retryFixedPolicy V W .step n)
  passthrough_same : ∀ (kind : RawKind) (n : Nat),
    SameExhausted (retryFixedPassthroughPolicy n : RetryPolicy W (kind.Result V))
      (retryFixedPassthroughPolicy n)
  none_same : ∀ (kind : RawKind) (policy : RetryPolicy W (kind.Result V))
    (policy' : RetryPolicy W StepResult),
    policy.onExhausted = none → policy'.onExhausted = none → SameExhausted policy policy'
  forever_none : (retryForeverPolicy : RetryPolicy W R).onExhausted = none
  fixed_bounded : ∀ (kind : RawKind) (n : Nat), n < 2 ^ 64 →
    (retryFixedPolicy kind n : RetryPolicy W (kind.Result V)).Bounded n
  passthrough_bounded : ∀ n : Nat, n < 2 ^ 64 →
    (retryFixedPassthroughPolicy n : RetryPolicy W R).Bounded n
  /-- Under `max_retries`, at most that many attempts are retried, and the count
  the policy is told never wraps. -/
  stops : ∀ (n : Nat) (policy : RetryPolicy W R) (requestsRetry : R → Bool) (again : M → M)
    (invoke : Exec (M × W) R) (s : M × W), policy.Bounded n →
    ∃ j ≤ n, (∀ i < j, Retried policy requestsRetry again invoke s i)
      ∧ ¬ Retried policy requestsRetry again invoke s j ∧ ∀ i ≤ j, i % 2 ^ 64 = i
  /-- A stack runs its task at most the product of its layers' attempts, counting
  changes nothing, and no loop needs more than `2 ^ 64` iterations. -/
  raw_budget : ∀ (task : Task) (policies : task.Policies (fun task => task.rawKind.Result V) W)
    (ns : List Nat) (attempt : Exec (M × W) (task.bound.rawResultType.rawKind.Result V)),
    task.RetriesBounded policies ns →
      (∀ fuel s, (invokeRaw fuel task policies (counted attempt) s).2.1.1
        ≤ s.1.1 + attemptBudget ns)
      ∧ (∀ fuel, Exec.Sim BesideCount (invokeRaw fuel task policies (counted attempt))
        (invokeRaw fuel task policies attempt) (fun _ => BesideCount) BesideCount BesideCount)
      ∧ ∀ fuel ≥ 2 ^ 64,
        invokeRaw fuel task policies attempt = invokeRaw (2 ^ 64) task policies attempt
  into_budget : ∀ (task : Task) (policies : task.Policies (fun _ => StepResult) W)
    (ns : List Nat) (cleanUp : M → M) (attempt : Exec (M × W) StepResult),
    task.RetriesBounded policies ns →
      (∀ fuel s, (invokeInto fuel (besideCount cleanUp) (counted attempt) task policies s).2.1.1
        ≤ s.1.1 + attemptBudget ns)
      ∧ (∀ fuel, Exec.Sim BesideCount
        (invokeInto fuel (besideCount cleanUp) (counted attempt) task policies)
        (invokeInto fuel cleanUp attempt task policies) (fun _ => BesideCount) BesideCount
        BesideCount)
      ∧ ∀ fuel ≥ 2 ^ 64, invokeInto fuel cleanUp attempt task policies
        = invokeInto (2 ^ 64) cleanUp attempt task policies

/-- **The laws of `retry_task`.**  Both entry points run the task up to the first
attempt that does not ask for a retry or is denied one, and return its result or
the policy's exhaustion result; under `max_retries` there are at most that many
retries, for every `std::size_t`; and a stack of adapters runs its task at most
the product of the layers' numbers of attempts.  On attempts of the same
statuses, and under policies with `SameExhausted` results, the two agree. -/
theorem retry_law : RetryTaskLaws M N R V W where
  raw := retryInvokeRaw_law
  into := retryInvokeInto_law
  fixed_fails := by
    intro kind n raw w hcapable
    cases kind with
    | step => rfl
    | taskResult => rfl
    | void => exact absurd hcapable Bool.false_ne_true
    | value => exact absurd hcapable Bool.false_ne_true
  passthrough_returns _ _ _ := rfl
  none_returns := by
    intro policy raw w hnone
    unfold RetryPolicy.exhausted
    rw [hnone]
  agree := by
    intro kind policy invoke policy' cleanUp invoke' s t j n fuel hsame hexhausted hretried hlast
      hfuel
    exact retryInvoke_same hsame hexhausted hretried hlast n hfuel
  fixed_same := retryFixedPolicy_sameExhausted
  passthrough_same := retryFixedPassthroughPolicy_sameExhausted
  none_same _ _ _ := sameExhausted_of_none
  forever_none := rfl
  fixed_bounded kind _ := retryFixedPolicy_bounded kind
  passthrough_bounded _ := retryFixedPassthroughPolicy_bounded
  stops := by
    intro n policy requestsRetry again invoke s hbounded
    exact hbounded.stops s
  raw_budget := by
    intro task policies ns attempt hbounded
    refine ⟨?_, fun fuel => invokeRaw_counted_sim fuel task policies attempt, ?_⟩
    · intro fuel s
      exact (invokeRaw_costs fuel task policies ns hbounded attempt s.1.1).after (Nat.le_refl _)
    · intro fuel hfuel
      exact invokeRaw_fuel hfuel task policies ns hbounded attempt
  into_budget := by
    intro task policies ns cleanUp attempt hbounded
    refine ⟨?_, fun fuel => invokeInto_counted_sim fuel cleanUp attempt task policies, ?_⟩
    · intro fuel s
      exact (invokeInto_costs fuel cleanUp attempt task policies ns hbounded s.1.1).after
        (Nat.le_refl _)
    · intro fuel hfuel
      exact invokeInto_fuel hfuel cleanUp attempt task policies ns hbounded

end YOrch
