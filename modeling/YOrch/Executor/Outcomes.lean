/-
  YOrch.Executor.Outcomes — what adapters make of the outcomes of attempts.

  `Good` is a property of raw results that the policies of an adapter stack keep.
  If attempts turn `Ready` into `Tried`, throw in `E` and halt in `H`, the stack
  does, too: it throws only where nothing catches, and it halts by itself only
  where it does not settle.

    • `retryLoop_outcome` — the loop, which ends if its policy gives up,
    • `invokeRaw_adapts`, `invokeInto_adapts` — the two entry points,
    • `invokeRaw_outcome`, `invokeInto_outcome` — the same, on attempts that keep
      an invariant and return good results.
-/
import YOrch.Executor.Concepts
import YOrch.Executor.Retries

namespace YOrch

open Library

variable {M V W : Type}

/-! ## §1. Policies. -/

/-- The policy denies every retry from the `n`-th on. -/
structure RetryPolicy.GivesUp {R : Type} (policy : RetryPolicy W R) (n : Nat) : Prop where
  size : n < 2 ^ 64
  denies : ∀ retryCount w, n ≤ retryCount → (policy.shouldRetry retryCount w).1 = false

namespace Task

variable {R : Task → Type}

/-- The results the policies of a stack make are good. -/
def PoliciesKeep (Good : (task : Task) → R task → Prop) : (task : Task) → task.Policies R W → Prop
  | .base _, _ => True
  | .catchFailureTask task, policies => task.PoliciesKeep Good policies
  | .catchFailureWithPolicyTask policyResult task, (policy, policies) =>
      (∀ w, Good (.catchFailureWithPolicyTask policyResult task) (policy w).1)
        ∧ task.PoliciesKeep Good policies
  | .retryTask task, (policy, policies) =>
      (∀ exhausted, policy.onExhausted = some exhausted →
        ∀ raw w, Good task raw → Good task (exhausted raw w).1)
        ∧ task.PoliciesKeep Good policies

theorem policiesKeep_of_forall {Good : (task : Task) → R task → Prop}
    (h : ∀ task raw, Good task raw) :
    ∀ (task : Task) (policies : task.Policies R W), task.PoliciesKeep Good policies
  | .base _, _ => trivial
  | .catchFailureTask task, policies => policiesKeep_of_forall h task policies
  | .catchFailureWithPolicyTask _ task, (_, policies) =>
      ⟨fun _ => h _ _, policiesKeep_of_forall h task policies⟩
  | .retryTask task, (_, policies) =>
      ⟨fun _ _ _ _ _ => h _ _, policiesKeep_of_forall h task policies⟩

/-- Goodness may be an assumption. -/
theorem policiesKeep_imp {Good : (task : Task) → R task → Prop} {keeps : Prop} {task : Task}
    {policies : task.Policies R W} (h : keeps → task.PoliciesKeep Good policies) :
    task.PoliciesKeep (fun task raw => keeps → Good task raw) policies := by
  by_cases hkeeps : keeps
  · simp only [hkeeps, forall_const]
    exact h hkeeps
  · exact policiesKeep_of_forall (fun _ _ hk => absurd hk hkeeps) task policies

/-- Every retry layer of a stack gives up after fewer than `fuel` retries. -/
def GivesUp (fuel : Nat) : (task : Task) → task.Policies R W → Prop
  | .base _, _ => True
  | .catchFailureTask task, policies => task.GivesUp fuel policies
  | .catchFailureWithPolicyTask _ task, (_, policies) => task.GivesUp fuel policies
  | .retryTask task, (policy, policies) =>
      (∃ n < fuel, policy.GivesUp n) ∧ task.GivesUp fuel policies

/-- A stack whose retry layers give up, and whose catch layers can make up a raw
result. -/
def Settles (V : Type) (fuel : Nat) : (task : Task) → task.Policies R W → Prop
  | .base _, _ => True
  | .catchFailureTask task, policies =>
      (defaultCatchFailureResult task.rawKind : Option (task.rawKind.caught.Result V)).isSome
        ∧ task.Settles V fuel policies
  | .catchFailureWithPolicyTask _ task, (_, policies) => task.Settles V fuel policies
  | .retryTask task, (policy, policies) =>
      (∃ n < fuel, policy.GivesUp n) ∧ task.Settles V fuel policies

/-- The adapters of a task that compiles settle if they give up. -/
theorem GivesUp.settles {fuel : Nat} : ∀ {task : Task} {policies : task.Policies R W},
    task.GivesUp fuel policies → task.policiesSupported → task.adaptable →
      task.usesDirectOutputProtocol = false → task.rawResultType.isReference = false →
      task.Settles V fuel policies
  | .base _, _, _, _, _, _, _ => trivial
  | .catchFailureTask task, policies, h, hsupported, hadaptable, hraw, href => by
      have hraw : task.usesDirectOutputProtocol = false := hraw
      rw [adaptable, Bool.and_eq_true, hraw, Bool.false_or] at hadaptable
      have href : task.rawResultType.isReference = false := by
        -- what a default catch supports is not a reference
        have hsupported := hadaptable.2
        cases hr : task.rawResultType <;>
          simp_all [defaultCatchSupported, CppType.isReference, CppType.isVoid, CppType.removeCv]
      exact ⟨defaultCatch_isSome hsupported href hadaptable.2,
        GivesUp.settles h hsupported hadaptable.1 hraw href⟩
  | .catchFailureWithPolicyTask _ task, (_, policies), h, hsupported, hadaptable, hraw, _ => by
      rw [policiesSupported, Bool.and_eq_true] at hsupported
      have hraw : task.usesDirectOutputProtocol = false := hraw
      rw [adaptable, Bool.and_eq_true, hraw, Bool.false_or, Bool.not_eq_true'] at hadaptable
      have hgives : task.GivesUp fuel policies := h
      exact hgives.settles hsupported.1 hadaptable.1 hraw hadaptable.2
  | .retryTask task, (_, policies), h, hsupported, hadaptable, hraw, href => by
      have hgives : task.GivesUp fuel policies := h.2
      exact ⟨h.1, hgives.settles hsupported hadaptable hraw href⟩

end Task

/-! ## §2. Attempts under adapters. -/

section Attempts

variable {R : Type} {Good : R → Prop} {requestsRetry : R → Bool} {again : M → M}
  {I Ready E H : M × W → Prop} {Tried : R → M × W → Prop} {policy : RetryPolicy W R}

/-- What adapters ask of attempts that start in `Ready`, return in `Tried` and
throw in `E`: a retry finds `Ready` again, and a good result can stand in for one
that asks for a retry, or for an exception. -/
structure Adapts (Good : R → Prop) (requestsRetry : R → Bool) (again : M → M)
    (Ready E : M × W → Prop) (Tried : R → M × W → Prop) : Prop where
  world : ∀ raw s w, Tried raw s → Tried raw (s.1, w)
  good : ∀ raw s, requestsRetry raw → Tried raw s → Good raw
  again : ∀ raw s, requestsRetry raw → Tried raw s → Ready (again s.1, s.2)
  exhausted : ∀ raw raw' s, requestsRetry raw → Tried raw s → Good raw' → Tried raw' s
  caught : ∀ raw s w, Good raw → E s → Tried raw (s.1, w)

/-- Attempts that keep an invariant and return good results. -/
theorem Adapts.of_kept (hworld : ∀ s w, I s → I (s.1, w)) (hE : ∀ s, E s → I s)
    (hagain : ∀ s, I s → I (again s.1, s.2)) :
    Adapts Good requestsRetry again I E fun raw s => I s ∧ Good raw where
  world _ s w hs := ⟨hworld s w hs.1, hs.2⟩
  good _ _ _ hs := hs.2
  again _ s _ hs := hagain s hs.1
  exhausted _ _ _ _ hs hgood := ⟨hs.1, hgood⟩
  caught _ s w hgood hs := ⟨hworld s w (hE s hs), hgood⟩

/-- Some attempt may return a result that asks for a retry. -/
def MayAsk (requestsRetry : R → Bool) (Tried : R → M × W → Prop) : Prop :=
  ∃ raw s, requestsRetry raw = true ∧ Tried raw s

theorem onWorld_outcome {α : Type} {Q : α → Prop} (hworld : ∀ s w, I s → I (s.1, w))
    {f : W → α × W} (hf : ∀ w, Q (f w).1) :
    Exec.Triple I (onWorld (M := M) f) (fun a s => I s ∧ Q a) E H :=
  .act fun s hs => ⟨hworld s _ hs, hf s.2⟩

theorem handleRetryExhausted_outcome (h : Adapts Good requestsRetry again Ready E Tried)
    (hexhausted : ∀ exhausted, policy.onExhausted = some exhausted →
      ∀ raw w, Good raw → Good (exhausted raw w).1) {raw : R} (hraw : requestsRetry raw) :
    Exec.Triple (Tried raw) (handleRetryExhausted policy raw) Tried E H := by
  unfold handleRetryExhausted
  cases hpolicy : policy.onExhausted with
  | some exhausted =>
      apply Exec.Triple.act
      intro s hs
      have hgood := hexhausted exhausted hpolicy raw s.2 (h.good raw s hraw hs)
      exact h.world _ s _ (h.exhausted raw _ s hraw hs hgood)
  | none => exact .pure fun _ hs => hs

/-- One iteration: another one follows only if it is asked for and the policy
grants it. -/
theorem retryStep_outcome (h : Adapts Good requestsRetry again Ready E Tried)
    (hexhausted : ∀ exhausted, policy.onExhausted = some exhausted →
      ∀ raw w, Good raw → Good (exhausted raw w).1)
    {invoke : Exec (M × W) R} (hinvoke : Exec.Triple Ready invoke Tried E H) (retryCount : Nat) :
    Exec.Triple Ready (retryStep policy requestsRetry again invoke retryCount)
      (Sum.elim
        (fun next s => Ready s ∧ next = nextRetryCount retryCount
          ∧ (∃ w, (policy.shouldRetry retryCount w).1 = true) ∧ MayAsk requestsRetry Tried)
        Tried) E H := by
  unfold retryStep
  apply hinvoke.bind
  intro raw
  cases hraw : requestsRetry raw with
  | false =>
      rw [Bool.not_false, if_pos rfl]
      exact .pure fun _ hs => hs
  | true =>
      rw [Bool.not_true, if_neg Bool.false_ne_true]
      have hpolicy : Exec.Triple (Tried raw) (onWorld (policy.shouldRetry retryCount))
          (fun retries s => Tried raw s ∧ ∃ w, (policy.shouldRetry retryCount w).1 = retries)
          E H :=
        .act fun s hs => ⟨h.world raw s _ hs, s.2, rfl⟩
      apply hpolicy.bind
      intro retries
      cases retries with
      | false =>
          -- the policy denies it
          rw [Bool.not_false, if_pos rfl]
          apply ((handleRetryExhausted_outcome h hexhausted hraw).pre fun _ hs => hs.1).bind
          exact fun raw => .pure fun _ hs => hs
      | true =>
          rw [Bool.not_true, if_neg Bool.false_ne_true]
          have hmodify : Exec.Triple
              (fun s => Tried raw s ∧ ∃ w, (policy.shouldRetry retryCount w).1 = true)
              (Exec.modify fun s => (again s.1, s.2))
              (fun _ s => Ready s ∧ (∃ w, (policy.shouldRetry retryCount w).1 = true)
                ∧ MayAsk requestsRetry Tried) E H :=
            .modify fun s hs => ⟨h.again raw s hraw hs.1, hs.2, raw, s, hraw, hs.1⟩
          apply hmodify.bind
          intro _
          exact .pure fun _ hs => ⟨hs.1, rfl, hs.2⟩

/-- **The loop.**  It halts by itself only if its policy need not give up, and
then not before an attempt has asked for a retry. -/
theorem retryLoop_outcome (h : Adapts Good requestsRetry again Ready E Tried)
    (hexhausted : ∀ exhausted, policy.onExhausted = some exhausted →
      ∀ raw w, Good raw → Good (exhausted raw w).1)
    {fuel : Nat} (hfuel : (∃ n < fuel, policy.GivesUp n)
      ∨ (fuel = 0 ∨ MayAsk requestsRetry Tried → ∀ s, Ready s → H s))
    {invoke : Exec (M × W) R} (hinvoke : Exec.Triple Ready invoke Tried E H) :
    Exec.Triple Ready (retryLoop policy requestsRetry again invoke fuel) Tried E H := by
  rw [retryLoop_eq]
  have hstep := retryStep_outcome h hexhausted hinvoke
  rcases hfuel with ⟨n, hn, hgives⟩ | hhalts
  · -- the retries left to grant are the rank
    have hranked : ∀ k, Exec.Triple (fun s => Ready s ∧ k ≤ n)
        (retryStep policy requestsRetry again invoke k)
        (Sum.elim (fun k' s => (Ready s ∧ k' ≤ n) ∧ n - k' < n - k) Tried) E H := by
      intro k
      by_cases hk : k ≤ n
      · apply ((hstep k).pre fun s (hs : Ready s ∧ k ≤ n) => hs.1).post
        rintro (k' | raw) s hs
        · obtain ⟨hinv, rfl, ⟨w, hgranted⟩, -⟩ := hs
          have hlt : k < n := by
            by_contra hnot
            rw [hgives.denies k w (Nat.not_lt.mp hnot)] at hgranted
            cases hgranted
          -- the count does not wrap
          have hnext : nextRetryCount k = k + 1 := by
            have hsize := hgives.size
            unfold nextRetryCount
            omega
          show (Ready s ∧ nextRetryCount k ≤ n) ∧ n - nextRetryCount k < n - k
          rw [hnext]
          exact ⟨⟨hinv, hlt⟩, by omega⟩
        · exact hs
      · exact .of_ends fun s hs => absurd hs.2 hk
    exact (Exec.Triple.iterate_ranked hranked fuel 0 (by omega)).pre fun s hs => ⟨hs, Nat.zero_le n⟩
  · by_cases hasks : fuel = 0 ∨ MayAsk requestsRetry Tried
    · apply Exec.Triple.iterate (I := fun _ => Ready)
      · intro k
        apply (hstep k).post
        rintro (k' | raw) s hs
        · exact hs.1
        · exact hs
      · exact fun _ => hhalts hasks
    · -- the first attempt is the last
      obtain ⟨n, rfl⟩ : ∃ n, fuel = n + 1 :=
        Nat.exists_eq_succ_of_ne_zero fun hzero => hasks (Or.inl hzero)
      rw [Exec.iterate_succ]
      apply (hstep 0).bind
      rintro (k' | raw)
      · exact .of_ends fun s hs => absurd (Or.inr hs.2.2.2) hasks
      · exact .pure fun _ hs => hs

end Attempts

/-! ## §3. Adapter stacks. -/

section Stacks

variable {I Ready E H : M × W → Prop}

/-- **Through `invoke_raw`.**  A stack halts by itself only if it need not
settle: where a retry is asked for, or an exception caught. -/
theorem invokeRaw_adapts {Good : (kind : RawKind) → kind.Result V → Prop}
    {Tried : (kind : RawKind) → kind.Result V → M × W → Prop}
    (h : ∀ kind, Adapts (Good kind) (rawResultRequestsRetry kind) id Ready E (Tried kind))
    (hcaught : ∀ kind raw s, Tried kind raw s → Tried kind.caught (caughtReturn kind raw) s)
    (hdefault : ∀ kind raw, defaultCatchFailureResult kind = some raw → Good kind.caught raw)
    (fuel : Nat) :
    ∀ (task : Task) (policies : task.Policies (fun task => task.rawKind.Result V) W)
      {attempt : Exec (M × W) (task.bound.rawResultType.rawKind.Result V)},
      task.PoliciesKeep (fun task => Good task.rawKind) policies →
      (task.Settles V fuel policies ∨ (∀ s, E s → H s)
        ∧ (fuel = 0 ∨ (∃ kind, MayAsk (rawResultRequestsRetry kind) (Tried kind)) →
            ∀ s, Ready s → H s)) →
      Exec.Triple Ready attempt (Tried _) E H →
      Exec.Triple Ready (invokeRaw fuel task policies attempt) (Tried task.rawKind)
        (fun s => E s ∧ task.catches = false) H
  | .base _, _, _, _, _, hattempt => hattempt.conseq (fun _ => id) (fun _ _ => id)
      (fun _ hs => ⟨hs, rfl⟩) fun _ => id
  | .catchFailureTask task, policies, _, hkeep, hsettles, hattempt => by
      have hinner := invokeRaw_adapts h hcaught hdefault fuel task policies hkeep
        (hsettles.imp_left And.right) hattempt
      unfold invokeRaw
      apply Exec.Triple.catchAll
      · apply hinner.bind
        exact fun raw => .pure fun s hs => hcaught _ raw s hs
      · apply Exec.Triple.ofOption
        · exact fun raw hraw s hs => (h _).caught raw s s.2 (hdefault _ raw hraw) hs.1
        · intro hnone s hs
          rcases hsettles with hsettles | hhalts
          · have hsome := hsettles.1
            rw [hnone] at hsome
            cases hsome
          · exact hhalts.1 s hs.1
  | .catchFailureWithPolicyTask _ task, (policy, policies), _, hkeep, hsettles, hattempt => by
      have hinner := invokeRaw_adapts h hcaught hdefault fuel task policies hkeep.2 hsettles
        hattempt
      apply Exec.Triple.catchAll
      · apply hinner.bind
        exact fun raw => .pure fun s hs => hcaught _ raw s hs
      · exact .act fun s hs => (h _).caught _ s _ (hkeep.1 s.2) hs.1
  | .retryTask task, (policy, policies), _, hkeep, hsettles, hattempt => by
      have hinner := invokeRaw_adapts h hcaught hdefault fuel task policies hkeep.2
        (hsettles.imp_left And.right) hattempt
      show Exec.Triple Ready (retryInvokeRaw task.rawKind policy _ fuel) _ _ H
      unfold retryInvokeRaw
      have hadapts : Adapts (Good task.rawKind) (rawResultRequestsRetry task.rawKind) id Ready
          (fun s => E s ∧ task.catches = false) (Tried task.rawKind) :=
        { h task.rawKind with caught := fun raw s w hgood hs => (h _).caught raw s w hgood hs.1 }
      split
      · apply retryLoop_outcome hadapts hkeep.1 _ hinner
        exact hsettles.imp And.left fun hhalts hasks =>
          hhalts.2 (hasks.imp_right fun hask => ⟨_, hask⟩)
      · exact hinner

/-- **Through `invoke_into`.** -/
theorem invokeInto_adapts {Good : StepResult → Prop} {Tried : StepResult → M × W → Prop}
    {cleanUp : M → M} (hfailure : Good .failure)
    (h : Adapts Good (fun step => step.status == .retry) cleanUp Ready E Tried) (fuel : Nat)
    {attempt : Exec (M × W) StepResult} (hattempt : Exec.Triple Ready attempt Tried E H) :
    ∀ (task : Task) (policies : task.Policies (fun _ => StepResult) W),
      task.PoliciesKeep (fun _ => Good) policies →
      (task.GivesUp fuel policies
        ∨ (fuel = 0 ∨ MayAsk (fun step : StepResult => step.status == .retry) Tried →
            ∀ s, Ready s → H s)) →
      Exec.Triple Ready (invokeInto fuel cleanUp attempt task policies) Tried
        (fun s => E s ∧ task.catches = false) H
  | .base _, _, _, _ => hattempt.conseq (fun _ => id) (fun _ _ => id) (fun _ hs => ⟨hs, rfl⟩)
      fun _ => id
  | .catchFailureTask task, policies, hkeep, hgives =>
      (invokeInto_adapts hfailure h fuel hattempt task policies hkeep hgives).catchAll
        (.pure fun s hs => h.caught _ s s.2 hfailure hs.1)
  | .catchFailureWithPolicyTask _ task, (_, policies), hkeep, hgives =>
      (invokeInto_adapts hfailure h fuel hattempt task policies hkeep.2 hgives).catchAll
        (.act fun s hs => h.caught _ s _ (hkeep.1 s.2) hs.1)
  | .retryTask task, (_, policies), hkeep, hgives => by
      have hinner := invokeInto_adapts hfailure h fuel hattempt task policies hkeep.2
        (hgives.imp_left And.right)
      refine retryLoop_outcome ?_ hkeep.1 (hgives.imp_left And.left) hinner
      exact { h with caught := fun raw s w hgood hs => h.caught raw s w hgood hs.1 }

/-- `invoke_raw` on attempts that keep an invariant and return good results. -/
theorem invokeRaw_outcome {Good : (kind : RawKind) → kind.Result V → Prop}
    (hcaught : ∀ kind raw, Good kind raw → Good kind.caught (caughtReturn kind raw))
    (hdefault : ∀ kind raw, defaultCatchFailureResult kind = some raw → Good kind.caught raw)
    (hworld : ∀ s w, I s → I (s.1, w)) (hE : ∀ s, E s → I s) (fuel : Nat) (task : Task)
    (policies : task.Policies (fun task => task.rawKind.Result V) W)
    {attempt : Exec (M × W) (task.bound.rawResultType.rawKind.Result V)}
    (hkeep : task.PoliciesKeep (fun task => Good task.rawKind) policies)
    (hsettles : task.Settles V fuel policies ∨ ∀ s, I s → H s)
    (h : Exec.Triple I attempt (fun raw s => I s ∧ Good _ raw) E H) :
    Exec.Triple I (invokeRaw fuel task policies attempt)
      (fun raw s => I s ∧ Good task.rawKind raw) (fun s => E s ∧ task.catches = false) H :=
  invokeRaw_adapts (fun _ => .of_kept hworld hE fun _ => id)
    (fun kind raw _ hs => ⟨hs.1, hcaught kind raw hs.2⟩) hdefault fuel task policies hkeep
    (hsettles.imp_right fun hhalts => ⟨fun s hs => hhalts s (hE s hs), fun _ => hhalts⟩) h

/-- `invoke_into` on attempts that keep an invariant and return good results. -/
theorem invokeInto_outcome {Good : StepResult → Prop} (hfailure : Good .failure)
    (hworld : ∀ s w, I s → I (s.1, w)) (hE : ∀ s, E s → I s) (fuel : Nat) {cleanUp : M → M}
    (hclean : ∀ s, I s → I (cleanUp s.1, s.2)) {attempt : Exec (M × W) StepResult}
    (h : Exec.Triple I attempt (fun step s => I s ∧ Good step) E H) (task : Task)
    (policies : task.Policies (fun _ => StepResult) W)
    (hkeep : task.PoliciesKeep (fun _ => Good) policies)
    (hgives : task.GivesUp fuel policies ∨ ∀ s, I s → H s) :
    Exec.Triple I (invokeInto fuel cleanUp attempt task policies)
      (fun step s => I s ∧ Good step) (fun s => E s ∧ task.catches = false) H :=
  invokeInto_adapts hfailure (.of_kept hworld hE hclean) fuel h task policies hkeep
    (hgives.imp_right fun hhalts _ => hhalts)

end Stacks

end YOrch
