/-
  YOrch.Executor.Triples — what a machine keeps during a run.

  `NodeTriple`, `EnterTriple` and `RunTriple` say of predicates on one machine
  what `NodeSim`, `EnterSim` and `RunSim` say of relations between two.  A
  predicate is a relation between equal machines, so their rules are theirs.

    • `RunTriple.runPlan` — what a machine keeps through a whole run,
    • `RunTriple.log` — the same for a predicate on the log.
-/
import YOrch.Executor.Simulation

namespace YOrch

open Library

variable {V W S : Type}

/-! ## §1. Entering a node. -/

/-- What predicates have to withstand while node `i`'s task is executed. -/
structure NodeTriple (api : SlotsApi V S) (p : Program V W) (i : Nat)
    (Inv : Phase V W → Machine S V × W → Prop) (H : Machine S V × W → Prop) : Prop where
  world : ∀ phase s w, Inv phase s → Inv phase (s.1, w)
  halts : ∀ phase s, Inv phase s → H s
  violate : ∀ phase violation s, (∀ j, violation ≠ .emplaceOverLive j) → Inv phase s →
    H (s.1.violate violation, s.2)
  attempt : ∀ s, Inv .ready s →
    Inv (.evaluating (p.behaviour i).evaluated) (beginAttempt api p i s.1, s.2)
  abandon : ∀ rest s, Inv (.evaluating rest) s → Inv .tried s
  skip : ∀ binding rest s, binding.1.isPrevAccess = false →
    Inv (.evaluating (binding :: rest)) s → Inv (.evaluating rest) s
  resolve : ∀ binding rest s source v arg left w, binding.1.isPrevAccess →
    Inv (.evaluating (binding :: rest)) s → p.plan.prevSource i = some source →
    readPrev api p i s.1 = some v → p.resolvePrev binding v s.2 = (arg, left, w) →
    Inv (.evaluating rest) (resolveStep api p i binding source arg left s.1, w)
  write : ∀ written s, (p.plan.task i).usesDirectOutputProtocol = false →
    Inv (.evaluating []) s → Inv .tried (writeBack api p i written s.1, s.2)
  sink : ∀ args w s, (p.plan.task i).usesDirectOutputProtocol → Inv (.evaluating []) s →
    Inv (.sinking ((p.behaviour i).sinkBody args w)) s
  sinkHasValue : ∀ next s, Inv (.sinking (.hasValue next)) s →
    Inv (.sinking (next (api.outHasValue i s.1.slots))) s
  sinkEmplace : ∀ payload next s, Inv (.sinking (.emplace payload next)) s →
    (api.outHasValue i s.1.slots = false →
      Inv (.sinking next) (emplaceSink api i payload s.1, s.2))
      ∧ (api.outHasValue i s.1.slots = true → Inv (.sinking next)
            (emplaceSink api i payload (s.1.violate (.emplaceOverLive i)), s.2)
          ∧ H (s.1.violate (.emplaceOverLive i), s.2))
  sinkDestroy : ∀ next s, Inv (.sinking (.destroy next)) s →
    Inv (.sinking next) (s.1.onSlots (api.outDestroy i), s.2)
  sinkFinish : ∀ exit written world s, Inv (.sinking (.finish exit written world)) s →
    Inv .tried (writeBack api p i written s.1, s.2)
  again : ∀ s, (p.plan.task i).usesDirectOutputProtocol = false →
    (p.plan.task i).retryLayers ≠ 0 → Inv .tried s → Inv .ready s
  cleanUp : ∀ s, (p.plan.task i).usesDirectOutputProtocol →
    (p.plan.task i).retryLayers ≠ 0 → Inv .tried s → Inv .ready (cleanUpSink api i s.1, s.2)

/-- What predicates have to withstand while node `i` is entered. -/
structure EnterTriple (api : SlotsApi V S) (p : Program V W) (i : Nat)
    (Before Entered Left : Machine S V × W → Prop) (Inv : Phase V W → Machine S V × W → Prop)
    (H : Machine S V × W → Prop) : Prop extends NodeTriple api p i Inv H where
  enter : ∀ s, Before s → Inv .ready (s.1.record (.entered i (readPrev api p i s.1)), s.2)
  finish : ∀ s, (p.plan.task i).usesDirectOutputProtocol → Inv .tried s →
    api.hasValue i s.1.slots = true → Entered (finishNode api p i s.1, s.2)
  finishMissing : ∀ s, (p.plan.task i).usesDirectOutputProtocol → Inv .tried s →
    api.hasValue i s.1.slots = false →
    Entered (finishNode api p i (s.1.violate (.missingOutput i)), s.2)
  failInto : ∀ s, (p.plan.task i).usesDirectOutputProtocol → Inv .tried s →
    Left (s.1.onSlots (api.destroy i), s.2)
  store : ∀ v s, (p.plan.task i).usesDirectOutputProtocol = false → p.plan.payloadNode i →
    Inv .tried s → Entered (finishNode api p i (s.1.onSlots (api.emplace i v)), s.2)
  pass : ∀ s, (p.plan.task i).usesDirectOutputProtocol = false →
    p.plan.payloadNode i = false → Inv .tried s → Entered (finishNode api p i s.1, s.2)
  fail : ∀ s, (p.plan.task i).usesDirectOutputProtocol = false → Inv .tried s → Left s

section Triples

variable {api : SlotsApi V S} {p : Program V W} {i : Nat}
  {Before Entered Left : Machine S V × W → Prop} {Inv : Phase V W → Machine S V × W → Prop}
  {H : Machine S V × W → Prop}

theorem NodeTriple.sim (h : NodeTriple api p i Inv H) :
    NodeSim api api p i (fun phase => Exec.Diag (Inv phase)) (Exec.Diag H) where
  world phase s t hst := by
    obtain ⟨rfl, hs⟩ := hst
    exact ⟨rfl, fun w => ⟨rfl, h.world phase s w hs⟩⟩
  halts phase s t hst := ⟨hst.1, h.halts phase _ hst.2⟩
  violate phase violation s t hne hst := by
    obtain ⟨rfl, hs⟩ := hst
    exact ⟨rfl, h.violate phase violation s hne hs⟩
  attempt s t hst := by
    obtain ⟨rfl, hs⟩ := hst
    exact ⟨rfl, h.attempt s hs⟩
  abandon rest s t hst := ⟨hst.1, h.abandon rest _ hst.2⟩
  skip binding rest s t hprev hst := ⟨hst.1, h.skip binding rest _ hprev hst.2⟩
  read binding rest s t _ hst := by rw [hst.1]
  resolve binding rest s t source v arg left w hprev hst hsource hread harg := by
    obtain ⟨rfl, hs⟩ := hst
    exact ⟨rfl, h.resolve binding rest s source v arg left w hprev hs hsource hread harg⟩
  write written s t hraw hst := by
    obtain ⟨rfl, hs⟩ := hst
    exact ⟨rfl, h.write written s hraw hs⟩
  sink args w s t hinto hst := ⟨hst.1, h.sink args w s hinto hst.2⟩
  sinkHasValue next s t hst := by
    obtain ⟨rfl, hs⟩ := hst
    exact ⟨rfl, rfl, h.sinkHasValue next s hs⟩
  sinkEmplace payload next s t hst := by
    obtain ⟨rfl, hs⟩ := hst
    obtain ⟨hempty, hlive⟩ := h.sinkEmplace payload next s hs
    exact ⟨rfl, fun ho => ⟨rfl, hempty ho⟩, fun ho => ⟨⟨rfl, (hlive ho).1⟩, rfl, (hlive ho).2⟩⟩
  sinkDestroy next s t hst := by
    obtain ⟨rfl, hs⟩ := hst
    exact ⟨rfl, h.sinkDestroy next s hs⟩
  sinkFinish exit written world s t hst := by
    obtain ⟨rfl, hs⟩ := hst
    exact ⟨rfl, h.sinkFinish exit written world s hs⟩
  again s t hraw hretry hst := ⟨hst.1, h.again _ hraw hretry hst.2⟩
  cleanUp s t hinto hretry hst := by
    obtain ⟨rfl, hs⟩ := hst
    exact ⟨rfl, h.cleanUp s hinto hretry hs⟩

theorem EnterTriple.sim (h : EnterTriple api p i Before Entered Left Inv H) :
    EnterSim api api p i (Exec.Diag Before) (Exec.Diag Entered) (Exec.Diag Left)
      (fun phase => Exec.Diag (Inv phase)) (Exec.Diag H) where
  toNodeSim := h.toNodeTriple.sim
  enter s t hst := by
    obtain ⟨rfl, hs⟩ := hst
    exact ⟨rfl, h.enter s hs⟩
  hasValue s t _ hst := by rw [hst.1]
  finish s t hinto hst hlive := by
    obtain ⟨rfl, hs⟩ := hst
    exact ⟨rfl, h.finish s hinto hs hlive⟩
  finishMissing s t hinto hst hlive := by
    obtain ⟨rfl, hs⟩ := hst
    exact ⟨rfl, h.finishMissing s hinto hs hlive⟩
  failInto s t hinto hst := by
    obtain ⟨rfl, hs⟩ := hst
    exact ⟨rfl, h.failInto s hinto hs⟩
  store v s t hraw hpayload hst := by
    obtain ⟨rfl, hs⟩ := hst
    exact ⟨rfl, h.store v s hraw hpayload hs⟩
  pass s t hraw hpayload hst := by
    obtain ⟨rfl, hs⟩ := hst
    exact ⟨rfl, h.pass s hraw hpayload hs⟩
  fail s t hraw hst := ⟨hst.1, h.fail _ hraw hst.2⟩

/-- **Entering a node.** -/
theorem EnterTriple.enterNode (h : EnterTriple api p i Before Entered Left Inv H)
    (hi : i < p.plan.nodeCount) (fuel : Nat) :
    Exec.Triple Before (enterNode api p fuel i)
      (fun entered s =>
        if entered.step.ok then entered.payloadLive = p.plan.payloadNode i ∧ Entered s else Left s)
      Left H := by
  apply Exec.Sim.post (h.sim.enterNode_sim hi fuel)
  intro entered s t hst
  unfold EnterSim.Outcome at hst
  cases hok : entered.step.ok with
  | true =>
      rw [if_pos hok] at hst
      exact ⟨hst.2.1, by simpa only [hok, if_true] using ⟨hst.1, hst.2.2⟩⟩
  | false =>
      rw [if_neg (by simp [hok])] at hst
      exact ⟨hst.1, by simpa only [hok, Bool.false_eq_true, if_false] using hst.2⟩

/-- **Staging a fanout**, whose payload may be missing. -/
theorem stageFanout_missing {Staged : Machine S V × W → Prop}
    (hworld : ∀ s w, Before s → Before (s.1, w))
    (hmissing : ∀ s, Before s → api.get i s.1.slots = none →
      H (s.1.violate (.missingSource i), s.2))
    (hstage : ∀ s v w v', Before s → api.get i s.1.slots = some v → (p.copy w v).1 = some v' →
      Staged (s.1.emplaceStage i v', s.2)) :
    Exec.Triple Before (stageFanout api p i) (fun _ => Staged) Before H := by
  unfold stageFanout
  have hlook : Exec.Triple Before (look fun m => api.get i m.slots)
      (fun found s => Before s ∧ api.get i s.1.slots = found) Before H :=
    .reads fun s hs => ⟨hs, rfl⟩
  apply hlook.bind
  intro found
  cases found with
  | none =>
      have hviolate : Exec.Triple (fun s => Before s ∧ api.get i s.1.slots = none)
          (onMachine fun m : Machine S V => m.violate (.missingSource i)) (fun _ => H) Before H :=
        .modify fun s hs => hmissing s hs.1 hs.2
      exact hviolate.bind fun _ => .halt fun _ hs => hs
  | some v =>
      have hcopy : Exec.Triple (fun s => Before s ∧ api.get i s.1.slots = some v)
          (onWorld fun w => p.copy w v)
          (fun copied s => (Before s ∧ api.get i s.1.slots = some v) ∧ ∃ w, (p.copy w v).1 = copied)
          Before H :=
        .act fun s hs => ⟨⟨hworld s _ hs.1, hs.2⟩, s.2, rfl⟩
      apply hcopy.bind
      intro copied
      cases copied with
      | none => exact .throw fun _ hs => hs.1.1
      | some v' =>
          apply Exec.Triple.modify
          intro s hs
          obtain ⟨⟨hbefore, hget⟩, w, hw⟩ := hs
          exact hstage s v w v' hbefore hget hw

/-- **Staging a fanout.** -/
theorem stageFanout_triple {Staged : Machine S V × W → Prop}
    (hworld : ∀ s w, Before s → Before (s.1, w))
    (hmissing : ∀ s, Before s → H (s.1.violate (.missingSource i), s.2))
    (hstage : ∀ s v w v', Before s → api.get i s.1.slots = some v → (p.copy w v).1 = some v' →
      Staged (s.1.emplaceStage i v', s.2)) :
    Exec.Triple Before (stageFanout api p i) (fun _ => Staged) Before H :=
  stageFanout_missing hworld (fun s hs _ => hmissing s hs) hstage

end Triples

/-! ## §2. Runs. -/

/-- What predicates have to withstand during a traversal. -/
structure RunTriple {σ : Type} (plan : PlanShape) (payload : Nat → Bool) (ops : DfsOps σ)
    (Open Entered : List Nat → Nat → σ → Prop) (Abandoned H : σ → Prop) : Prop where
  enter : ∀ i < plan.nodeCount, Exec.Triple (Open (plan.path i).tail i) (ops.enterNode i)
    (fun entered s =>
      if entered.step.ok then
        entered.payloadLive = payload i ∧ Entered (plan.path i) (i + 1) s
      else Open (plan.path i).tail (i + 1) s)
    (Open (plan.path i).tail (i + 1)) H
  stage : ∀ i < plan.nodeCount, ops.requiresStaging i →
    Exec.Triple (Entered (plan.path i) (i + 1)) (ops.stage i)
      (fun _ => Open (plan.path i) (i + 1)) (Entered (plan.path i) (i + 1)) H
  unstaged : ∀ i < plan.nodeCount, ops.requiresStaging i = false → ∀ n s,
    Entered (plan.path i) n s ↔ Open (plan.path i) n s
  unstage : ∀ i < plan.nodeCount, ops.requiresStaging i → ∀ n s, Open (plan.path i) n s →
    Entered (plan.path i) n (ops.unstage i s)
  destroy : ∀ i < plan.nodeCount, payload i → ∀ n s, Entered (plan.path i) n s →
    Open (plan.path i).tail n (ops.destroyPayload i s)
  leave : ∀ i < plan.nodeCount, payload i = false → ∀ n s, Entered (plan.path i) n s →
    Open (plan.path i).tail n s
  later : ∀ P n m s, n ≤ m → Open P n s → Open P m s
  laterEntered : ∀ P n m s, n ≤ m → Entered P n s → Entered P m s
  abandon : ∀ P n s, Open P n s → Abandoned s
  abandonEntered : ∀ P n s, Entered P n s → Abandoned s

theorem RunTriple.sim {σ : Type} {plan : PlanShape} {payload : Nat → Bool} {ops : DfsOps σ}
    {Open Entered : List Nat → Nat → σ → Prop} {Abandoned H : σ → Prop}
    (h : RunTriple plan payload ops Open Entered Abandoned H) :
    RunSim plan payload ops ops (fun P n => Exec.Diag (Open P n))
      (fun P n => Exec.Diag (Entered P n)) (Exec.Diag Abandoned) (Exec.Diag H) where
  staging := rfl
  enter i hi := by
    apply Exec.Sim.post (h.enter i hi)
    intro entered s t hst
    obtain ⟨rfl, hs⟩ := hst
    cases hok : entered.step.ok with
    | true =>
        simp only [hok, if_true] at hs ⊢
        exact ⟨hs.1, rfl, hs.2⟩
    | false =>
        simp only [hok, Bool.false_eq_true, if_false] at hs ⊢
        exact ⟨rfl, hs⟩
  stage i hi hstaging := h.stage i hi hstaging
  unstaged i hi hstaging n s t := and_congr_right fun _ => h.unstaged i hi hstaging n s
  unstage i hi hstaging n s t hst := by
    obtain ⟨rfl, hs⟩ := hst
    exact ⟨rfl, h.unstage i hi hstaging n s hs⟩
  destroy i hi hpayload n s t hst := by
    obtain ⟨rfl, hs⟩ := hst
    exact ⟨rfl, h.destroy i hi hpayload n s hs⟩
  leave i hi hpayload n s t hst := ⟨hst.1, h.leave i hi hpayload n s hst.2⟩
  later P n m s t hnm hst := ⟨hst.1, h.later P n m s hnm hst.2⟩
  laterEntered P n m s t hnm hst := ⟨hst.1, h.laterEntered P n m s hnm hst.2⟩
  abandon P n s t hst := ⟨hst.1, h.abandon P n s hst.2⟩
  abandonEntered P n s t hst := ⟨hst.1, h.abandonEntered P n s hst.2⟩

/-- Both of two families of predicates. -/
theorem RunTriple.and {σ : Type} {plan : PlanShape} {payload : Nat → Bool} {ops : DfsOps σ}
    {Open Entered Open' Entered' : List Nat → Nat → σ → Prop} {Abandoned H Abandoned' H' : σ → Prop}
    (h : RunTriple plan payload ops Open Entered Abandoned H)
    (h' : RunTriple plan payload ops Open' Entered' Abandoned' H') :
    RunTriple plan payload ops (fun P n s => Open P n s ∧ Open' P n s)
      (fun P n s => Entered P n s ∧ Entered' P n s) (fun s => Abandoned s ∧ Abandoned' s)
      (fun s => H s ∧ H' s) where
  enter i hi := by
    apply ((h.enter i hi).and (h'.enter i hi)).post
    intro entered s hs
    cases hok : entered.step.ok with
    | true =>
        simp only [hok, if_true] at hs ⊢
        exact ⟨hs.1.1, hs.1.2, hs.2.2⟩
    | false =>
        simp only [hok, Bool.false_eq_true, if_false] at hs ⊢
        exact hs
  stage i hi hstaging := (h.stage i hi hstaging).and (h'.stage i hi hstaging)
  unstaged i hi hstaging n s :=
    and_congr (h.unstaged i hi hstaging n s) (h'.unstaged i hi hstaging n s)
  unstage i hi hstaging n s hs :=
    ⟨h.unstage i hi hstaging n s hs.1, h'.unstage i hi hstaging n s hs.2⟩
  destroy i hi hpayload n s hs :=
    ⟨h.destroy i hi hpayload n s hs.1, h'.destroy i hi hpayload n s hs.2⟩
  leave i hi hpayload n s hs := ⟨h.leave i hi hpayload n s hs.1, h'.leave i hi hpayload n s hs.2⟩
  later P n m s hnm hs := ⟨h.later P n m s hnm hs.1, h'.later P n m s hnm hs.2⟩
  laterEntered P n m s hnm hs :=
    ⟨h.laterEntered P n m s hnm hs.1, h'.laterEntered P n m s hnm hs.2⟩
  abandon P n s hs := ⟨h.abandon P n s hs.1, h'.abandon P n s hs.2⟩
  abandonEntered P n s hs := ⟨h.abandonEntered P n s hs.1, h'.abandonEntered P n s hs.2⟩

/-- What a simulation says of its second machine alone. -/
theorem RunSim.right {σ τ : Type} {plan : PlanShape} {payload : Nat → Bool} {ops : DfsOps σ}
    {ops' : DfsOps τ} {Open Entered : List Nat → Nat → σ → τ → Prop} {Abandoned H : σ → τ → Prop}
    (h : RunSim plan payload ops ops' Open Entered Abandoned H) :
    RunTriple plan payload ops' (fun P n t => ∃ s, Open P n s t) (fun P n t => ∃ s, Entered P n s t)
      (fun t => ∃ s, Abandoned s t) (fun t => ∃ s, H s t) where
  enter i hi := by
    apply (Exec.Triple.of_sim (h.enter i hi)).post
    intro entered t ht
    obtain ⟨s, hst⟩ := ht
    cases hok : entered.step.ok with
    | true =>
        simp only [hok, if_true] at hst ⊢
        exact ⟨hst.1, s, hst.2⟩
    | false =>
        simp only [hok, Bool.false_eq_true, if_false] at hst ⊢
        exact ⟨s, hst⟩
  stage i hi hstaging := Exec.Triple.of_sim (h.stage i hi (h.staging.symm ▸ hstaging))
  unstaged i hi hstaging n t :=
    exists_congr fun s => h.unstaged i hi (h.staging.symm ▸ hstaging) n s t
  unstage i hi hstaging n t ht := by
    obtain ⟨s, hst⟩ := ht
    exact ⟨_, h.unstage i hi (h.staging.symm ▸ hstaging) n s t hst⟩
  destroy i hi hpayload n t ht := by
    obtain ⟨s, hst⟩ := ht
    exact ⟨_, h.destroy i hi hpayload n s t hst⟩
  leave i hi hpayload n t ht := by
    obtain ⟨s, hst⟩ := ht
    exact ⟨s, h.leave i hi hpayload n s t hst⟩
  later P n m t hnm ht := by
    obtain ⟨s, hst⟩ := ht
    exact ⟨s, h.later P n m s t hnm hst⟩
  laterEntered P n m t hnm ht := by
    obtain ⟨s, hst⟩ := ht
    exact ⟨s, h.laterEntered P n m s t hnm hst⟩
  abandon P n t ht := by
    obtain ⟨s, hst⟩ := ht
    exact ⟨s, h.abandon P n s t hst⟩
  abandonEntered P n t ht := by
    obtain ⟨s, hst⟩ := ht
    exact ⟨s, h.abandonEntered P n s t hst⟩

/-- What a machine keeps, a machine that simulates it keeps in that sense. -/
theorem RunTriple.pull {σ τ : Type} {plan : PlanShape} {payload : Nat → Bool} {ops : DfsOps σ}
    {ops' : DfsOps τ} {Open Entered : List Nat → Nat → τ → Prop} {Abandoned H : τ → Prop}
    {OpenR EnteredR : List Nat → Nat → σ → τ → Prop} {AbandonedR HR : σ → τ → Prop}
    (h : RunTriple plan payload ops' Open Entered Abandoned H)
    (hsim : RunSim plan payload ops ops' OpenR EnteredR AbandonedR HR) :
    RunTriple plan payload ops (fun P n s => ∃ t, OpenR P n s t ∧ Open P n t)
      (fun P n s => ∃ t, EnteredR P n s t ∧ Entered P n t)
      (fun s => ∃ t, AbandonedR s t ∧ Abandoned t) (fun s => ∃ t, HR s t ∧ H t) where
  -- only a node that succeeded leads on, on either side
  enter i hi := by
    apply ((h.enter i hi).pull (hsim.enter i hi)).post
    intro entered s hs
    obtain ⟨t, hst, ht⟩ := hs
    cases hok : entered.step.ok with
    | true =>
        simp only [hok, if_true] at hst ht ⊢
        exact ⟨hst.1, t, hst.2, ht.2⟩
    | false =>
        simp only [hok, Bool.false_eq_true, if_false] at hst ht ⊢
        exact ⟨t, hst, ht⟩
  stage i hi hstaging := (h.stage i hi (hsim.staging ▸ hstaging)).pull (hsim.stage i hi hstaging)
  unstaged i hi hstaging n s :=
    exists_congr fun t => and_congr (hsim.unstaged i hi hstaging n s t)
      (h.unstaged i hi (hsim.staging ▸ hstaging) n t)
  unstage i hi hstaging n s hs := by
    obtain ⟨t, hst, ht⟩ := hs
    exact ⟨_, hsim.unstage i hi hstaging n s t hst,
      h.unstage i hi (hsim.staging ▸ hstaging) n t ht⟩
  destroy i hi hpayload n s hs := by
    obtain ⟨t, hst, ht⟩ := hs
    exact ⟨_, hsim.destroy i hi hpayload n s t hst, h.destroy i hi hpayload n t ht⟩
  leave i hi hpayload n s hs := by
    obtain ⟨t, hst, ht⟩ := hs
    exact ⟨t, hsim.leave i hi hpayload n s t hst, h.leave i hi hpayload n t ht⟩
  later P n m s hnm hs := by
    obtain ⟨t, hst, ht⟩ := hs
    exact ⟨t, hsim.later P n m s t hnm hst, h.later P n m t hnm ht⟩
  laterEntered P n m s hnm hs := by
    obtain ⟨t, hst, ht⟩ := hs
    exact ⟨t, hsim.laterEntered P n m s t hnm hst, h.laterEntered P n m t hnm ht⟩
  abandon P n s hs := by
    obtain ⟨t, hst, ht⟩ := hs
    exact ⟨t, hsim.abandon P n s t hst, h.abandon P n t ht⟩
  abandonEntered P n s hs := by
    obtain ⟨t, hst, ht⟩ := hs
    exact ⟨t, hsim.abandonEntered P n s t hst, h.abandonEntered P n t ht⟩

/-- **A whole run.** -/
theorem RunTriple.runPlan {api : SlotsApi V S} {p : Program V W} {fuel : Nat}
    {payload : Nat → Bool} {Open Entered : List Nat → Nat → Machine S V × W → Prop}
    {Abandoned Done Gone H : Machine S V × W → Prop}
    (h : RunTriple p.plan.toPlanShape payload (nodeOps api p fuel) Open Entered Abandoned H)
    (hdone : ∀ s, Open [] p.plan.nodeCount s → Done (leaveRun api p s.1, s.2))
    (hgone : ∀ s, Abandoned s → Gone (leaveRun api p s.1, s.2)) (exec : ExecPolicy) :
    Exec.Triple (Open [] 0) (runPlan api p exec fuel) (fun _ => Done) Gone H := by
  apply runPlan_sim h.sim
  · intro s t hst
    obtain ⟨rfl, hs⟩ := hst
    exact ⟨rfl, hdone s hs⟩
  · intro s t hst
    obtain ⟨rfl, hs⟩ := hst
    exact ⟨rfl, hgone s hs⟩

/-- The destructors add to memory events only. -/
theorem leaveRun_events (api : SlotsApi V S) (p : Program V W) (m : Machine S V) :
    ∃ log : List MemoryEvent, (leaveRun api p m).events = log.map .memory ++ m.events := by
  have hstages : ∀ n, ∃ log : List MemoryEvent,
      ((List.range n).foldl (fun m i => m.destroyStage i) m).events
        = log.map .memory ++ m.events := by
    intro n
    induction n with
    | zero => exact ⟨[], rfl⟩
    | succ n ih =>
        obtain ⟨log, hlog⟩ := ih
        rw [List.range_succ, List.foldl_append, List.foldl_cons, List.foldl_nil]
        obtain ⟨log', hlog', -⟩ :=
          ((List.range n).foldl (fun m i => m.destroyStage i) m).destroyStage_memory n
        rw [hlog', hlog, ← List.append_assoc, ← List.map_append]
        exact ⟨_, rfl⟩
  obtain ⟨log, hlog⟩ := hstages p.plan.nodeCount
  unfold leaveRun
  rw [Machine.onSlots_events, hlog, ← List.append_assoc, ← List.map_append]
  exact ⟨_, rfl⟩

/-- **What the log of a run says**, if memory events are nothing to it. -/
theorem RunTriple.log {api : SlotsApi V S} {p : Program V W} {fuel : Nat}
    {payload : Nat → Bool} {Open Entered : List Nat → Nat → Machine S V × W → Prop}
    {Log : List (Event V) → Prop}
    (h : RunTriple p.plan.toPlanShape payload (nodeOps api p fuel) Open Entered
      (fun s => Log s.1.events) (fun s => Log s.1.events))
    (hopen : ∀ s, Open [] p.plan.nodeCount s → Log s.1.events)
    (hmemory : ∀ (log : List MemoryEvent) events, Log events → Log (log.map .memory ++ events))
    (exec : ExecPolicy) {s : Machine S V × W} (hs : Open [] 0 s) :
    Log (YOrch.runPlan api p exec fuel s).2.1.events := by
  have hleave : ∀ s : Machine S V × W, Log s.1.events → Log (leaveRun api p s.1).events := by
    intro s hlog
    obtain ⟨log, hevents⟩ := leaveRun_events api p s.1
    rw [hevents]
    exact hmemory log _ hlog
  have hrun : Exec.Triple (Open [] 0) (YOrch.runPlan api p exec fuel)
      (fun _ s => Log s.1.events) (fun s => Log s.1.events) (fun s => Log s.1.events) :=
    h.runPlan (fun s hs => hleave s (hopen s hs)) hleave exec
  exact hrun.after hs

end YOrch
