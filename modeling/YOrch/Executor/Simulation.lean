/-
  YOrch.Executor.Simulation — how relations between machines survive a run.

  `NodeSim` lists what a family of relations, one for each phase of a node's
  entry, has to withstand: one field for each thing a node can do.  From it
  `enterNode_sim` follows through every argument, callable and adapter stack.
  `RunSim` does the same for the phases of a traversal, and `runPlan_sim` for
  whole runs under either executor.
-/
import YOrch.Executor.NodeEntry

namespace YOrch

open Library

variable {V W S S' : Type}

/-! ## §1. Steps. -/

section Steps

variable {σ τ : Type} {R E H : Machine S V × W → Machine S' V × W → Prop}

/-- Machines are changed, the world is not. -/
theorem onMachine_sim {f : Machine S V → Machine S V} {g : Machine S' V → Machine S' V}
    {Q : Machine S V × W → Machine S' V × W → Prop}
    (h : ∀ s t, R s t → Q (f s.1, s.2) (g t.1, t.2)) :
    Exec.Sim R (onMachine f) (onMachine g) (fun _ => Q) E H :=
  .modify h

/-- What is looked up must not tell the machines apart. -/
theorem look_sim {α : Type} {f : Machine S V → α} {g : Machine S' V → α}
    {Q : α → Machine S V × W → Machine S' V × W → Prop}
    (h : ∀ s t, R s t → f s.1 = g t.1 ∧ Q (f s.1) s t) :
    Exec.Sim R (look f) (look g) Q E H :=
  .reads h

/-- A contract holds on both sides, or is violated on both. -/
theorem contract_sim {asserts : Bool} {violation : Violation} {holds : Machine S V → Bool}
    {holds' : Machine S' V → Bool} {Q : Machine S V × W → Machine S' V × W → Prop}
    (heq : ∀ s t, R s t → holds s.1 = holds' t.1)
    (hfine : ∀ s t, R s t → holds s.1 = true → Q s t)
    (hviolate : ∀ s t, R s t → holds s.1 = false →
      Q (s.1.violate violation, s.2) (t.1.violate violation, t.2)
        ∧ H (s.1.violate violation, s.2) (t.1.violate violation, t.2)) :
    Exec.Sim R (contract asserts violation holds) (contract asserts violation holds')
      (fun _ => Q) E H := by
  unfold contract
  apply Exec.Sim.bind
    (look_sim (Q := fun fine s t => R s t ∧ fine = holds s.1) fun s t hst =>
      ⟨heq s t hst, hst, rfl⟩)
  intro fine
  cases fine with
  | true => exact .pure fun s t hst => hfine s t hst.1 hst.2.symm
  | false =>
      apply Exec.Sim.bind
        (onMachine_sim (Q := fun s t => Q s t ∧ H s t) fun s t hst =>
          hviolate s t hst.1 hst.2.symm)
      intro _
      cases asserts with
      | true => exact .halt fun _ _ hst => hst.2
      | false => exact .pure fun _ _ hst => hst.1

end Steps

/-! ## §2. Phases of a node's entry. -/

/-- Where the execution of a node's task is: between attempts, with bindings
left to resolve, with the sink in the callable's hands, or after an attempt. -/
inductive Phase (V W : Type) where
  | ready
  | evaluating (rest : List (Spec × CppType))
  | sinking (body : SinkBody V W)
  | tried

/-- What relations between the machines of two backends have to withstand while
node `i`'s task is executed. -/
structure NodeSim (api : SlotsApi V S) (api' : SlotsApi V S') (p : Program V W) (i : Nat)
    (Inv : Phase V W → Machine S V × W → Machine S' V × W → Prop)
    (H : Machine S V × W → Machine S' V × W → Prop) : Prop where
  world : ∀ phase, WorldStable (Inv phase)
  halts : ∀ phase s t, Inv phase s t → H s t
  violate : ∀ phase violation s t, (∀ j, violation ≠ .emplaceOverLive j) → Inv phase s t →
    H (s.1.violate violation, s.2) (t.1.violate violation, t.2)
  attempt : ∀ s t, Inv .ready s t →
    Inv (.evaluating (p.behaviour i).evaluated) (beginAttempt api p i s.1, s.2)
      (beginAttempt api' p i t.1, t.2)
  abandon : ∀ rest s t, Inv (.evaluating rest) s t → Inv .tried s t
  skip : ∀ binding rest s t, binding.1.isPrevAccess = false →
    Inv (.evaluating (binding :: rest)) s t → Inv (.evaluating rest) s t
  read : ∀ binding rest s t, binding.1.isPrevAccess → Inv (.evaluating (binding :: rest)) s t →
    readPrev api p i s.1 = readPrev api' p i t.1
  resolve : ∀ binding rest s t source v arg left w, binding.1.isPrevAccess →
    Inv (.evaluating (binding :: rest)) s t → p.plan.prevSource i = some source →
    readPrev api p i s.1 = some v → p.resolvePrev binding v s.2 = (arg, left, w) →
    Inv (.evaluating rest) (resolveStep api p i binding source arg left s.1, w)
      (resolveStep api' p i binding source arg left t.1, w)
  write : ∀ written s t, (p.plan.task i).usesDirectOutputProtocol = false →
    Inv (.evaluating []) s t →
    Inv .tried (writeBack api p i written s.1, s.2) (writeBack api' p i written t.1, t.2)
  sink : ∀ args w s t, (p.plan.task i).usesDirectOutputProtocol → Inv (.evaluating []) s t →
    Inv (.sinking ((p.behaviour i).sinkBody args w)) s t
  sinkHasValue : ∀ next s t, Inv (.sinking (.hasValue next)) s t →
    api.outHasValue i s.1.slots = api'.outHasValue i t.1.slots
      ∧ Inv (.sinking (next (api.outHasValue i s.1.slots))) s t
  sinkEmplace : ∀ payload next s t, Inv (.sinking (.emplace payload next)) s t →
    api.outHasValue i s.1.slots = api'.outHasValue i t.1.slots
      ∧ (api.outHasValue i s.1.slots = false → Inv (.sinking next)
          (emplaceSink api i payload s.1, s.2) (emplaceSink api' i payload t.1, t.2))
      ∧ (api.outHasValue i s.1.slots = true → Inv (.sinking next)
            (emplaceSink api i payload (s.1.violate (.emplaceOverLive i)), s.2)
            (emplaceSink api' i payload (t.1.violate (.emplaceOverLive i)), t.2)
          ∧ H (s.1.violate (.emplaceOverLive i), s.2) (t.1.violate (.emplaceOverLive i), t.2))
  sinkDestroy : ∀ next s t, Inv (.sinking (.destroy next)) s t →
    Inv (.sinking next) (s.1.onSlots (api.outDestroy i), s.2) (t.1.onSlots (api'.outDestroy i), t.2)
  sinkFinish : ∀ exit written world s t, Inv (.sinking (.finish exit written world)) s t →
    Inv .tried (writeBack api p i written s.1, s.2) (writeBack api' p i written t.1, t.2)
  again : ∀ s t, (p.plan.task i).usesDirectOutputProtocol = false →
    (p.plan.task i).retryLayers ≠ 0 → Inv .tried s t → Inv .ready s t
  cleanUp : ∀ s t, (p.plan.task i).usesDirectOutputProtocol →
    (p.plan.task i).retryLayers ≠ 0 → Inv .tried s t →
    Inv .ready (cleanUpSink api i s.1, s.2) (cleanUpSink api' i t.1, t.2)

namespace NodeSim

variable {api : SlotsApi V S} {api' : SlotsApi V S'} {p : Program V W} {i : Nat}
  {Inv : Phase V W → Machine S V × W → Machine S' V × W → Prop}
  {H : Machine S V × W → Machine S' V × W → Prop}

/-- From the parent, if both views find the same; otherwise through the world. -/
theorem resolveAs_sim (h : NodeSim api api' p i Inv H) (binding : Spec × CppType)
    (rest : List (Spec × CppType)) :
    Exec.Sim (Inv (.evaluating (binding :: rest))) (resolveAs api p i binding)
      (resolveAs api' p i binding) (fun _ => Inv (.evaluating rest)) (Inv .tried) H := by
  unfold resolveAs
  by_cases hprev : binding.1.isPrevAccess
  · rw [if_pos hprev, if_pos hprev]
    apply Exec.Sim.bind (look_sim (Q := fun found s t =>
      Inv (.evaluating (binding :: rest)) s t ∧ readPrev api p i s.1 = found)
      fun s t hst => ⟨h.read binding rest s t hprev hst, hst, rfl⟩)
    intro found
    -- without a view, or without an object behind it, there is nothing to read
    have hmissing : Exec.Sim
        (fun s t => Inv (.evaluating (binding :: rest)) s t ∧ readPrev api p i s.1 = found)
        (do onMachine fun m => m.violate (.missingSource i)
            (Exec.halt : Exec (Machine S V × W) (Option V)))
        (do onMachine fun m => m.violate (.missingSource i)
            (Exec.halt : Exec (Machine S' V × W) (Option V)))
        (fun _ => Inv (.evaluating rest)) (Inv .tried) H := by
      apply Exec.Sim.bind (onMachine_sim (Q := H) fun s t hst => h.violate _ _ s t (by simp) hst.1)
      exact fun _ => .halt fun _ _ hst => hst
    cases hsource : p.plan.prevSource i with
    | none => exact hmissing
    | some source =>
        cases found with
        | none => exact hmissing
        | some v =>
            apply Exec.Sim.bind (S := fun _ => Inv (.evaluating rest))
            · apply Exec.Sim.act
              intro s t hst
              rw [← (h.world _ s t hst.1).1]
              exact ⟨rfl, h.resolve binding rest s t source v _ _ _ hprev hst.1 hsource hst.2 rfl⟩
            · intro arg
              split
              · exact .pure fun _ _ hst => hst
              · exact .throw (h.abandon rest)
  · rw [if_neg hprev, if_neg hprev]
    apply Exec.Sim.bind (onWorld_sim (h.world _) _)
    intro returned
    split
    · exact .pure fun s t hst => h.skip binding rest s t (by simpa using hprev) hst
    · exact .throw fun s t hst => h.abandon _ s t hst

/-- By the bindings, in the order of their evaluation. -/
theorem resolveAll_sim (h : NodeSim api api' p i Inv H) : ∀ bindings : List (Spec × CppType),
    Exec.Sim (Inv (.evaluating bindings)) (resolveAll api p i bindings)
      (resolveAll api' p i bindings) (fun _ => Inv (.evaluating [])) (Inv .tried) H
  | [] => .pure fun _ _ hst => hst
  | binding :: rest => by
      apply (h.resolveAs_sim binding rest).bind
      intro arg
      apply (h.resolveAll_sim rest).bind
      exact fun args => .pure fun _ _ hst => hst

/-- One attempt of a task that returns its result. -/
theorem attemptRaw_sim (h : NodeSim api api' p i Inv H)
    (hraw : (p.plan.task i).usesDirectOutputProtocol = false) :
    Exec.Sim (Inv .ready) (attemptRaw api p i) (attemptRaw api' p i) (fun _ => Inv .tried)
      (Inv .tried) H := by
  apply Exec.Sim.bind (onMachine_sim h.attempt)
  intro _
  apply (h.resolveAll_sim _).bind
  intro args
  apply Exec.Sim.bind (onWorld_sim (h.world _) _)
  intro result
  apply Exec.Sim.bind (onMachine_sim fun s t hst => h.write result.2 s t hraw hst)
  exact fun _ => .ofExit (fun _ _ _ hst => hst) (fun _ _ hst => hst) (h.halts _)

/-- By the body: each use of the sink is simulated. -/
theorem runSink_sim (h : NodeSim api api' p i Inv H) : ∀ body : SinkBody V W,
    Exec.Sim (Inv (.sinking body)) (runSink api p i body) (runSink api' p i body)
      (fun _ => Inv .tried) (Inv .tried) H
  | .finish exit written world => by
      apply Exec.Sim.bind (onWorld_sim (h.world _) _)
      intro _
      apply Exec.Sim.bind (onMachine_sim (h.sinkFinish exit written world))
      exact fun _ => .ofExit (fun _ _ _ hst => hst) (fun _ _ hst => hst) (h.halts _)
  | .hasValue next => by
      apply Exec.Sim.bind (look_sim (Q := fun live => Inv (.sinking (next live)))
        (h.sinkHasValue next))
      exact fun live => h.runSink_sim (next live)
  | .emplace payload next => by
      apply Exec.Sim.bind (S := fun _ s t => Inv (.sinking next)
        (emplaceSink api i payload s.1, s.2) (emplaceSink api' i payload t.1, t.2))
      · apply contract_sim
        · exact fun s t hst => congrArg not (h.sinkEmplace payload next s t hst).1
        · intro s t hst hfine
          exact (h.sinkEmplace payload next s t hst).2.1 (by simpa using hfine)
        · intro s t hst hlive
          exact (h.sinkEmplace payload next s t hst).2.2 (by simpa using hlive)
      · intro _
        apply Exec.Sim.bind (onMachine_sim fun _ _ hst => hst)
        exact fun _ => h.runSink_sim next
  | .destroy next => by
      apply Exec.Sim.bind (onMachine_sim (h.sinkDestroy next))
      exact fun _ => h.runSink_sim next

/-- One attempt of a direct-output task. -/
theorem attemptInto_sim (h : NodeSim api api' p i Inv H)
    (hinto : (p.plan.task i).usesDirectOutputProtocol) :
    Exec.Sim (Inv .ready) (attemptInto api p i) (attemptInto api' p i) (fun _ => Inv .tried)
      (Inv .tried) H := by
  apply Exec.Sim.bind (onMachine_sim h.attempt)
  intro _
  apply (h.resolveAll_sim _).bind
  intro args
  apply Exec.Sim.bind (S := fun body s t => Inv (.sinking body) s t)
  · apply Exec.Sim.act
    intro s t hst
    have hsink := h.sink args s.2 s t hinto hst
    obtain ⟨hworld, hset⟩ := h.world _ s t hsink
    rw [← hworld]
    exact ⟨rfl, hset s.2⟩
  · exact h.runSink_sim

/-- A stack of adapters, through `invoke_raw`. -/
theorem invokeNodeRaw_sim (h : NodeSim api api' p i Inv H) (fuel : Nat)
    (hraw : (p.plan.task i).usesDirectOutputProtocol = false) :
    Exec.Sim (Inv .ready)
      (invokeRaw fuel (p.plan.task i) (p.behaviour i).policies (attemptRaw api p i))
      (invokeRaw fuel (p.plan.task i) (p.behaviour i).policies (attemptRaw api' p i))
      (fun _ => Inv .tried) (Inv .tried) H :=
  invokeRaw_sim (h.world _) (h.halts _) (h.halts _) fuel (p.plan.task i) _
    (fun hr s t => h.again s t hraw hr)
    (h.attemptRaw_sim hraw)

/-- And through `invoke_into`, whose cleanup empties the sink on both sides. -/
theorem invokeNodeInto_sim (h : NodeSim api api' p i Inv H) (fuel : Nat)
    (hinto : (p.plan.task i).usesDirectOutputProtocol) :
    Exec.Sim (Inv .ready) (invokeNodeInto api p fuel i) (invokeNodeInto api' p fuel i)
      (fun _ => Inv .tried) (Inv .tried) H :=
  invokeInto_sim (h.world _) (h.halts _) fuel (h.attemptInto_sim hinto) (p.plan.task i) _
    fun hr s t => h.cleanUp s t hinto hr

end NodeSim

/-! ## §3. Entering a node. -/

/-- A direct-output node owns its payload. -/
theorem ValidPlan.payloadNode_of_direct {plan : ValidPlan} {i : Nat}
    (h : (plan.task i).usesDirectOutputProtocol) : plan.payloadNode i = true := by
  obtain ⟨base, hbase⟩ : ∃ base, (plan.task i).bound = base := ⟨_, rfl⟩
  simp only [Task.usesDirectOutputProtocol, Task.outputProtocol, hbase] at h
  simp only [CompiledPlan.payloadNode, payloadNode, CompiledPlan.outputStorageMode,
    Task.outputStorageMode, Task.declaredOutput, Task.usesForwardPrevOutputProtocol,
    Task.outputProtocol, hbase]
  cases base <;> first | rfl | cases h

/-- The kinds of raw results that make a node own a payload. -/
theorem ValidPlan.payloadNode_of_kind {plan : ValidPlan} {i : Nat} (hi : i < plan.nodeCount)
    (hsupported : (plan.task i).policiesSupported)
    (hraw : (plan.task i).usesDirectOutputProtocol = false) :
    plan.payloadNode i = match (plan.task i).rawKind with
      | .void | .step => false
      | .taskResult | .value => true := by
  have hformed := plan.slotsFormed i hi
  simp only [CompiledPlan.nodeSlotFormed, Bool.and_eq_true, Bool.not_eq_true', Bool.or_eq_true,
    bne_iff_ne, ne_eq] at hformed
  obtain ⟨href, hslot⟩ := hformed
  rw [Task.rawKind_eq hsupported href, CppType.rawKind, CppType.removeCvref_eq href]
  simp only [CompiledPlan.payloadNode, payloadNode, CompiledPlan.outputStorageMode,
    CompiledPlan.outputType, Task.outputStorageMode, Task.outputType] at hslot ⊢
  cases hd : (plan.task i).declaredOutput with
  | some T =>
      -- only a forward-prev task is left
      have hforward : (plan.task i).usesForwardPrevOutputProtocol := by
        by_contra h
        rw [Task.declared_iff.mpr ⟨hraw, by simpa using h⟩] at hd
        cases hd
      rw [Task.rawResultType_of_declared hd]
      simp [hforward, CppType.removeCv]
  | none =>
      simp only [hd] at hslot ⊢
      by_cases hvoid : (plan.task i).rawResultType.isVoid
      · have hremove := beq_iff_eq.mp hvoid
        simp [hvoid, hremove]
      · by_cases hstep : (plan.task i).rawResultType = .stepResult
        · simp [hstep, CppType.removeCv]
        · -- a qualified `step_result` would need a slot of type `void`
          have howned : ¬ ((plan.task i).rawResultType.isVoid
              || (plan.task i).rawResultType == .stepResult) := by simp [hvoid, hstep]
          rw [if_neg howned] at hslot ⊢
          rw [CppType.isVoid, beq_iff_eq] at hvoid
          have hne : (plan.task i).rawResultType.removeCv ≠ .stepResult := by
            intro h
            rw [Task.taskOutputType, h] at hslot
            simp [CppType.isVoid, CppType.removeCv] at hslot
          cases hk : (plan.task i).rawResultType.removeCv <;> simp_all

/-- What relations between machines have to withstand while node `i` is
entered: `Before` it, `Entered` after a success, `Left` otherwise. -/
structure EnterSim (api : SlotsApi V S) (api' : SlotsApi V S') (p : Program V W) (i : Nat)
    (Before Entered Left : Machine S V × W → Machine S' V × W → Prop)
    (Inv : Phase V W → Machine S V × W → Machine S' V × W → Prop)
    (H : Machine S V × W → Machine S' V × W → Prop) : Prop
    extends NodeSim api api' p i Inv H where
  enter : ∀ s t, Before s t →
    Inv .ready (s.1.record (.entered i (readPrev api p i s.1)), s.2)
      (t.1.record (.entered i (readPrev api' p i t.1)), t.2)
  hasValue : ∀ s t, (p.plan.task i).usesDirectOutputProtocol → Inv .tried s t →
    api.hasValue i s.1.slots = api'.hasValue i t.1.slots
  finish : ∀ s t, (p.plan.task i).usesDirectOutputProtocol → Inv .tried s t →
    api.hasValue i s.1.slots = true →
    Entered (finishNode api p i s.1, s.2) (finishNode api' p i t.1, t.2)
  finishMissing : ∀ s t, (p.plan.task i).usesDirectOutputProtocol → Inv .tried s t →
    api.hasValue i s.1.slots = false →
    Entered (finishNode api p i (s.1.violate (.missingOutput i)), s.2)
      (finishNode api' p i (t.1.violate (.missingOutput i)), t.2)
  failInto : ∀ s t, (p.plan.task i).usesDirectOutputProtocol → Inv .tried s t →
    Left (s.1.onSlots (api.destroy i), s.2) (t.1.onSlots (api'.destroy i), t.2)
  store : ∀ v s t, (p.plan.task i).usesDirectOutputProtocol = false → p.plan.payloadNode i →
    Inv .tried s t → Entered (finishNode api p i (s.1.onSlots (api.emplace i v)), s.2)
      (finishNode api' p i (t.1.onSlots (api'.emplace i v)), t.2)
  pass : ∀ s t, (p.plan.task i).usesDirectOutputProtocol = false →
    p.plan.payloadNode i = false → Inv .tried s t →
    Entered (finishNode api p i s.1, s.2) (finishNode api' p i t.1, t.2)
  fail : ∀ s t, (p.plan.task i).usesDirectOutputProtocol = false → Inv .tried s t → Left s t

namespace EnterSim

variable {api : SlotsApi V S} {api' : SlotsApi V S'} {p : Program V W} {i : Nat}
  {Before Entered Left : Machine S V × W → Machine S' V × W → Prop}
  {Inv : Phase V W → Machine S V × W → Machine S' V × W → Prop}
  {H : Machine S V × W → Machine S' V × W → Prop}

/-- How a node's entry leaves related machines. -/
def Outcome (payload : Bool) (Entered Left : Machine S V × W → Machine S' V × W → Prop)
    (entered : NodeEnterResult) (s : Machine S V × W) (t : Machine S' V × W) : Prop :=
  if entered.step.ok then entered.payloadLive = payload ∧ Entered s t else Left s t

/-- Entering a direct-output node. -/
theorem enterInto_sim (h : EnterSim api api' p i Before Entered Left Inv H)
    (hinto : (p.plan.task i).usesDirectOutputProtocol) (fuel : Nat) :
    Exec.Sim (Inv .ready) (enterInto api p fuel i) (enterInto api' p fuel i)
      (Outcome true Entered Left) Left H := by
  apply Exec.Sim.bind (Exec.Sim.noexcept (h.invokeNodeInto_sim fuel hinto) (h.halts _))
  intro step
  unfold finalizeDirectOutputStep
  cases hok : step.ok with
  | true =>
      rw [if_pos rfl, if_pos rfl, Exec.bind_assoc, Exec.bind_assoc]
      apply Exec.Sim.bind (contract_sim (fun s t hst => h.hasValue s t hinto hst)
        (fun s t hst hlive => h.finish s t hinto hst hlive)
        (fun s t hst hlive =>
          ⟨h.finishMissing s t hinto hst hlive, h.violate _ _ s t (by simp) hst⟩))
      intro _
      rw [Exec.bind_pure_left, Exec.bind_pure_left, if_pos hok, if_pos hok]
      apply Exec.Sim.bind (onMachine_sim fun _ _ hst => hst)
      exact fun _ => .pure fun s t hst => ⟨rfl, hst⟩
  | false =>
      rw [if_neg (by simp), if_neg (by simp), Exec.bind_assoc, Exec.bind_assoc]
      apply Exec.Sim.bind (onMachine_sim (h.failInto · · hinto))
      intro _
      rw [Exec.bind_pure_left, Exec.bind_pure_left, if_neg (by simp [hok]),
        if_neg (by simp [hok])]
      exact .pure fun s t hst => by
        rw [Outcome, NodeEnterResult.unsuccessful_step, if_neg (by simp [hok])]
        exact hst

/-- Storing a successful raw result. -/
theorem storeNodeOutput_sim (h : EnterSim api api' p i Before Entered Left Inv H)
    (hraw : (p.plan.task i).usesDirectOutputProtocol = false) {kind : RawKind}
    (hkind : p.plan.payloadNode i = match kind with
      | .void | .step => false
      | .taskResult | .value => true) (raw : kind.Result V) :
    Exec.Sim (Inv .tried) (storeNodeOutput api p i kind raw) (storeNodeOutput api' p i kind raw)
      (fun live s t => live = p.plan.payloadNode i
        ∧ Entered (finishNode api p i s.1, s.2) (finishNode api' p i t.1, t.2)) Left H := by
  have hmove : p.plan.payloadNode i = true → ∀ v,
      Exec.Sim (Inv .tried) (moveIntoSlot api p i v >>= fun _ => pure true)
        (moveIntoSlot api' p i v >>= fun _ => pure true)
        (fun live s t => live = p.plan.payloadNode i
          ∧ Entered (finishNode api p i s.1, s.2) (finishNode api' p i t.1, t.2)) Left H := by
    intro hpayload v
    apply Exec.Sim.bind (S := fun _ s t =>
      Entered (finishNode api p i s.1, s.2) (finishNode api' p i t.1, t.2))
    · apply Exec.Sim.bind (onWorld_sim (h.world _) _)
      intro stored
      cases stored with
      | none => exact .throw (h.fail · · hraw)
      | some v => exact onMachine_sim fun s t hst => h.store v s t hraw hpayload hst
    · exact fun _ => .pure fun s t hst => ⟨hpayload.symm, hst⟩
  cases kind with
  | void => exact .pure fun s t hst => ⟨hkind.symm, h.pass s t hraw hkind hst⟩
  | step => exact .pure fun s t hst => ⟨hkind.symm, h.pass s t hraw hkind hst⟩
  | taskResult =>
      rcases raw with ⟨step, _ | v⟩
      · apply Exec.Sim.bind (onMachine_sim fun s t hst =>
          h.violate _ (.missingResult i) s t (by simp) hst)
        exact fun _ => .halt fun _ _ hst => hst
      · exact hmove hkind v
  | value => exact hmove hkind raw

/-- Entering any other node. -/
theorem enterRaw_sim (h : EnterSim api api' p i Before Entered Left Inv H)
    (hi : i < p.plan.nodeCount) (hraw : (p.plan.task i).usesDirectOutputProtocol = false)
    (fuel : Nat) :
    Exec.Sim (Inv .ready) (enterRaw api p fuel i) (enterRaw api' p fuel i)
      (Outcome (p.plan.payloadNode i) Entered Left) Left H := by
  apply Exec.Sim.bind (Exec.Sim.noexcept (h.invokeNodeRaw_sim fuel hraw) (h.halts _))
  intro raw
  cases hok : (Program.extractStepResult (p.plan.task i).rawKind raw).ok with
  | true =>
      rw [if_pos rfl, if_pos rfl]
      apply (h.storeNodeOutput_sim hraw
        (ValidPlan.payloadNode_of_kind hi (p.supported i hi) hraw) raw).bind
      intro live
      by_cases hlive : live = p.plan.payloadNode i
      · apply Exec.Sim.bind (onMachine_sim fun s t hst => hst.2)
        exact fun _ => .pure fun s t hst => ⟨hlive, hst⟩
      · exact fun s t hst => absurd hst.1 hlive
  | false =>
      rw [if_neg (by simp), if_neg (by simp)]
      exact .pure fun s t hst => by
        rw [Outcome, NodeEnterResult.unsuccessful_step, if_neg (by simp [hok])]
        exact h.fail s t hraw hst

/-- **Entering a node.** -/
theorem enterNode_sim (h : EnterSim api api' p i Before Entered Left Inv H)
    (hi : i < p.plan.nodeCount) (fuel : Nat) :
    Exec.Sim Before (enterNode api p fuel i) (enterNode api' p fuel i)
      (Outcome (p.plan.payloadNode i) Entered Left) Left H := by
  apply Exec.Sim.bind (onMachine_sim h.enter)
  intro _
  by_cases hinto : (p.plan.task i).usesDirectOutputProtocol
  · rw [if_pos hinto, if_pos hinto, ValidPlan.payloadNode_of_direct hinto]
    exact h.enterInto_sim hinto fuel
  · rw [if_neg hinto, if_neg hinto]
    exact h.enterRaw_sim hi (by simpa using hinto) fuel

end EnterSim

/-! ## §4. Traversals. -/

section Traversal

variable {σ τ : Type}

/-- What relations have to withstand during a traversal.  `Open P n` holds
between the nodes below the last one of the path `P`, `n` being the next index;
`Entered P n` before that node's fanout is staged and after it is unstaged.
`Abandoned` is what is left to say where an exception passes without cleanup. -/
structure RunSim (plan : PlanShape) (payload : Nat → Bool) (ops : DfsOps σ) (ops' : DfsOps τ)
    (Open Entered : List Nat → Nat → σ → τ → Prop) (Abandoned H : σ → τ → Prop) : Prop where
  staging : ops.requiresStaging = ops'.requiresStaging
  enter : ∀ i < plan.nodeCount, Exec.Sim (Open (plan.path i).tail i) (ops.enterNode i)
    (ops'.enterNode i)
    (fun entered s t =>
      if entered.step.ok then
        entered.payloadLive = payload i ∧ Entered (plan.path i) (i + 1) s t
      else Open (plan.path i).tail (i + 1) s t)
    (Open (plan.path i).tail (i + 1)) H
  stage : ∀ i < plan.nodeCount, ops.requiresStaging i → Exec.Sim (Entered (plan.path i) (i + 1))
    (ops.stage i) (ops'.stage i) (fun _ => Open (plan.path i) (i + 1))
    (Entered (plan.path i) (i + 1)) H
  unstaged : ∀ i < plan.nodeCount, ops.requiresStaging i = false → ∀ n s t,
    Entered (plan.path i) n s t ↔ Open (plan.path i) n s t
  unstage : ∀ i < plan.nodeCount, ops.requiresStaging i → ∀ n s t, Open (plan.path i) n s t →
    Entered (plan.path i) n (ops.unstage i s) (ops'.unstage i t)
  destroy : ∀ i < plan.nodeCount, payload i → ∀ n s t, Entered (plan.path i) n s t →
    Open (plan.path i).tail n (ops.destroyPayload i s) (ops'.destroyPayload i t)
  leave : ∀ i < plan.nodeCount, payload i = false → ∀ n s t, Entered (plan.path i) n s t →
    Open (plan.path i).tail n s t
  later : ∀ P n m s t, n ≤ m → Open P n s t → Open P m s t
  laterEntered : ∀ P n m s t, n ≤ m → Entered P n s t → Entered P m s t
  abandon : ∀ P n s t, Open P n s t → Abandoned s t
  abandonEntered : ∀ P n s t, Entered P n s t → Abandoned s t

namespace RunSim

variable {plan : PlanShape} {payload : Nat → Bool} {ops : DfsOps σ} {ops' : DfsOps τ}
  {Open Entered : List Nat → Nat → σ → τ → Prop} {Abandoned H : σ → τ → Prop}

/-- What an exception leaves, with and without unwinding. -/
def Thrown (plan : PlanShape) (unwind : Bool) (Kept : Nat → σ → τ → Prop)
    (Abandoned : σ → τ → Prop) (s : σ) (t : τ) : Prop :=
  if unwind then Kept plan.nodeCount s t else Abandoned s t

/-- At the end of a fanout its parent has nothing staged. -/
theorem unstage_open (h : RunSim plan payload ops ops' Open Entered Abandoned H) {i : Nat}
    (hi : i < plan.nodeCount) {n : Nat} {s : σ} {t : τ} (hst : Open (plan.path i) n s t) :
    Entered (plan.path i) n (ops.destroyFanoutStaging i s) (ops'.destroyFanoutStaging i t) := by
  unfold DfsOps.destroyFanoutStaging
  rw [← h.staging]
  cases hstaging : ops.requiresStaging i with
  | true => exact h.unstage i hi hstaging n s t hst
  | false => exact (h.unstaged i hi hstaging n s t).mpr hst

/-- The end of a payload, where there is one, leaves the node. -/
theorem destroy_entered (h : RunSim plan payload ops ops' Open Entered Abandoned H) {i : Nat}
    (hi : i < plan.nodeCount) {n : Nat} {s : σ} {t : τ} (hst : Entered (plan.path i) n s t) :
    Open (plan.path i).tail n (bif payload i then ops.destroyPayload i s else s)
      (bif payload i then ops'.destroyPayload i t else t) := by
  cases hpayload : payload i with
  | true => exact h.destroy i hi hpayload n s t hst
  | false => exact h.leave i hi hpayload n s t hst

/-- Staging, on both sides or on neither. -/
theorem prepare_sim (h : RunSim plan payload ops ops' Open Entered Abandoned H) {i : Nat}
    (hi : i < plan.nodeCount) : Exec.Sim (Entered (plan.path i) (i + 1))
      (ops.prepareFanoutStaging i) (ops'.prepareFanoutStaging i)
      (fun _ => Open (plan.path i) (i + 1)) (Entered (plan.path i) (i + 1)) H := by
  unfold DfsOps.prepareFanoutStaging
  rw [← h.staging]
  cases hstaging : ops.requiresStaging i with
  | true => exact h.stage i hi hstaging
  | false => exact .pure fun s t hst => (h.unstaged i hi hstaging _ s t).mp hst

/-- A node whose children keep the relation keeps it. -/
theorem dfsNode_sim (h : RunSim plan payload ops ops' Open Entered Abandoned H) (unwind : Bool)
    {i n : Nat} (hi : i < plan.nodeCount) (hn : i < n) {below : Exec σ StepResult}
    {below' : Exec τ StepResult}
    (hbelow : Exec.Sim (Open (plan.path i) (i + 1)) below below' (fun _ => Open (plan.path i) n)
      (Thrown plan unwind (Open (plan.path i)) Abandoned) H) :
    Exec.Sim (Open (plan.path i).tail i) (dfsNode unwind ops i below)
      (dfsNode unwind ops' i below') (fun _ => Open (plan.path i).tail n)
      (Thrown plan unwind (Open (plan.path i).tail) Abandoned) H := by
  have hentered : ∀ s t, Entered (plan.path i) (i + 1) s t →
      Thrown plan unwind (Entered (plan.path i)) Abandoned s t := by
    intro s t hst
    unfold Thrown
    split
    · exact h.laterEntered _ _ _ s t hi hst
    · exact h.abandonEntered _ _ s t hst
  unfold dfsNode
  apply Exec.Sim.bind
  · apply (h.enter i hi).conseq (fun _ _ => id) (fun _ _ _ => id) _ (fun _ _ => id)
    intro s t hst
    unfold Thrown
    split
    · exact h.later _ _ _ s t hi hst
    · exact h.abandon _ _ s t hst
  intro entered
  cases hok : entered.step.ok with
  | false =>
      rw [if_neg (by simp), if_neg (by simp)]
      exact .pure fun s t hst => h.later _ _ _ s t hn hst
  | true =>
      rw [if_pos rfl, if_pos rfl]
      by_cases hlive : entered.payloadLive = payload i
      · rw [hlive]
        -- two guards: the payload of `i` around the stage of its children
        refine Exec.Sim.onExit (?_ : Exec.Sim _ _ _ (fun _ => Entered (plan.path i) n)
          (Thrown plan unwind (Entered (plan.path i)) Abandoned) H) ?_ ?_
        · apply Exec.Sim.bind
          · apply (h.prepare_sim hi).conseq (fun _ _ hst => hst.2) (fun _ _ _ => id) hentered
              (fun _ _ => id)
          · intro _
            apply hbelow.onExit
            · exact fun _ s t hst => h.unstage_open hi hst
            · intro s t hst
              unfold Thrown at hst ⊢
              cases unwind with
              | true => exact h.unstage_open hi hst
              | false => exact hst
        · exact fun _ s t hst => h.destroy_entered hi hst
        · intro s t hst
          unfold Thrown at hst ⊢
          cases unwind with
          | true => exact h.destroy_entered hi hst
          | false => exact hst
      · exact fun s t hst => absurd hst.1 hlive

/-- **The trees below a node.**  The induction is on the forest; its nodes are
the indices from `n` on. -/
theorem dfsChildren_sim (h : RunSim plan payload ops ops' Open Entered Abandoned H)
    (unwind : Bool) : ∀ (f : Forest Nat) (p n : Nat), p < n → n + f.size ≤ plan.nodeCount →
      Forest.Parented plan.parentIndex p f → f.preorder = List.range' n f.size →
      Exec.Sim (Open (plan.path p) n) (dfsChildren unwind ops f) (dfsChildren unwind ops' f)
        (fun _ => Open (plan.path p) (n + f.size))
        (Thrown plan unwind (Open (plan.path p)) Abandoned) H
  | .nil, _, _, _, _, _, _ => .pure fun _ _ hst => hst
  | .cons i below rest, p, n, hpn, hsize, hparented, hpreorder => by
      obtain ⟨hparent, hbelow, hrest⟩ := hparented
      simp only [Forest.size] at hsize hpreorder ⊢
      rw [Forest.preorder_cons, List.range'_succ, List.cons.injEq,
        ← List.range'_append_1] at hpreorder
      obtain ⟨rfl, hpreorder⟩ := hpreorder
      obtain ⟨hbelow', hrest'⟩ := List.append_inj hpreorder (by
        rw [Forest.preorder_length, List.length_range'])
      have hchild : plan.IsParent p i := ⟨by omega, by omega, hparent⟩
      have hnode := h.dfsNode_sim unwind hchild.2.1 (n := i + 1 + below.size) (by omega)
        (dfsChildren_sim h unwind below i (i + 1) (by omega) (by omega) hbelow hbelow')
      rw [hchild.path, List.tail_cons] at hnode
      apply hnode.bind
      intro step
      split
      · exact .pure fun s t hst => h.later _ _ _ s t (by omega) hst
      · have := dfsChildren_sim h unwind rest p (i + 1 + below.size) (by omega) (by omega) hrest
          hrest'
        rwa [show i + 1 + below.size + rest.size = i + (below.size + rest.size + 1) by omega]
          at this

/-- **A whole traversal.** -/
theorem dfs_sim (h : RunSim plan payload ops ops' Open Entered Abandoned H) (unwind : Bool) :
    Exec.Sim (Open [] 0) (dfsNode unwind ops 0 (dfsChildren unwind ops plan.below))
      (dfsNode unwind ops' 0 (dfsChildren unwind ops' plan.below))
      (fun _ => Open [] plan.nodeCount) (Thrown plan unwind (Open []) Abandoned) H := by
  have hsize := plan.below_size
  have hpreorder : plan.below.preorder = List.range' 1 plan.below.size := by
    have hrange := plan.range_eq
    rw [List.range_eq_range', ← hsize, List.range'_succ, List.cons.injEq] at hrange
    exact hrange.2.symm
  have hbelow := h.dfsChildren_sim unwind plan.below 0 1 (by omega) (by omega)
    plan.below_parented hpreorder
  have := h.dfsNode_sim unwind plan.nodeCount_pos (n := 1 + plan.below.size) (by omega) hbelow
  rwa [show 1 + plan.below.size = plan.nodeCount by omega] at this

end RunSim

end Traversal

/-- **A whole run.**  `Done` relates what the destructors leave after a return,
`Gone` after an exception. -/
theorem runPlan_sim {api : SlotsApi V S} {api' : SlotsApi V S'} {p : Program V W} {fuel : Nat}
    {payload : Nat → Bool}
    {Open Entered : List Nat → Nat → Machine S V × W → Machine S' V × W → Prop}
    {Abandoned Done Gone H : Machine S V × W → Machine S' V × W → Prop}
    (h : RunSim p.plan.toPlanShape payload (nodeOps api p fuel) (nodeOps api' p fuel) Open Entered
      Abandoned H)
    (hdone : ∀ s t, Open [] p.plan.nodeCount s t →
      Done (leaveRun api p s.1, s.2) (leaveRun api' p t.1, t.2))
    (hgone : ∀ s t, Abandoned s t →
      Gone (leaveRun api p s.1, s.2) (leaveRun api' p t.1, t.2)) (exec : ExecPolicy) :
    Exec.Sim (Open [] 0) (runPlan api p exec fuel) (runPlan api' p exec fuel) (fun _ => Done)
      Gone H := by
  have hthrown : ∀ unwind s t, RunSim.Thrown p.plan.toPlanShape unwind (Open []) Abandoned s t →
      Abandoned s t := by
    intro unwind s t hst
    unfold RunSim.Thrown at hst
    split at hst
    · exact h.abandon _ _ s t hst
    · exact hst
  unfold runPlan
  cases exec with
  | serialDfsRecursive =>
      simp only [runNode_root]
      exact (h.dfs_sim true).onExit (fun _ => hdone) fun s t hst => hgone s t (hthrown _ s t hst)
  | serialDfsExplicitHeapStack =>
      simp only [runExplicitHeapStack_eq_dfs]
      exact (h.dfs_sim false).onExit (fun _ => hdone) fun s t hst => hgone s t (hthrown _ s t hst)

end YOrch
