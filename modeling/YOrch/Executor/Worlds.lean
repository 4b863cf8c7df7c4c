/-
  YOrch.Executor.Worlds — what a run makes of two related worlds.

  Everything a program calls acts on the world, and the executor only hands the
  world from one call to the next.  So if every call, started in two worlds that
  are related, returns the same and leaves related worlds, the two runs do the
  same throughout.  A relation may depend on the log so far, as long as it
  withstands the log's growth, and a call only has to respect it once its node is
  entered.

    • `Program.Respects` — what is asked of the calls of a program,
    • `enterNode_alike` — a node's entry, through arguments, sinks and adapters,
    • `run_alike` — whole runs, under either executor and any backend.
-/
import YOrch.Executor.Permutation
import YOrch.Executor.Retries

namespace YOrch

open Library

variable {V W S : Type}

/-! ## §1. Related worlds. -/

/-- A relation between two worlds, given what was recorded so far. -/
abbrev WorldRel (V W : Type) : Type := List (Event V) → W → W → Prop

namespace WorldRel

variable (R : WorldRel V W)

/-- What is recorded later does not undo the relation. -/
def Grows : Prop := ∀ events events' w u, events <:+ events' → R events w u → R events' w u

/-- The relation, after node `i` was entered. -/
def entered (i : Nat) : WorldRel V W := fun events w u =>
  (∃ prev, .entered i prev ∈ events) ∧ R events w u

variable {R}

/-- An entry, once recorded, stays recorded. -/
theorem Grows.entered (h : R.Grows) (i : Nat) : (R.entered i).Grows := by
  rintro events events' w u hsuffix ⟨⟨prev, hprev⟩, hR⟩
  exact ⟨⟨prev, hsuffix.subset hprev⟩, h events events' w u hsuffix hR⟩

end WorldRel

/-- The two calls return the same from related worlds, and leave related ones. -/
def Alike {α : Type} (R : WorldRel V W) (f : W → α × W) : Prop :=
  ∀ events w u, R events w u → (f w).1 = (f u).1 ∧ R events (f w).2 (f u).2

/-- What does not depend on what was entered. -/
theorem Alike.entered {α : Type} {R : WorldRel V W} {f : W → α × W} (h : Alike R f) (i : Nat) :
    Alike (R.entered i) f := by
  rintro events w u ⟨hentered, hR⟩
  exact ⟨(h events w u hR).1, hentered, (h events w u hR).2⟩

/-- Two callables do the same to their sink, and leave related worlds. -/
inductive SinkAlike (R : W → W → Prop) : SinkBody V W → SinkBody V W → Prop where
  | finish (exit : Exit StepResult) (written : Option V) {w u : W} (h : R w u) :
      SinkAlike R (.finish exit written w) (.finish exit written u)
  | hasValue {next next' : Bool → SinkBody V W} (h : ∀ live, SinkAlike R (next live) (next' live)) :
      SinkAlike R (.hasValue next) (.hasValue next')
  | emplace (payload : Option V) {next next' : SinkBody V W} (h : SinkAlike R next next') :
      SinkAlike R (.emplace payload next) (.emplace payload next')
  | destroy {next next' : SinkBody V W} (h : SinkAlike R next next') :
      SinkAlike R (.destroy next) (.destroy next')

/-- The members of a retry policy respect the relation. -/
structure RetryPolicy.Respects {T : Type} (R : WorldRel V W) (policy : RetryPolicy W T) :
    Prop where
  shouldRetry : ∀ retryCount, Alike R (policy.shouldRetry retryCount)
  onExhausted : ∀ exhausted, policy.onExhausted = some exhausted →
    ∀ raw, Alike R (exhausted raw)

/-- The policies of an adapter stack respect the relation. -/
def Task.PoliciesRespect {T : Task → Type} (R : WorldRel V W) :
    (task : Task) → task.Policies T W → Prop
  | .base _, _ => True
  | .catchFailureTask task, policies => task.PoliciesRespect R policies
  | .catchFailureWithPolicyTask _ task, (policy, policies) =>
      Alike R policy ∧ task.PoliciesRespect R policies
  | .retryTask task, (policy, policies) =>
      policy.Respects R ∧ task.PoliciesRespect R policies

/-- What is asked of the calls of a program.  A node's own calls are only made
after it is entered. -/
structure Program.Respects (p : Program V W) (R : WorldRel V W) : Prop where
  grows : R.Grows
  copy : ∀ v, Alike R fun w => p.copy w v
  move : ∀ v, Alike R fun w => (((p.move w v).1, (p.move w v).2.1), (p.move w v).2.2)
  argument : ∀ i < p.plan.nodeCount, ∀ binding,
    Alike (R.entered i) ((p.behaviour i).argument binding)
  body : ∀ i < p.plan.nodeCount, ∀ args, Alike (R.entered i) ((p.behaviour i).body args)
  sinkBody : ∀ i < p.plan.nodeCount, ∀ args events w u, R.entered i events w u →
    SinkAlike (R.entered i events) ((p.behaviour i).sinkBody args w)
      ((p.behaviour i).sinkBody args u)
  policies : ∀ i < p.plan.nodeCount,
    (p.plan.task i).PoliciesRespect (R.entered i) (p.behaviour i).policies
  policiesInto : ∀ i < p.plan.nodeCount,
    (p.plan.task i).PoliciesRespect (R.entered i) (p.behaviour i).policiesInto

/-! ## §2. Steps. -/

/-- One machine beside two related worlds. -/
def Beside (R : WorldRel V W) (s t : Machine S V × W) : Prop :=
  s.1 = t.1 ∧ R s.1.events s.2 t.2

/-- From one machine and related worlds, both runs do the same. -/
def KeepsAlike {α : Type} (R : WorldRel V W) (x : Exec (Machine S V × W) α) : Prop :=
  Exec.Sim (Beside R) x x (fun _ => Beside R) (Beside R) (Beside R)

namespace KeepsAlike

variable {R : WorldRel V W} {α β : Type}

theorem pure (a : α) : KeepsAlike R (pure a : Exec (Machine S V × W) α) :=
  Exec.Sim.pure fun _ _ hst => hst

theorem throw : KeepsAlike R (Exec.throw : Exec (Machine S V × W) α) :=
  Exec.Sim.throw fun _ _ hst => hst

theorem halt : KeepsAlike R (Exec.halt : Exec (Machine S V × W) α) :=
  Exec.Sim.halt fun _ _ hst => hst

/-- How a callable left does not depend on the world it left. -/
theorem ofExit (exit : Exit α) : KeepsAlike R (Exec.ofExit exit : Exec (Machine S V × W) α) :=
  Exec.Sim.ofExit (fun _ _ _ hst => hst) (fun _ _ hst => hst) fun _ _ hst => hst

/-- What is returned on both sides is the same, and so is what follows. -/
theorem bind {x : Exec (Machine S V × W) α} {f : α → Exec (Machine S V × W) β}
    (hx : KeepsAlike R x) (hf : ∀ a, KeepsAlike R (f a)) : KeepsAlike R (x >>= f) :=
  Exec.Sim.bind hx hf

/-- A call that returns the same from related worlds. -/
theorem onWorld {f : W → α × W} (h : Alike R f) :
    KeepsAlike R (onWorld f : Exec (Machine S V × W) α) := by
  apply Exec.Sim.act
  rintro ⟨m, w⟩ ⟨m', u⟩ ⟨hm, hR⟩
  obtain rfl : m = m' := hm
  exact ⟨(h m.events w u hR).1, rfl, (h m.events w u hR).2⟩

/-- The machine is the same on both sides. -/
theorem look (f : Machine S V → α) : KeepsAlike R (look f : Exec (Machine S V × W) α) := by
  apply Exec.Sim.reads
  rintro ⟨m, w⟩ ⟨m', u⟩ ⟨hm, hR⟩
  obtain rfl : m = m' := hm
  exact ⟨rfl, rfl, hR⟩

/-- The machine is changed alike, and what it records keeps the worlds related. -/
theorem onMachine (hgrows : R.Grows) {f : Machine S V → Machine S V}
    (hf : ∀ m, m.events <:+ (f m).events) :
    KeepsAlike R (onMachine f : Exec (Machine S V × W) Unit) := by
  apply Exec.Sim.modify
  rintro ⟨m, w⟩ ⟨m', u⟩ ⟨hm, hR⟩
  obtain rfl : m = m' := hm
  exact ⟨rfl, hgrows _ _ w u (hf m) hR⟩

theorem record (hgrows : R.Grows) (event : Machine S V → Event V) :
    KeepsAlike R (YOrch.onMachine fun m => m.record (event m) : Exec (Machine S V × W) Unit) :=
  onMachine hgrows fun _ => List.suffix_cons _ _

/-- The slots are used alike on both sides. -/
theorem onSlots (hgrows : R.Grows) (op : S → List MemoryEvent × S) :
    KeepsAlike R (YOrch.onMachine fun m => m.onSlots op : Exec (Machine S V × W) Unit) :=
  onMachine hgrows fun m => LogGrows.onSlots (m, ()) op

/-- A contract is about the machine, so it holds on both sides or on neither. -/
theorem contract (hgrows : R.Grows) (asserts : Bool) (violation : Violation)
    (holds : Machine S V → Bool) :
    KeepsAlike R (contract asserts violation holds : Exec (Machine S V × W) Unit) := by
  apply (look holds).bind
  intro fine
  split
  · exact .pure ()
  · apply (record hgrows _).bind
    intro _
    split
    · exact .halt
    · exact .pure ()

/-- A violation that leaves nothing to go on with. -/
theorem violated (hgrows : R.Grows) (violation : Violation) :
    KeepsAlike R (do
      YOrch.onMachine fun m => m.violate violation
      (Exec.halt : Exec (Machine S V × W) α)) :=
  (record hgrows _).bind fun _ => .halt

end KeepsAlike

/-! ## §3. Adapters. -/

section Adapters

variable {R : WorldRel V W} {T : Type}

/-- The result of an exhausted retry comes from the policy, or is the last one. -/
theorem handleRetryExhausted_alike {policy : RetryPolicy W T} (h : policy.Respects R) (raw : T) :
    KeepsAlike R (handleRetryExhausted policy raw : Exec (Machine S V × W) T) := by
  unfold handleRetryExhausted
  cases hpolicy : policy.onExhausted with
  | some exhausted => exact .onWorld (h.onExhausted exhausted hpolicy raw)
  | none => exact .pure raw

/-- Both loops go round as often: attempts and policies answer alike. -/
theorem retryLoop_alike (hgrows : R.Grows) {policy : RetryPolicy W T} (h : policy.Respects R)
    (requestsRetry : T → Bool) {again : Machine S V → Machine S V}
    (hagain : ∀ m, m.events <:+ (again m).events) {invoke : Exec (Machine S V × W) T}
    (hinvoke : KeepsAlike R invoke) (fuel : Nat) :
    KeepsAlike R (retryLoop policy requestsRetry again invoke fuel) := by
  apply (Exec.Sim.iterate (I := fun _ => Beside R) (T := fun _ => Beside R) _
    (fun _ _ _ hst => hst) fuel 0)
  intro retryCount
  have hstep : KeepsAlike R (retryStep policy requestsRetry again invoke retryCount) := by
    apply hinvoke.bind
    intro raw
    split
    · exact .pure _
    · apply (KeepsAlike.onWorld (h.shouldRetry retryCount)).bind
      intro retries
      split
      · exact (handleRetryExhausted_alike h raw).bind fun _ => .pure _
      · exact (KeepsAlike.onMachine hgrows hagain).bind fun _ => .pure _
  apply Exec.Sim.post hstep
  rintro (_ | _) s t hst
  · exact hst
  · exact hst

/-- By the adapters of the stack, through `invoke_raw`. -/
theorem invokeRaw_alike (hgrows : R.Grows) (fuel : Nat) : ∀ (task : Task)
    (policies : task.Policies (fun task => task.rawKind.Result V) W)
    {attempt : Exec (Machine S V × W) (task.bound.rawResultType.rawKind.Result V)},
    task.PoliciesRespect R policies → KeepsAlike R attempt →
    KeepsAlike R (invokeRaw fuel task policies attempt)
  | .base _, _, _, _, hattempt => hattempt
  | .catchFailureTask task, policies, _, h, hattempt => by
      apply Exec.Sim.catchAll
      · exact (invokeRaw_alike hgrows fuel task policies h hattempt).bind fun _ => .pure _
      · exact .ofOption (fun _ _ _ _ hst => hst) fun _ _ _ hst => hst
  | .catchFailureWithPolicyTask _ task, (policy, policies), _, h, hattempt => by
      apply Exec.Sim.catchAll
      · exact (invokeRaw_alike hgrows fuel task policies h.2 hattempt).bind fun _ => .pure _
      · exact KeepsAlike.onWorld h.1
  | .retryTask task, (policy, policies), attempt, h, hattempt => by
      have hinner := invokeRaw_alike hgrows fuel task policies h.2 hattempt
      show KeepsAlike R (retryInvokeRaw task.rawKind policy
        (invokeRaw fuel task policies attempt) fuel)
      unfold retryInvokeRaw
      split
      · exact retryLoop_alike hgrows h.1 _ (fun _ => List.suffix_refl _) hinner fuel
      · exact hinner

/-- The same through `invoke_into`, whose cleanup only touches the machine. -/
theorem invokeInto_alike (hgrows : R.Grows) (fuel : Nat) {cleanUp : Machine S V → Machine S V}
    (hclean : ∀ m, m.events <:+ (cleanUp m).events) {attempt : Exec (Machine S V × W) StepResult}
    (hattempt : KeepsAlike R attempt) : ∀ (task : Task)
    (policies : task.Policies (fun _ => StepResult) W), task.PoliciesRespect R policies →
    KeepsAlike R (invokeInto fuel cleanUp attempt task policies)
  | .base _, _, _ => hattempt
  | .catchFailureTask task, policies, h =>
      Exec.Sim.catchAll (invokeInto_alike hgrows fuel hclean hattempt task policies h)
        (KeepsAlike.pure _)
  | .catchFailureWithPolicyTask _ task, (_, policies), h =>
      Exec.Sim.catchAll (invokeInto_alike hgrows fuel hclean hattempt task policies h.2)
        (KeepsAlike.onWorld h.1)
  | .retryTask task, (_, policies), h =>
      retryLoop_alike hgrows h.1 _ hclean
        (invokeInto_alike hgrows fuel hclean hattempt task policies h.2) fuel

end Adapters

/-! ## §4. Entering a node. -/

section Node

variable {R : WorldRel V W} {api : SlotsApi V S} {p : Program V W} {i : Nat}

/-- Resolving a prev-access spec copies or moves an object. -/
theorem Program.Respects.resolvePrev (h : p.Respects R) (binding : Spec × CppType) (v : V) :
    Alike R fun w => (((p.resolvePrev binding v w).1, (p.resolvePrev binding v w).2.1),
      (p.resolvePrev binding v w).2.2) := by
  intro events w u hR
  have hcopy := h.copy v events w u hR
  have hmove := h.move v events w u hR
  unfold Program.resolvePrev
  cases binding.1.kind with
  | copy => exact ⟨Prod.ext hcopy.1 rfl, hcopy.2⟩
  | consume =>
      dsimp only
      split
      · exact ⟨rfl, hR⟩
      · exact hmove
  | borrow | borrowMut | none => exact ⟨rfl, hR⟩

/-- Prev access goes through copies and moves, other specs through the binding. -/
theorem resolveAs_alike (h : p.Respects R) (hi : i < p.plan.nodeCount)
    (binding : Spec × CppType) : KeepsAlike (R.entered i) (resolveAs api p i binding) := by
  have hgrows := h.grows.entered i
  unfold resolveAs
  split
  · apply (KeepsAlike.look _).bind
    intro found
    cases hsource : p.plan.prevSource i with
    | none => exact .violated hgrows _
    | some source =>
        cases found with
        | none => exact .violated hgrows _
        | some v =>
            apply Exec.Sim.bind (S := fun _ => Beside (R.entered i))
            · apply Exec.Sim.act
              rintro ⟨m, w⟩ ⟨m', u⟩ ⟨hm, hR⟩
              obtain rfl : m = m' := hm
              obtain ⟨heq, hleft⟩ := (h.resolvePrev binding v).entered i m.events w u hR
              obtain ⟨harg, hrest⟩ := Prod.mk.inj heq
              -- the record shows the argument, which is the same
              have hsuffix : m.events <:+ (resolveStep api p i binding source
                  (p.resolvePrev binding v w).1 (p.resolvePrev binding v w).2.1 m).events := by
                rw [resolveStep_events]
                exact List.suffix_cons _ _
              dsimp only at harg hrest ⊢
              rw [← harg, ← hrest]
              exact ⟨rfl, rfl, hgrows _ _ _ _ hsuffix hleft⟩
            · intro arg
              split
              · exact KeepsAlike.pure arg
              · exact KeepsAlike.throw
  · apply (KeepsAlike.onWorld (h.argument i hi binding)).bind
    intro returned
    split
    · exact .pure none
    · exact .throw

/-- Arguments are resolved in the same order on both sides. -/
theorem resolveAll_alike (h : p.Respects R) (hi : i < p.plan.nodeCount) :
    ∀ bindings : List (Spec × CppType),
      KeepsAlike (R.entered i) (resolveAll api p i bindings)
  | [] => .pure []
  | binding :: rest =>
      (resolveAs_alike h hi binding).bind fun _ => (resolveAll_alike h hi rest).bind fun _ =>
        .pure _

/-- What a callable wrote through its arguments is written back alike. -/
theorem writeBack_alike (h : p.Respects R) (written : Option V) :
    KeepsAlike (R.entered i) (onMachine (writeBack api p i written)) := by
  apply KeepsAlike.onMachine (h.grows.entered i)
  intro m
  simp only [writeBack_events, List.suffix_refl]

/-- One attempt: arguments that agree, and a body that respects the relation. -/
theorem attemptRaw_alike (h : p.Respects R) (hi : i < p.plan.nodeCount) :
    KeepsAlike (R.entered i) (attemptRaw api p i) := by
  apply (KeepsAlike.record (h.grows.entered i) _).bind
  intro _
  apply (resolveAll_alike h hi _).bind
  intro args
  apply (KeepsAlike.onWorld (h.body i hi args)).bind
  intro result
  exact (writeBack_alike h result.2).bind fun _ => .ofExit result.1

/-- Before a callable's next step: whatever world it leaves, they are related. -/
def SinkReady (R : WorldRel V W) (Q : W → W → Prop) (s t : Machine S V × W) : Prop :=
  Beside R s t ∧ ∀ w u, Q w u → R s.1.events w u

/-- An operation on the sink records more, which keeps the worlds related. -/
theorem SinkReady.step {Q : W → W → Prop} (hgrows : R.Grows) {f : Machine S V → Machine S V}
    {s t : Machine S V × W} (hf : s.1.events <:+ (f s.1).events) (hst : SinkReady R Q s t) :
    SinkReady R Q (f s.1, s.2) (f t.1, t.2) := by
  obtain ⟨⟨hm, hR⟩, hQ⟩ := hst
  exact ⟨⟨congrArg f hm, hgrows _ _ _ _ hf hR⟩, fun w u h => hgrows _ _ _ _ hf (hQ w u h)⟩

/-- **Sinks.**  Callables that do the same, on one sink. -/
theorem runSink_alike (h : p.Respects R) {Q : W → W → Prop} {body body' : SinkBody V W}
    (hbody : SinkAlike Q body body') :
    Exec.Sim (SinkReady (R.entered i) Q) (runSink api p i body) (runSink api p i body')
      (fun _ => Beside (R.entered i)) (Beside (R.entered i)) (Beside (R.entered i)) := by
  have hgrows := h.grows.entered i
  induction hbody with
  | finish exit written hQ =>
      -- only here does a callable let go of the world it has made
      apply Exec.Sim.bind (S := fun _ => Beside (R.entered i))
      · exact Exec.Sim.act fun s t hst => ⟨rfl, hst.1.1, hst.2 _ _ hQ⟩
      · exact fun _ => (writeBack_alike h written).bind fun _ => .ofExit exit
  | hasValue _ ih =>
      apply Exec.Sim.bind (S := fun _ => SinkReady (R.entered i) Q)
      · exact Exec.Sim.reads fun s t hst => ⟨by rw [hst.1.1], hst⟩
      · exact ih
  | emplace payload _ ih =>
      have hemplace : ∀ m : Machine S V, m.events <:+ (emplaceSink api i payload m).events := by
        intro m
        cases payload with
        | none => exact List.suffix_refl _
        | some v => exact LogGrows.onSlots (m, ()) _
      apply Exec.Sim.bind (S := fun _ => SinkReady (R.entered i) Q)
      · apply contract_sim (fun s t hst => by rw [hst.1.1]) fun _ _ hst _ => hst
        intro s t hst _
        have hviolated := hst.step hgrows (f := fun m => m.violate (.emplaceOverLive i))
          (List.suffix_cons _ _)
        exact ⟨hviolated, hviolated.1⟩
      · intro _
        apply Exec.Sim.bind (S := fun _ => SinkReady (R.entered i) Q)
        · exact Exec.Sim.modify fun s t hst => hst.step hgrows (hemplace s.1)
        · exact fun _ => ih
  | destroy _ ih =>
      apply Exec.Sim.bind (S := fun _ => SinkReady (R.entered i) Q)
      · exact Exec.Sim.modify fun s t hst =>
          hst.step hgrows (f := fun m => m.onSlots (api.outDestroy i)) (LogGrows.onSlots s _)
      · exact fun _ => ih

/-- One attempt of a direct-output task. -/
theorem attemptInto_alike (h : p.Respects R) (hi : i < p.plan.nodeCount) :
    KeepsAlike (R.entered i) (attemptInto api p i) := by
  apply (KeepsAlike.record (h.grows.entered i) _).bind
  intro _
  apply (resolveAll_alike h hi _).bind
  intro args s t hst
  -- the two worlds may give the callable two bodies
  apply runSink_alike h (h.sinkBody i hi args s.1.events s.2 t.2 hst.2)
  exact ⟨hst, fun _ _ hQ => hQ⟩

/-- Cleaning up records what is destroyed. -/
theorem cleanUpSink_events (m : Machine S V) : m.events <:+ (cleanUpSink api i m).events := by
  unfold cleanUpSink
  split
  · exact LogGrows.onSlots (m, ()) _
  · exact List.suffix_refl _

theorem moveIntoSlot_alike (h : p.Respects R) (v : V) :
    KeepsAlike (R.entered i) (moveIntoSlot api p i v) := by
  have hmove : Alike (R.entered i) fun w => ((p.move w v).1, (p.move w v).2.2) := by
    intro events w u hR
    obtain ⟨heq, hleft⟩ := (h.move v).entered i events w u hR
    exact ⟨(Prod.mk.inj heq).1, hleft⟩
  apply (KeepsAlike.onWorld hmove).bind
  intro stored
  cases stored with
  | none => exact .throw
  | some v => exact .onSlots (h.grows.entered i) _

/-- What is stored is the payload that both sides return. -/
theorem storeNodeOutput_alike (h : p.Respects R) : ∀ (kind : RawKind) (raw : kind.Result V),
    KeepsAlike (R.entered i) (storeNodeOutput api p i kind raw)
  | .void, _ | .step, _ => .pure false
  | .taskResult, ⟨_, none⟩ => .violated (h.grows.entered i) _
  | .taskResult, ⟨_, some v⟩ => (moveIntoSlot_alike h v).bind fun _ => .pure true
  | .value, v => (moveIntoSlot_alike h v).bind fun _ => .pure true

/-- The whole entry of a direct-output node. -/
theorem enterInto_alike (h : p.Respects R) (hi : i < p.plan.nodeCount) (fuel : Nat) :
    KeepsAlike (R.entered i) (enterInto api p fuel i) := by
  have hgrows := h.grows.entered i
  have hinvoke : KeepsAlike (R.entered i) (invokeNodeInto api p fuel i) :=
    invokeInto_alike hgrows fuel cleanUpSink_events (attemptInto_alike h hi) (p.plan.task i) _
      (h.policiesInto i hi)
  apply Exec.Sim.bind (Exec.Sim.noexcept hinvoke fun _ _ hst => hst)
  intro step
  apply KeepsAlike.bind
  · unfold finalizeDirectOutputStep
    split
    · exact (KeepsAlike.contract hgrows _ _ _).bind fun _ => .pure step
    · exact (KeepsAlike.onSlots hgrows _).bind fun _ => .pure step
  intro step
  split
  · exact (KeepsAlike.record hgrows _).bind fun _ => .pure _
  · exact .pure _

/-- The whole entry of any other node. -/
theorem enterRaw_alike (h : p.Respects R) (hi : i < p.plan.nodeCount) (fuel : Nat) :
    KeepsAlike (R.entered i) (enterRaw api p fuel i) := by
  have hgrows := h.grows.entered i
  have hattempt : KeepsAlike (R.entered i) (attemptRaw api p i) := attemptRaw_alike h hi
  have hinvoke := invokeRaw_alike hgrows fuel (p.plan.task i) (p.behaviour i).policies
    (h.policies i hi) hattempt
  apply Exec.Sim.bind (Exec.Sim.noexcept hinvoke fun _ _ hst => hst)
  intro raw
  split
  · apply (storeNodeOutput_alike h _ raw).bind
    intro payloadLive
    exact (KeepsAlike.record hgrows _).bind fun _ => .pure _
  · exact KeepsAlike.pure _

/-- **A node's entry.** -/
theorem enterNode_alike (h : p.Respects R) (hi : i < p.plan.nodeCount) (fuel : Nat) :
    KeepsAlike R (enterNode api p fuel i) := by
  -- from its record on, the node counts as entered
  apply Exec.Sim.bind (S := fun _ => Beside (R.entered i))
  · apply Exec.Sim.modify
    rintro ⟨m, w⟩ ⟨m', u⟩ ⟨hm, hR⟩
    obtain rfl : m = m' := hm
    exact ⟨rfl, ⟨_, List.mem_cons_self⟩, h.grows _ _ w u (List.suffix_cons _ _) hR⟩
  · intro _
    have hforget : ∀ s t : Machine S V × W, Beside (R.entered i) s t → Beside R s t :=
      fun _ _ hst => ⟨hst.1, hst.2.2⟩
    split
    · exact (enterInto_alike h hi fuel).conseq (fun _ _ => id) (fun _ => hforget) hforget hforget
    · exact (enterRaw_alike h hi fuel).conseq (fun _ _ => id) (fun _ => hforget) hforget hforget

/-- Both sides copy the same payload, or find none. -/
theorem stageFanout_alike (h : p.Respects R) (i : Nat) : KeepsAlike R (stageFanout api p i) := by
  apply (KeepsAlike.look _).bind
  intro found
  cases found with
  | none => exact .violated h.grows _
  | some v =>
      apply (KeepsAlike.onWorld (h.copy v)).bind
      intro copied
      cases copied with
      | none => exact .throw
      | some v => exact .onMachine h.grows fun m => List.suffix_cons _ _

end Node

/-! ## §5. Runs. -/

section Traversal

variable {σ τ : Type} {R : σ → τ → Prop} {ops : DfsOps σ} {ops' : DfsOps τ} {n : Nat}

/-- Two sets of node operations keep a relation. -/
structure OpsAlike (R : σ → τ → Prop) (n : Nat) (ops : DfsOps σ) (ops' : DfsOps τ) : Prop where
  staging : ops'.requiresStaging = ops.requiresStaging
  enter : ∀ i < n, Exec.Sim R (ops.enterNode i) (ops'.enterNode i) (fun _ => R) R R
  stage : ∀ i < n, Exec.Sim R (ops.stage i) (ops'.stage i) (fun _ => R) R R
  unstage : ∀ i s t, R s t → R (ops.unstage i s) (ops'.unstage i t)
  destroy : ∀ i s t, R s t → R (ops.destroyPayload i s) (ops'.destroyPayload i t)

namespace OpsAlike

/-- A node, given that what is below it is simulated. -/
theorem dfsNode (h : OpsAlike R n ops ops') (unwind : Bool) {i : Nat} (hi : i < n)
    {below : Exec σ StepResult} {below' : Exec τ StepResult}
    (hbelow : Exec.Sim R below below' (fun _ => R) R R) :
    Exec.Sim R (dfsNode unwind ops i below) (dfsNode unwind ops' i below') (fun _ => R) R R := by
  have hstaging : ∀ s t, R s t →
      R (ops.destroyFanoutStaging i s) (ops'.destroyFanoutStaging i t) := by
    intro s t hst
    unfold DfsOps.destroyFanoutStaging
    rw [h.staging]
    cases ops.requiresStaging i with
    | true => exact h.unstage i s t hst
    | false => exact hst
  have hprepare : Exec.Sim R (ops.prepareFanoutStaging i) (ops'.prepareFanoutStaging i)
      (fun _ => R) R R := by
    unfold DfsOps.prepareFanoutStaging
    rw [h.staging]
    split
    · exact h.stage i hi
    · exact .pure fun _ _ hst => hst
  apply (h.enter i hi).bind
  intro entered
  have hdestroy : ∀ s t, R s t → R (bif entered.payloadLive then ops.destroyPayload i s else s)
      (bif entered.payloadLive then ops'.destroyPayload i t else t) := by
    intro s t hst
    cases entered.payloadLive with
    | true => exact h.destroy i s t hst
    | false => exact hst
  -- on an exception a cleanup happens on both sides or on neither
  have hthrown : ∀ {f : σ → σ} {g : τ → τ}, (∀ s t, R s t → R (f s) (g t)) → ∀ s t, R s t →
      R (bif unwind then f s else s) (bif unwind then g t else t) := by
    intro f g hfg s t hst
    cases unwind with
    | true => exact hfg s t hst
    | false => exact hst
  split
  · refine Exec.Sim.onExit ?_ (fun _ => hdestroy) (hthrown hdestroy)
    apply hprepare.bind
    intro _
    exact hbelow.onExit (fun _ => hstaging) (hthrown hstaging)
  · exact .pure fun _ _ hst => hst

/-- By the forest: each child in turn, and the rest if it came to that. -/
theorem dfsChildren (h : OpsAlike R n ops ops') (unwind : Bool) :
    ∀ f : Forest Nat, (∀ i ∈ f.preorder, i < n) →
      Exec.Sim R (dfsChildren unwind ops f) (dfsChildren unwind ops' f) (fun _ => R) R R
  | .nil, _ => .pure fun _ _ hst => hst
  | .cons i below rest, hlt => by
      obtain ⟨hi, hbelow, hrest⟩ := Forest.forall_preorder_cons.mp hlt
      apply (h.dfsNode unwind hi (dfsChildren h unwind below hbelow)).bind
      intro step
      -- both skip the later siblings, or neither does
      split
      · exact .pure fun _ _ hst => hst
      · exact dfsChildren h unwind rest hrest

end OpsAlike

end Traversal

section Runs

variable {R : WorldRel V W} {p : Program V W}

/-- The executors are given operations that are simulated. -/
theorem nodeOps_alike (api : SlotsApi V S) (h : p.Respects R) (fuel : Nat) :
    OpsAlike (Beside R) p.plan.nodeCount (nodeOps api p fuel) (nodeOps api p fuel) where
  staging := rfl
  enter _ hi := enterNode_alike h hi fuel
  stage i _ := stageFanout_alike h i
  unstage i s _ hst :=
    ⟨congrArg (fun m => m.destroyStage i) hst.1,
      h.grows _ _ _ _ (LogGrows.destroyStage s i) hst.2⟩
  destroy i s _ hst :=
    ⟨congrArg (fun m => m.onSlots (api.destroy i)) hst.1,
      h.grows _ _ _ _ (LogGrows.onSlots s _) hst.2⟩

/-- **Related worlds.**  Started in related worlds, a program all of whose calls
respect the relation exits the same way from both, records the same and leaves
related worlds. -/
theorem run_alike (api : SlotsApi V S) (h : p.Respects R) (exec : ExecPolicy) (fuel : Nat)
    {w u : W} (hstart : R [] w u) :
    (runFrom api p exec fuel w).1 = (runFrom api p exec fuel u).1
      ∧ (runFrom api p exec fuel w).2.1 = (runFrom api p exec fuel u).2.1
      ∧ R (runFrom api p exec fuel w).2.1.events (runFrom api p exec fuel w).2.2
        (runFrom api p exec fuel u).2.2 := by
  have hops := nodeOps_alike api h fuel
  have htraversal : KeepsAlike R (traversal api p exec fuel) := by
    apply hops.dfsNode exec.unwinds p.plan.nodeCount_pos
    apply hops.dfsChildren exec.unwinds
    exact fun i hi => ((p.plan.below_preorder.2.2 i).mp hi).2
  have hleave : ∀ s t : Machine S V × W, Beside R s t →
      Beside R (leaveRun api p s.1, s.2) (leaveRun api p t.1, t.2) := by
    intro s t hst
    obtain ⟨log, hlog⟩ := leaveRun_events api p s.1
    refine ⟨congrArg (leaveRun api p) hst.1, h.grows _ _ _ _ ?_ hst.2⟩
    show s.1.events <:+ (leaveRun api p s.1).events
    rw [hlog]
    exact List.suffix_append _ _
  have hrun : KeepsAlike R (runPlan api p exec fuel) := by
    unfold KeepsAlike
    rw [runPlan_eq]
    exact Exec.Sim.onExit htraversal (fun _ => hleave) hleave
  exact (hrun ({ slots := api.initial }, w) ({ slots := api.initial }, u) ⟨rfl, hstart⟩).same

end Runs

end YOrch
