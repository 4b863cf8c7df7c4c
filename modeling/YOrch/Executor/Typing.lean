/-
  YOrch.Executor.Typing — objects are read with the types they were made with.

  Slots and staged copies are bytes that `get` casts to the type a node's view
  was given.  `WellTyped` says of a machine on the ideal backend that whatever
  they hold has that type.  It survives everything a run does, as long as
  callables, constructors and policies make objects of the types they declare.

  The triples also say who throws and who halts: an attempt throws only where
  `throws` allows it, and a computation halts after a recorded violation or
  where `halts` does.

    • `enterNode_outcome`, `outcome_run` — the step and the run,
    • `run_well_typed` — what it says of the log, for every layout and executor.
-/
import YOrch.Executor.EmptySlots
import YOrch.Executor.Outcomes

namespace YOrch

open Library

variable {V W : Type}

/-! ## §1. Types of objects. -/

/-- A raw result whose value, if any, has type `T`. -/
def RawKind.Carries (typeOf : V → CppType) (T : CppType) : (kind : RawKind) → kind.Result V → Prop
  | .void, _ => True
  | .step, _ => True
  | .taskResult, raw => ∀ v, raw.value = some v → typeOf v = T
  | .value, v => typeOf v = T

namespace SinkBody

/-- The callable constructs payloads of type `T`, and leaves an object of type
`prev` where it writes to its parent's. -/
def WellTyped (typeOf : V → CppType) (T prev : CppType) : SinkBody V W → Prop
  | .finish _ written _ => ∀ v, written = some v → typeOf v = prev
  | .hasValue next => ∀ live, (next live).WellTyped typeOf T prev
  | .emplace payload next => (∀ v, payload = some v → typeOf v = T) ∧ next.WellTyped typeOf T prev
  | .destroy next => next.WellTyped typeOf T prev

/-- What the callable's exits satisfy. -/
def Exits (Q : Exit StepResult → Prop) : SinkBody V W → Prop
  | .finish exit _ _ => Q exit
  | .hasValue next => ∀ live, (next live).Exits Q
  | .emplace _ next => next.Exits Q
  | .destroy next => next.Exits Q

theorem exits_of_forall {Q : Exit StepResult → Prop} (h : ∀ exit, Q exit) :
    ∀ body : SinkBody V W, body.Exits Q
  | .finish exit _ _ => h exit
  | .hasValue next => fun live => exits_of_forall h (next live)
  | .emplace _ next => exits_of_forall h next
  | .destroy next => exits_of_forall h next

theorem exits_of_both {Q Q' R : Exit StepResult → Prop} (h : ∀ exit, Q exit → Q' exit → R exit) :
    ∀ body : SinkBody V W, body.Exits Q → body.Exits Q' → body.Exits R
  | .finish exit _ _, hq, hq' => h exit hq hq'
  | .hasValue next, hq, hq' => fun live => exits_of_both h (next live) (hq live) (hq' live)
  | .emplace _ next, hq, hq' => exits_of_both h next hq hq'
  | .destroy next, hq, hq' => exits_of_both h next hq hq'

end SinkBody

/-- The type of what a node reads from its parent. -/
def CompiledPlan.prevType (plan : CompiledPlan) (i : Nat) : CppType :=
  plan.objectType (plan.parentIndex i)

/-- An exit that throws or halts only if it may. -/
structure ExitAllowed {α : Type} (throws halts : Prop) (exit : Exit α) : Prop where
  thrown : exit = .thrown → throws
  halted : exit = .halted → halts

namespace Program

variable (p : Program V W) (typeOf : V → CppType)

/-- Everything makes objects of the types it declares. -/
structure WellTyped : Prop where
  copy : ∀ w v v', (p.copy w v).1 = some v' → typeOf v' = typeOf v
  move : ∀ w v v', (p.move w v).1 = some v' → typeOf v' = typeOf v
  moved : ∀ w v, typeOf (p.move w v).2.1 = typeOf v
  body : ∀ i < p.plan.nodeCount, ∀ args w, (∀ v ∈ args, typeOf v = p.plan.prevType i) →
    (∀ raw, ((p.behaviour i).body args w).1.1 = .ret raw →
        RawKind.Carries typeOf (p.plan.objectType i) _ raw)
      ∧ ∀ v, ((p.behaviour i).body args w).1.2 = some v → typeOf v = p.plan.prevType i
  sink : ∀ i < p.plan.nodeCount, ∀ args w, (∀ v ∈ args, typeOf v = p.plan.prevType i) →
    ((p.behaviour i).sinkBody args w).WellTyped typeOf (p.plan.objectType i) (p.plan.prevType i)
  policies : ∀ i < p.plan.nodeCount, (p.plan.task i).PoliciesKeep
    (fun task => RawKind.Carries typeOf (p.plan.objectType i) task.rawKind) (p.behaviour i).policies

/-- Node `i`'s attempts throw only if `throws i`, and its callable halts only if
`halts`. -/
structure Raises (throws : Nat → Prop) (halts : Prop) : Prop where
  argument : ∀ i < p.plan.nodeCount, ∀ binding ∈ (p.behaviour i).evaluated,
    binding.1.isPrevAccess = false → ∀ w, ((p.behaviour i).argument binding w).1 = false → throws i
  prev : ∀ i < p.plan.nodeCount, ∀ binding ∈ (p.behaviour i).evaluated, binding.1.isPrevAccess →
    ∀ w v, typeOf v = p.plan.prevType i → (p.resolvePrev binding v w).1 = none → throws i
  body : ∀ i < p.plan.nodeCount, ∀ args w, (∀ v ∈ args, typeOf v = p.plan.prevType i) →
    ExitAllowed (throws i) halts ((p.behaviour i).body args w).1.1
  sink : ∀ i < p.plan.nodeCount, ∀ args w, (∀ v ∈ args, typeOf v = p.plan.prevType i) →
    ((p.behaviour i).sinkBody args w).Exits (ExitAllowed (throws i) halts)

theorem raises_anything : p.Raises typeOf (fun _ => True) True where
  argument _ _ _ _ _ _ _ := trivial
  prev _ _ _ _ _ _ _ _ _ := trivial
  body _ _ _ _ _ := ⟨fun _ => trivial, fun _ => trivial⟩
  sink _ _ _ _ _ := SinkBody.exits_of_forall (fun _ => ⟨fun _ => trivial, fun _ => trivial⟩) _

end Program

/-! ## §2. Machines. -/

/-- The objects an event shows have the types of their nodes. -/
def Event.WellTyped (plan : CompiledPlan) (typeOf : V → CppType) : Event V → Prop
  | .entered node prev => ∀ v, prev = some v → typeOf v = plan.prevType node
  | .resolved node _ _ arg => ∀ v, arg = some v → typeOf v = plan.prevType node
  | .finished node payload => ∀ v, payload = some v → typeOf v = plan.objectType node
  | .attempted _ _ | .memory _ | .violated _ => True

/-- Every object has the type of the node that constructed it. -/
structure WellTyped (plan : CompiledPlan) (typeOf : V → CppType)
    (m : Machine (Nat → Option V) V) : Prop where
  slots : ∀ i v, m.slots i = some v → typeOf v = plan.objectType i
  stage : ∀ q v, m.stage q = some v → typeOf v = plan.objectType q
  log : ∀ event ∈ m.events, event.WellTyped plan typeOf

/-- The last thing recorded is a violation. -/
def JustViolated {S : Type} (m : Machine S V) : Prop :=
  ∃ violation rest, m.events = .violated violation :: rest

namespace WellTyped

variable {plan : CompiledPlan} {typeOf : V → CppType} {m m' : Machine (Nat → Option V) V} {i : Nat}

theorem initial : WellTyped plan typeOf
    ({ slots := fun _ => none } : Machine (Nat → Option V) V) where
  slots _ _ h := by cases h
  stage _ _ h := by cases h
  log _ h := by cases h

theorem record (h : WellTyped plan typeOf m) {event : Event V}
    (hevent : event.WellTyped plan typeOf) : WellTyped plan typeOf (m.record event) where
  slots := h.slots
  stage := h.stage
  log e he := by
    rcases List.mem_cons.mp he with rfl | he
    · exact hevent
    · exact h.log e he

/-- Only memory events, and no object of another type. -/
theorem change (h : WellTyped plan typeOf m) (log : List MemoryEvent)
    (hslots : ∀ j v, m'.slots j = some v → typeOf v = plan.objectType j)
    (hstage : ∀ q v, m'.stage q = some v → typeOf v = plan.objectType q)
    (hevents : m'.events = log.map .memory ++ m.events) : WellTyped plan typeOf m' where
  slots := hslots
  stage := hstage
  log e he := by
    rw [hevents, List.mem_append] at he
    rcases he with he | he
    · obtain ⟨e, -, rfl⟩ := List.mem_map.mp he
      trivial
    · exact h.log e he

/-- Replacing one node's object. -/
theorem slots_update (h : WellTyped plan typeOf m) {o : Option V}
    (ho : ∀ v, o = some v → typeOf v = plan.objectType i) :
    ∀ j v, Function.update m.slots i o j = some v → typeOf v = plan.objectType j := by
  intro j v hv
  by_cases hj : j = i
  · subst hj
    rw [Function.update_self] at hv
    exact ho v hv
  · rw [Function.update_of_ne hj] at hv
    exact h.slots j v hv

theorem emplace (h : WellTyped plan typeOf m) {v : V} (hv : typeOf v = plan.objectType i) :
    WellTyped plan typeOf (m.onSlots (idealEmplace i v)) := by
  refine h.change ((idealEmplace i v m.slots).1).reverse ?_ h.stage rfl
  apply h.slots_update
  intro v' hv'
  rw [← Option.some.inj hv']
  exact hv

theorem destroy (h : WellTyped plan typeOf m) (i : Nat) :
    WellTyped plan typeOf (m.onSlots (idealDestroy i)) := by
  refine h.change ((idealDestroy i m.slots).1).reverse ?_ h.stage rfl
  rw [Machine.onSlots_slots, idealDestroy_slots]
  exact h.slots_update fun v hv => by cases hv

theorem destroyStage (h : WellTyped plan typeOf m) (q : Nat) :
    WellTyped plan typeOf (m.destroyStage q) := by
  obtain ⟨log, hevents, -⟩ := m.destroyStage_memory q
  refine h.change log (by rw [Machine.destroyStage_slots]; exact h.slots) ?_ hevents
  intro q' v hv
  rw [Machine.destroyStage_stage] at hv
  by_cases hq : q' = q
  · subst hq
    rw [Function.update_self] at hv
    cases hv
  · rw [Function.update_of_ne hq] at hv
    exact h.stage q' v hv

theorem emplaceStage (h : WellTyped plan typeOf m) {q : Nat} {v : V}
    (hv : typeOf v = plan.objectType q) : WellTyped plan typeOf (m.emplaceStage q v) := by
  refine h.change [.constructed (.stage q) ((m.stage q).map fun _ => .stage q)] h.slots ?_ rfl
  intro q' v' hv'
  have hv' : Function.update m.stage q (some v) q' = some v' := hv'
  by_cases hq : q' = q
  · subst hq
    rw [Function.update_self] at hv'
    rw [← Option.some.inj hv']
    exact hv
  · rw [Function.update_of_ne hq] at hv'
    exact h.stage q' v' hv'

end WellTyped

/-! ## §3. One node. -/

section Node

variable {p : Program V W} {typeOf : V → CppType} {throws : Nat → Prop} {halts : Prop} {i : Nat}

/-- The machine is well typed. -/
def Typed (p : Program V W) (typeOf : V → CppType) (s : Machine (Nat → Option V) V × W) : Prop :=
  WellTyped p.plan.toCompiledPlan typeOf s.1

/-- A well-typed machine that may have stopped for good. -/
def Stopped (p : Program V W) (typeOf : V → CppType) (halts : Prop)
    (s : Machine (Nat → Option V) V × W) : Prop :=
  Typed p typeOf s ∧ (halts ∨ JustViolated s.1)

/-- The owner of a node's payload is of the node's type. -/
theorem objectType_owner {q : Nat} (hq : q < p.plan.nodeCount)
    (hvoid : (p.plan.outputType q).isVoid = false) :
    p.plan.objectType (p.plan.canonicalOutputOwnerNode q) = p.plan.objectType q := by
  have hchain := CompiledPlan.owner_of_chain p.plan.checks.1 q hq hvoid
  have hmem := (CompiledPlan.owner_chain p.plan.checks.1 q hq hvoid).1
  exact congrArg CppType.removeCv (hchain _ hmem (Nat.le_refl _)).2

/-- What a node's prev view is bound to. -/
theorem WellTyped.readPrev {m : Machine (Nat → Option V) V}
    (h : WellTyped p.plan.toCompiledPlan typeOf m) (hi : i < p.plan.nodeCount) {v : V}
    (hv : readPrev (idealSlots p.plan.toCompiledPlan V) p i m = some v) :
    typeOf v = p.plan.prevType i := by
  cases hsource : p.plan.prevSource i with
  | none =>
      rw [YOrch.readPrev, hsource] at hv
      cases hv
  | some source =>
      cases source with
      | stage q =>
          rw [readPrev_stage _ _ hsource] at hv
          -- a staged copy is one of the parent's payload
          have hq : q = p.plan.parentIndex i := by
            rw [CompiledPlan.prevSource] at hsource
            split_ifs at hsource
            · exact (PrevSource.stage.inj (Option.some.inj hsource)).symm
            · cases hsource
          rw [hq] at hv
          exact h.stage _ v hv
      | slot o =>
          obtain ⟨hparent, hvoid, -⟩ := ValidPlan.parent_of_source hi hsource
          rw [readPrev_slot _ _ hsource] at hv
          exact (h.slots _ v hv).trans (objectType_owner hparent hvoid)

/-- Assigning to the parent's object. -/
theorem WellTyped.writePrev {m : Machine (Nat → Option V) V}
    (h : WellTyped p.plan.toCompiledPlan typeOf m) (hi : i < p.plan.nodeCount) {v : V}
    (hv : typeOf v = p.plan.prevType i) : WellTyped p.plan.toCompiledPlan typeOf
      (writePrev (idealSlots p.plan.toCompiledPlan V) p i v m) := by
  unfold YOrch.writePrev
  cases hsource : p.plan.prevSource i with
  | none => exact h
  | some source =>
      cases source with
      | stage q => exact h
      | slot o =>
          dsimp only
          split
          · obtain ⟨hparent, hvoid, -⟩ := ValidPlan.parent_of_source hi hsource
            refine h.change [] ?_ h.stage rfl
            apply h.slots_update
            intro v' hv'
            rw [Option.map_eq_some_iff] at hv'
            obtain ⟨-, -, rfl⟩ := hv'
            exact hv.trans (objectType_owner hparent hvoid).symm
          · exact h

theorem WellTyped.resolveStep {m : Machine (Nat → Option V) V}
    (h : WellTyped p.plan.toCompiledPlan typeOf m) (hi : i < p.plan.nodeCount)
    (binding : Spec × CppType) (source : PrevSource) {arg : Option V} {left : V}
    (harg : ∀ v, arg = some v → typeOf v = p.plan.prevType i)
    (hleft : typeOf left = p.plan.prevType i) : WellTyped p.plan.toCompiledPlan typeOf
      (resolveStep (idealSlots p.plan.toCompiledPlan V) p i binding source arg left m) := by
  have hrecord : WellTyped p.plan.toCompiledPlan typeOf
      (m.record (.resolved i binding.1.kind source arg)) := h.record harg
  unfold YOrch.resolveStep
  dsimp only
  split
  · exact hrecord.writePrev hi hleft
  · exact hrecord

theorem WellTyped.writeBack {m : Machine (Nat → Option V) V}
    (h : WellTyped p.plan.toCompiledPlan typeOf m) (hi : i < p.plan.nodeCount)
    {written : Option V} (hwritten : ∀ v, written = some v → typeOf v = p.plan.prevType i) :
    WellTyped p.plan.toCompiledPlan typeOf
      (writeBack (idealSlots p.plan.toCompiledPlan V) p i written m) := by
  unfold YOrch.writeBack
  cases written with
  | none => exact h
  | some v =>
      dsimp only
      split
      · exact h.writePrev hi (hwritten v rfl)
      · exact h

/-- An argument taken from an object of type `T`, and what is left of it. -/
theorem Program.WellTyped.resolvePrev (h : p.WellTyped typeOf) (binding : Spec × CppType) (v : V)
    (w : W) : (∀ v', (p.resolvePrev binding v w).1 = some v' → typeOf v' = typeOf v)
      ∧ typeOf (p.resolvePrev binding v w).2.1 = typeOf v := by
  have hbound : ∀ v', some v = some v' → typeOf v' = typeOf v := by
    intro v' hv'
    rw [Option.some.inj hv']
  unfold Program.resolvePrev
  cases binding.1.kind with
  | copy => exact ⟨h.copy w v, rfl⟩
  | consume =>
      dsimp only
      split
      · exact ⟨hbound, rfl⟩
      · exact ⟨h.move w v, h.moved w v⟩
  | borrow | borrowMut | none => exact ⟨hbound, rfl⟩

/-- A violation after which there is nothing to go on with. -/
theorem violate_outcome {α : Type} {Q : α → Machine (Nat → Option V) V × W → Prop}
    {E : Machine (Nat → Option V) V × W → Prop} (violation : Violation) :
    Exec.Triple (Typed p typeOf)
      (onMachine (fun m => m.violate violation) >>= fun _ => Exec.halt) Q E
      (Stopped p typeOf halts) := by
  apply Exec.Triple.bind (Q := fun _ => Stopped p typeOf halts)
  · exact .modify fun s hs => ⟨WellTyped.record hs trivial, Or.inr ⟨_, _, rfl⟩⟩
  · exact fun _ => .halt fun _ hs => hs

/-- A failed assertion stops the program right after it is recorded. -/
theorem contract_outcome {E : Machine (Nat → Option V) V × W → Prop} (asserts : Bool)
    (violation : Violation) (holds : Machine (Nat → Option V) V → Bool) :
    Exec.Triple (Typed p typeOf) (contract asserts violation holds) (fun _ => Typed p typeOf) E
      (Stopped p typeOf halts) := by
  unfold contract
  apply Exec.Triple.bind (Q := fun _ => Typed p typeOf) (.reads fun _ hs => hs)
  intro fine
  cases fine with
  | true => exact .pure fun _ hs => hs
  | false =>
      apply Exec.Triple.bind (Q := fun _ s => Typed p typeOf s ∧ JustViolated s.1)
      · exact .modify fun s hs => ⟨WellTyped.record hs trivial, _, _, rfl⟩
      · intro _
        cases asserts with
        | true => exact .halt fun s hs => ⟨hs.1, Or.inr hs.2⟩
        | false => exact .pure fun s hs => hs.1

section Attempts

variable (htyped : p.WellTyped typeOf) (hraises : p.Raises typeOf throws halts)
  (hi : i < p.plan.nodeCount)

include htyped hraises hi

/-- Resolving one spec. -/
theorem resolveAs_outcome {binding : Spec × CppType}
    (hbinding : binding ∈ (p.behaviour i).evaluated) :
    Exec.Triple (Typed p typeOf) (resolveAs (idealSlots p.plan.toCompiledPlan V) p i binding)
      (fun arg s => Typed p typeOf s ∧ ∀ v, arg = some v → typeOf v = p.plan.prevType i)
      (fun s => Typed p typeOf s ∧ throws i) (Stopped p typeOf halts) := by
  unfold resolveAs
  by_cases hprev : binding.1.isPrevAccess
  · rw [if_pos hprev]
    have hlook : Exec.Triple (Typed p typeOf)
        (look (readPrev (idealSlots p.plan.toCompiledPlan V) p i))
        (fun found s => Typed p typeOf s ∧ ∀ v, found = some v → typeOf v = p.plan.prevType i)
        (fun s => Typed p typeOf s ∧ throws i) (Stopped p typeOf halts) :=
      .reads fun s hs => ⟨hs, fun v hv => hs.readPrev hi hv⟩
    apply hlook.bind
    intro found
    apply Exec.Triple.given
    intro hfound
    -- without an object to read the run ends with the violation
    cases p.plan.prevSource i with
    | none => exact violate_outcome _
    | some source =>
        cases found with
        | none => exact violate_outcome _
        | some v =>
            have hv := hfound v rfl
            have hact : Exec.Triple (Typed p typeOf)
                (Exec.act fun s => ((p.resolvePrev binding v s.2).1,
                  (resolveStep (idealSlots p.plan.toCompiledPlan V) p i binding source
                    (p.resolvePrev binding v s.2).1 (p.resolvePrev binding v s.2).2.1 s.1,
                  (p.resolvePrev binding v s.2).2.2)))
                (fun arg s => Typed p typeOf s
                  ∧ (∀ v, arg = some v → typeOf v = p.plan.prevType i) ∧ (arg = none → throws i))
                (fun s => Typed p typeOf s ∧ throws i) (Stopped p typeOf halts) := by
              apply Exec.Triple.act
              intro s hs
              obtain ⟨harg, hleft⟩ := htyped.resolvePrev binding v s.2
              have harg' : ∀ v', (p.resolvePrev binding v s.2).1 = some v' →
                  typeOf v' = p.plan.prevType i := fun v' hv' => (harg v' hv').trans hv
              exact ⟨hs.resolveStep hi binding source harg' (hleft.trans hv), harg',
                hraises.prev i hi binding hbinding hprev s.2 v hv⟩
            apply hact.bind
            intro arg
            cases arg with
            | none => exact .throw fun s hs => ⟨hs.1, hs.2.2 rfl⟩
            | some v' => exact .pure fun s hs => ⟨hs.1, hs.2.1⟩
  · rw [if_neg hprev]
    have hargument : Exec.Triple (Typed p typeOf)
        (onWorld ((p.behaviour i).argument binding))
        (fun returned s => Typed p typeOf s ∧ (returned = false → throws i))
        (fun s => Typed p typeOf s ∧ throws i) (Stopped p typeOf halts) :=
      onWorld_outcome (fun _ _ => id)
        (hraises.argument i hi binding hbinding (Bool.eq_false_iff.mpr hprev))
    apply hargument.bind
    intro returned
    cases returned with
    | true => exact .pure fun s hs => ⟨hs.1, fun v hv => by cases hv⟩
    | false => exact .throw fun s hs => ⟨hs.1, hs.2 rfl⟩

/-- Resolving specs in order. -/
theorem resolveAll_outcome : ∀ bindings : List (Spec × CppType),
    bindings ⊆ (p.behaviour i).evaluated →
    Exec.Triple (Typed p typeOf) (resolveAll (idealSlots p.plan.toCompiledPlan V) p i bindings)
      (fun args s => Typed p typeOf s ∧ ∀ v ∈ args, typeOf v = p.plan.prevType i)
      (fun s => Typed p typeOf s ∧ throws i) (Stopped p typeOf halts)
  | [], _ => .pure fun s hs => ⟨hs, fun v hv => by cases hv⟩
  | binding :: rest, hsub => by
      have hmem : binding ∈ (p.behaviour i).evaluated := hsub List.mem_cons_self
      have hrest := resolveAll_outcome rest fun b hb => hsub (List.mem_cons_of_mem _ hb)
      apply (resolveAs_outcome htyped hraises hi hmem).bind
      intro arg
      apply Exec.Triple.given
      intro harg
      apply hrest.bind
      intro args
      refine .pure fun s hs => ⟨hs.1, fun v hv => ?_⟩
      rcases List.mem_append.mp hv with hv | hv
      · exact harg v (Option.mem_toList.mp hv)
      · exact hs.2 v hv

omit htyped hraises hi in
theorem beginAttempt_outcome {E : Machine (Nat → Option V) V × W → Prop} :
    Exec.Triple (Typed p typeOf)
      (onMachine (beginAttempt (idealSlots p.plan.toCompiledPlan V) p i))
      (fun _ => Typed p typeOf) E (Stopped p typeOf halts) :=
  .modify fun _ hs => WellTyped.record hs trivial

/-- One attempt of a task that is entered through `invoke_raw`. -/
theorem attemptRaw_outcome :
    Exec.Triple (Typed p typeOf) (attemptRaw (idealSlots p.plan.toCompiledPlan V) p i)
      (fun raw s => Typed p typeOf s ∧ RawKind.Carries typeOf (p.plan.objectType i) _ raw)
      (fun s => Typed p typeOf s ∧ throws i) (Stopped p typeOf halts) := by
  unfold attemptRaw
  apply beginAttempt_outcome.bind
  intro _
  apply (resolveAll_outcome htyped hraises hi _ fun _ => id).bind
  intro args
  apply Exec.Triple.given
  intro hargs
  apply (onWorld_outcome (Q := fun result =>
    (∀ raw, result.1 = .ret raw → RawKind.Carries typeOf (p.plan.objectType i) _ raw)
      ∧ (∀ v, result.2 = some v → typeOf v = p.plan.prevType i)
      ∧ ExitAllowed (throws i) halts result.1) (fun _ _ => id) fun w =>
        ⟨(htyped.body i hi args w hargs).1, (htyped.body i hi args w hargs).2,
          hraises.body i hi args w hargs⟩).bind
  rintro ⟨exit, written⟩
  apply Exec.Triple.given
  rintro ⟨hraw, hwritten, hexit⟩
  apply Exec.Triple.bind (Q := fun _ => Typed p typeOf)
  · exact .modify fun s hs => WellTyped.writeBack hs hi hwritten
  · intro _
    cases exit with
    | ret raw => exact .pure fun s hs => ⟨hs, hraw raw rfl⟩
    | thrown => exact .throw fun s hs => ⟨hs, hexit.thrown rfl⟩
    | halted => exact .halt fun s hs => ⟨hs, Or.inl (hexit.halted rfl)⟩

omit htyped hraises in
/-- A callable with its sink. -/
theorem runSink_outcome : ∀ body : SinkBody V W,
    body.WellTyped typeOf (p.plan.objectType i) (p.plan.prevType i) →
    body.Exits (ExitAllowed (throws i) halts) →
    Exec.Triple (Typed p typeOf) (runSink (idealSlots p.plan.toCompiledPlan V) p i body)
      (fun _ => Typed p typeOf) (fun s => Typed p typeOf s ∧ throws i) (Stopped p typeOf halts)
  | .finish exit written world, hbody, hexit => by
      apply Exec.Triple.bind (Q := fun _ => Typed p typeOf)
      · exact .act fun s hs => hs
      · intro _
        apply Exec.Triple.bind (Q := fun _ => Typed p typeOf)
        · exact .modify fun s hs => WellTyped.writeBack hs hi hbody
        · intro _
          cases exit with
          | ret step => exact .pure fun s hs => hs
          | thrown => exact .throw fun s hs => ⟨hs, hexit.thrown rfl⟩
          | halted => exact .halt fun s hs => ⟨hs, Or.inl (hexit.halted rfl)⟩
  | .hasValue next, hbody, hexit => by
      apply Exec.Triple.bind (Q := fun _ => Typed p typeOf)
      · exact .reads fun s hs => hs
      · exact fun live => runSink_outcome (next live) (hbody live) (hexit live)
  | .emplace payload next, hbody, hexit => by
      apply (contract_outcome _ _ _).bind
      intro _
      apply Exec.Triple.bind (Q := fun _ => Typed p typeOf)
      · apply Exec.Triple.modify
        intro s hs
        cases payload with
        | none => exact hs
        | some v => exact WellTyped.emplace hs (hbody.1 v rfl)
      · exact fun _ => runSink_outcome next hbody.2 hexit
  | .destroy next, hbody, hexit => by
      apply Exec.Triple.bind (Q := fun _ => Typed p typeOf)
      · exact .modify fun s hs => WellTyped.destroy hs i
      · exact fun _ => runSink_outcome next hbody hexit

/-- One attempt of a direct-output task. -/
theorem attemptInto_outcome :
    Exec.Triple (Typed p typeOf) (attemptInto (idealSlots p.plan.toCompiledPlan V) p i)
      (fun _ => Typed p typeOf) (fun s => Typed p typeOf s ∧ throws i)
      (Stopped p typeOf halts) := by
  unfold attemptInto
  apply beginAttempt_outcome.bind
  intro _
  apply (resolveAll_outcome htyped hraises hi _ fun _ => id).bind
  intro args
  apply Exec.Triple.given
  intro hargs
  apply (onWorld_outcome (Q := fun body : SinkBody V W =>
    body.WellTyped typeOf (p.plan.objectType i) (p.plan.prevType i)
      ∧ body.Exits (ExitAllowed (throws i) halts)) (fun _ _ => id) fun w =>
        ⟨htyped.sink i hi args w hargs, hraises.sink i hi args w hargs⟩).bind
  intro body
  apply Exec.Triple.given
  rintro ⟨hbody, hexits⟩
  exact runSink_outcome hi body hbody hexits

end Attempts

/-! ## §4. Entering a node. -/

/-- Only the move constructor throws. -/
theorem moveIntoSlot_outcome (htyped : p.WellTyped typeOf) {v : V}
    (hv : typeOf v = p.plan.objectType i) : Exec.Triple (Typed p typeOf)
      (moveIntoSlot (idealSlots p.plan.toCompiledPlan V) p i v)
      (fun _ => Typed p typeOf) (Typed p typeOf) (Stopped p typeOf halts) := by
  unfold moveIntoSlot
  have hmove : Exec.Triple (Typed p typeOf)
      (onWorld fun w => ((p.move w v).1, (p.move w v).2.2))
      (fun stored s => Typed p typeOf s ∧ ∀ v', stored = some v' → typeOf v' = p.plan.objectType i)
      (Typed p typeOf) (Stopped p typeOf halts) :=
    onWorld_outcome (fun _ _ => id) fun w v' hv' => (htyped.move w v v' hv').trans hv
  apply hmove.bind
  intro stored
  cases stored with
  | none => exact .throw fun s hs => hs.1
  | some v' =>
      apply Exec.Triple.modify
      intro s hs
      show WellTyped _ typeOf (s.1.onSlots ((idealSlots p.plan.toCompiledPlan V).emplace i v'))
      exact hs.1.emplace (hs.2 v' rfl)

/-- A successful raw result is stored, or there is none to store. -/
theorem storeNodeOutput_outcome (htyped : p.WellTyped typeOf) : ∀ (kind : RawKind)
    (raw : kind.Result V), RawKind.Carries typeOf (p.plan.objectType i) kind raw →
    Exec.Triple (Typed p typeOf) (storeNodeOutput (idealSlots p.plan.toCompiledPlan V) p i kind raw)
      (fun _ => Typed p typeOf) (Typed p typeOf) (Stopped p typeOf halts)
  | .void, _, _ => .pure fun s hs => hs
  | .step, _, _ => .pure fun s hs => hs
  | .value, v, hv => (moveIntoSlot_outcome htyped hv).bind fun _ => .pure fun s hs => hs
  | .taskResult, raw, hgood => by
      unfold storeNodeOutput
      dsimp only
      split
      · next v hv =>
          apply (moveIntoSlot_outcome htyped (hgood v hv)).bind
          exact fun _ => .pure fun s hs => hs
      · -- a successful `task_result` without a value
        exact violate_outcome _

/-- Recording what the node's slot holds. -/
theorem WellTyped.finishNode {m : Machine (Nat → Option V) V}
    (h : WellTyped p.plan.toCompiledPlan typeOf m) (hi : i < p.plan.nodeCount) :
    WellTyped p.plan.toCompiledPlan typeOf
      (finishNode (idealSlots p.plan.toCompiledPlan V) p i m) := by
  apply h.record
  intro v hv
  unfold nodeOutput at hv
  split at hv
  · cases hv
  · next hvoid =>
      exact (h.slots _ v hv).trans (objectType_owner hi (Bool.eq_false_iff.mpr hvoid))

/-- What follows a success. -/
theorem finish_outcome {E : Machine (Nat → Option V) V × W → Prop} (hi : i < p.plan.nodeCount)
    (entered : NodeEnterResult) : Exec.Triple (Typed p typeOf)
      (onMachine (finishNode (idealSlots p.plan.toCompiledPlan V) p i) >>= fun _ => pure entered)
      (fun _ => Typed p typeOf) E (Stopped p typeOf halts) := by
  apply Exec.Triple.bind (Q := fun _ => Typed p typeOf)
  · exact .modify fun s hs => WellTyped.finishNode hs hi
  · exact fun _ => .pure fun s hs => hs

/-- Which tasks have entry points that neither throw nor go on for ever. -/
structure Program.Terminates (p : Program V W) (throws : Nat → Prop) (halts : Prop) (fuel : Nat) :
    Prop where
  noexcept : ∀ i < p.plan.nodeCount, throws i → (p.plan.task i).catches = false → halts
  raw : ∀ i < p.plan.nodeCount, (p.plan.task i).usesDirectOutputProtocol = false →
    (p.plan.task i).Settles V fuel (p.behaviour i).policies ∨ halts
  into : ∀ i < p.plan.nodeCount, (p.plan.task i).usesDirectOutputProtocol →
    (p.plan.task i).GivesUp fuel (p.behaviour i).policiesInto ∨ halts

theorem Program.terminates_anything (p : Program V W) (throws : Nat → Prop) (fuel : Nat) :
    p.Terminates throws True fuel where
  noexcept _ _ _ _ := trivial
  raw _ _ _ := Or.inr trivial
  into _ _ _ := Or.inr trivial

section Enter

variable (htyped : p.WellTyped typeOf) (hraises : p.Raises typeOf throws halts) {fuel : Nat}
  (hterminates : p.Terminates throws halts fuel) (hi : i < p.plan.nodeCount)

include htyped hraises hterminates hi

omit htyped hraises in
/-- What escapes an entry point ends the program. -/
theorem stopped_of_escape {s : Machine (Nat → Option V) V × W}
    (hs : (Typed p typeOf s ∧ throws i) ∧ (p.plan.task i).catches = false) :
    Stopped p typeOf halts s :=
  ⟨hs.1.1, Or.inl (hterminates.noexcept i hi hs.1.2 hs.2)⟩

theorem enterRaw_outcome (hraw : (p.plan.task i).usesDirectOutputProtocol = false) :
    Exec.Triple (Typed p typeOf) (enterRaw (idealSlots p.plan.toCompiledPlan V) p fuel i)
      (fun _ => Typed p typeOf) (Typed p typeOf) (Stopped p typeOf halts) := by
  have hinvoke : Exec.Triple (Typed p typeOf)
      (invokeRaw fuel (p.plan.task i) (p.behaviour i).policies
        (attemptRaw (idealSlots p.plan.toCompiledPlan V) p i))
      (fun raw s => Typed p typeOf s
        ∧ RawKind.Carries typeOf (p.plan.objectType i) (p.plan.task i).rawKind raw)
      (fun s => (Typed p typeOf s ∧ throws i) ∧ (p.plan.task i).catches = false)
      (Stopped p typeOf halts) := by
    refine invokeRaw_outcome ?_ ?_ (fun _ _ => id) (fun _ hs => hs.1) fuel _ _
      (htyped.policies i hi) ?_ (attemptRaw_outcome htyped hraises hi)
    · -- catching wraps a result without touching its value
      intro kind raw hgood
      cases kind with
      | void | step => trivial
      | taskResult | value => exact hgood
    · -- and makes up results without values only
      intro kind raw hdefault
      cases kind with
      | void | step => trivial
      | taskResult | value => cases hdefault
    · exact (hterminates.raw i hi hraw).imp_right fun h s hs => ⟨hs, Or.inl h⟩
  unfold enterRaw
  apply (hinvoke.noexcept fun s => stopped_of_escape hterminates hi).bind
  intro raw
  apply Exec.Triple.given
  intro hgood
  split
  · apply (storeNodeOutput_outcome htyped _ raw hgood).bind
    exact fun live => finish_outcome hi _
  · exact .pure fun s hs => hs

theorem enterInto_outcome (hinto : (p.plan.task i).usesDirectOutputProtocol) :
    Exec.Triple (Typed p typeOf) (enterInto (idealSlots p.plan.toCompiledPlan V) p fuel i)
      (fun _ => Typed p typeOf) (Typed p typeOf) (Stopped p typeOf halts) := by
  have hinvoke : Exec.Triple (Typed p typeOf)
      (invokeNodeInto (idealSlots p.plan.toCompiledPlan V) p fuel i)
      (fun _ s => Typed p typeOf s ∧ True)
      (fun s => (Typed p typeOf s ∧ throws i) ∧ (p.plan.task i).catches = false)
      (Stopped p typeOf halts) := by
    refine invokeInto_outcome trivial (fun _ _ => id) (fun _ hs => hs.1) fuel ?_
      ((attemptInto_outcome htyped hraises hi).post fun _ _ hs => ⟨hs, trivial⟩) _ _
      (Task.policiesKeep_of_forall (fun _ _ => trivial) _ _) ?_
    · intro s hs
      unfold cleanUpSink
      split
      · exact WellTyped.destroy hs i
      · exact hs
    · exact (hterminates.into i hi hinto).imp_right fun h s hs => ⟨hs, Or.inl h⟩
  unfold enterInto
  apply (hinvoke.noexcept fun s => stopped_of_escape hterminates hi).bind
  intro step
  have hfinalize : Exec.Triple (fun s => Typed p typeOf s ∧ True)
      (finalizeDirectOutputStep (idealSlots p.plan.toCompiledPlan V) p i step)
      (fun _ => Typed p typeOf) (Typed p typeOf) (Stopped p typeOf halts) := by
    unfold finalizeDirectOutputStep
    split
    · apply ((contract_outcome _ _ _).pre fun _ hs => hs.1).bind
      exact fun _ => .pure fun s hs => hs
    · apply Exec.Triple.bind (Q := fun _ => Typed p typeOf)
      · apply Exec.Triple.modify
        intro s hs
        show WellTyped _ typeOf (s.1.onSlots ((idealSlots p.plan.toCompiledPlan V).destroy i))
        -- a direct-output node has a slot of its own
        rw [idealSlots_onDestroy hi (ValidPlan.payloadNode_of_direct hinto)]
        exact hs.1.destroy i
      · exact fun _ => .pure fun s hs => hs
  apply hfinalize.bind
  intro step
  split
  · exact finish_outcome hi _
  · exact .pure fun s hs => hs

/-- **Entering a node.** -/
theorem enterNode_outcome :
    Exec.Triple (Typed p typeOf) (enterNode (idealSlots p.plan.toCompiledPlan V) p fuel i)
      (fun _ => Typed p typeOf) (Typed p typeOf) (Stopped p typeOf halts) := by
  unfold enterNode
  apply Exec.Triple.bind (Q := fun _ => Typed p typeOf)
  · exact .modify fun s hs => WellTyped.record hs fun v hv => WellTyped.readPrev hs hi hv
  · intro _
    split
    · next hinto => exact enterInto_outcome htyped hraises hterminates hi hinto
    · next hraw =>
        exact enterRaw_outcome htyped hraises hterminates hi (Bool.eq_false_iff.mpr hraw)

end Enter

/-! ## §5. Whole runs. -/

theorem WellTyped.leaveRun {m : Machine (Nat → Option V) V}
    (h : WellTyped p.plan.toCompiledPlan typeOf m) : WellTyped p.plan.toCompiledPlan typeOf
      (leaveRun (idealSlots p.plan.toCompiledPlan V) p m) := by
  have hstages : ∀ n, WellTyped p.plan.toCompiledPlan typeOf
      ((List.range n).foldl (fun m i => m.destroyStage i) m) := by
    intro n
    induction n with
    | zero => exact h
    | succ n ih =>
        rw [List.range_succ, List.foldl_append]
        exact ih.destroyStage n
  have hslots : ∀ n, ∀ m : Machine (Nat → Option V) V,
      WellTyped p.plan.toCompiledPlan typeOf m → WellTyped p.plan.toCompiledPlan typeOf
        ((List.range n).foldl (fun m i => m.onSlots fun f =>
          if p.plan.ownsPayload i then idealDestroy i f else ([], f)) m) := by
    intro n
    induction n with
    | zero => exact fun m h => h
    | succ n ih =>
        intro m h
        rw [List.range_succ, List.foldl_append, List.foldl_cons, List.foldl_nil]
        by_cases howns : p.plan.ownsPayload n
        · simp only [howns, if_true]
          exact (ih m h).destroy n
        · simp only [howns, Bool.false_eq_true, if_false]
          exact ih m h
  unfold YOrch.leaveRun
  show WellTyped p.plan.toCompiledPlan typeOf (Machine.onSlots _ (forEachNode _ _))
  rw [onSlots_forEachNode]
  exact hslots _ _ (hstages _)

/-- **The run.** -/
theorem outcome_run (htyped : p.WellTyped typeOf) (hraises : p.Raises typeOf throws halts)
    {fuel : Nat} (hterminates : p.Terminates throws halts fuel) :
    RunTriple p.plan.toPlanShape p.plan.payloadNode
      (nodeOps (idealSlots p.plan.toCompiledPlan V) p fuel) (fun _ _ => Typed p typeOf)
      (fun _ _ => Typed p typeOf) (Typed p typeOf) (Stopped p typeOf halts) where
  enter i hi := by
    have hfinished : EnterTriple (idealSlots p.plan.toCompiledPlan V) p i _ _ _ _ _ :=
      finished_triple i
    apply ((enterNode_outcome htyped hraises hterminates hi).and
      (hfinished.enterNode hi fuel)).conseq
    · exact fun s hs => ⟨hs, trivial⟩
    · intro entered s hs
      obtain ⟨htyped, hs⟩ := hs
      split at hs
      · next hok =>
          rw [if_pos hok]
          exact ⟨hs.1, htyped⟩
      · next hok =>
          rw [if_neg hok]
          exact htyped
    · exact fun s hs => hs.1
    · exact fun s hs => hs.1
  stage i hi hstaging := by
    apply stageFanout_triple (fun _ _ hs => hs)
    · exact fun s hs => ⟨WellTyped.record hs trivial, Or.inr ⟨_, _, rfl⟩⟩
    · intro s v w v' hs hget hcopy
      -- the copy is taken from the slot of the payload's owner
      apply WellTyped.emplaceStage hs
      rw [htyped.copy w v v' hcopy, WellTyped.slots hs _ v hget]
      exact objectType_owner hi (ValidPlan.output_of_staging hi hstaging)
  unstaged _ _ _ _ _ := Iff.rfl
  unstage i _ _ _ s hs := WellTyped.destroyStage hs i
  destroy i hi hpayload _ s hs := by
    show WellTyped _ typeOf (s.1.onSlots ((idealSlots p.plan.toCompiledPlan V).destroy i))
    rw [idealSlots_onDestroy hi hpayload]
    exact WellTyped.destroy hs i
  leave _ _ _ _ _ hs := hs
  later _ _ _ _ _ hs := hs
  laterEntered _ _ _ _ _ hs := hs
  abandon _ _ _ hs := hs
  abandonEntered _ _ _ hs := hs

/-- How a run ends, and what it has recorded. -/
theorem run_outcome (htyped : p.WellTyped typeOf) (hraises : p.Raises typeOf throws halts)
    {fuel : Nat} (hterminates : p.Terminates throws halts fuel) (layout : SlotLayoutPolicy)
    (exec : ExecPolicy) (w : W) :
    let run := runFrom (layout.slots p.plan.toCompiledPlan) p exec fuel w
    (∀ event ∈ run.2.1.events, event.WellTyped p.plan.toCompiledPlan typeOf)
      ∧ (run.1 = .halted → halts ∨ JustViolated run.2.1) := by
  intro run
  have hrun : Exec.Triple (Typed p typeOf)
      (runPlan (idealSlots p.plan.toCompiledPlan V) p exec fuel) (fun _ => Typed p typeOf)
      (Typed p typeOf) (Stopped p typeOf halts) :=
    (outcome_run htyped hraises hterminates).runPlan (fun _ hs => WellTyped.leaveRun hs)
      (fun _ hs => WellTyped.leaveRun hs) exec
  have hideal : Exec.Ends (fun _ => Typed p typeOf) (Typed p typeOf) (Stopped p typeOf halts)
      (runFrom (idealSlots p.plan.toCompiledPlan V) p exec fuel w) := hrun.ends .initial
  obtain ⟨hexit, -, hevents, -⟩ := run_agrees (layout.refines p.plan) exec fuel w
  change run.1 = _ at hexit
  change run.2.1.events = _ at hevents
  rw [hexit]
  unfold JustViolated
  rw [hevents]
  rcases hresult : runFrom (idealSlots p.plan.toCompiledPlan V) p exec fuel w with ⟨exit, m, w'⟩
  rw [hresult] at hideal
  cases exit with
  | ret step => exact ⟨hideal.log, nofun⟩
  | thrown => exact ⟨hideal.log, nofun⟩
  | halted => exact ⟨hideal.1.log, fun _ => hideal.2⟩

end Node

/-- A root, a retried task that copies the root's payload and emplaces one of
another type, a task that consumes that one, and a task after it. -/
def relayTask : Nat → Task
  | 0 => .base (.boundTask (.function [] (.object 0)) [])
  | 1 => .retryTask (.catchFailureTask (.base (.boundOutputTask (.object 1)
      (.function [.object 0, .directOut (.object 1)] .stepResult) [.copyPrev (.object 0)])))
  | 2 => .base (.boundTask (.function [.object 1] .void) [.consumePrev (.object 1)])
  | _ => .base (.boundTask (.function [] .void) [])

def relayPlan : ValidPlan where
  levels := [0, 1, 2, 3]
  nonempty := by decide
  accepted := by decide
  task := relayTask
  fanoutPolicy := fun _ => .auto
  bound := by decide
  runnable := by decide
  slotsFormed := by decide

/-- A payload is the number of its type.  The world counts the attempts of the
second task, the first of which asks for a retry. -/
def relayProgram : Program Nat Nat where
  plan := relayPlan
  behaviour
    | 0 => {
        evaluated := (relayTask 0).bound.bindings
        evaluated_perm := List.Perm.refl _
        argument := fun _ w => (true, w)
        body := fun _ w => ((.ret (0 : Nat), none), w)
        sinkBody := fun _ w => .finish (.ret .success) none w
        policies := ()
        policiesInto := () }
    | 1 => {
        evaluated := (relayTask 1).bound.bindings
        evaluated_perm := List.Perm.refl _
        argument := fun _ w => (true, w)
        body := fun _ w => ((.ret StepResult.success, none), w)
        sinkBody := fun _ w =>
          .emplace (some 1) (.finish (.ret (if w = 0 then .retry else .success)) none (w + 1))
        policies := (⟨fun retryCount w => (retryCount < 1, w), none⟩, ())
        policiesInto := (⟨fun retryCount w => (retryCount < 1, w), none⟩, ()) }
    | 2 => {
        evaluated := (relayTask 2).bound.bindings
        evaluated_perm := List.Perm.refl _
        argument := fun _ w => (true, w)
        body := fun _ w => ((.ret (), none), w)
        sinkBody := fun _ w => .finish (.ret .success) none w
        policies := ()
        policiesInto := () }
    | i + 3 => {
        evaluated := (relayTask (i + 3)).bound.bindings
        evaluated_perm := List.Perm.refl _
        argument := fun _ w => (true, w)
        body := fun _ w => ((.ret (), none), w)
        sinkBody := fun _ w => .finish (.ret .success) none w
        policies := ()
        policiesInto := () }
  copy w v := (some v, w)
  move w v := (some v, v, w)
  asserts := true

theorem relay_typed : relayProgram.WellTyped CppType.object where
  copy w v v' h := by
    cases h
    rfl
  move w v v' h := by
    cases h
    rfl
  moved w v := rfl
  body i hi args w hargs := by
    refine ⟨fun raw hraw => ?_, fun v hv => ?_⟩
    · match i with
      | 0 =>
          cases hraw
          rfl
      | 1 | 2 | _ + 3 => trivial
    · match i with
      | 0 | 1 | 2 | _ + 3 => cases hv
  sink i hi args w hargs := by
    match i with
    | 0 | 2 | _ + 3 => exact fun v hv => by cases hv
    | 1 =>
        refine ⟨fun v hv => ?_, fun v hv => by cases hv⟩
        cases hv
        rfl
  policies i hi := by
    match i with
    | 0 | 2 | _ + 3 => exact trivial
    | 1 => exact ⟨nofun, trivial⟩

end YOrch
