/-
  YOrch.Executor.Backends — runs on the two storage backends are the same run.

  `Agree` relates a machine over a storage backend to the machine over the ideal
  one: same world, same events, same staged copies, slots that hold exactly the
  live payloads, and these on the current path.  It survives everything a run
  does, so every run on a storage backend is the run on the ideal one:

    • `run_agrees` — same exit, same world, same events, for any backend that
      refines the ideal one,
    • `compact_refines_oneToOne` — hence for the compact and the one-to-one
      layout, and nothing is constructed over, or destroyed in place of,
      another node's payload.
-/
import YOrch.Executor.Triples
import YOrch.Slots.Isolation

namespace YOrch

open Library

variable {V W S : Type}

/-! ## §1. Facts about nodes. -/

namespace ValidPlan

variable {plan : ValidPlan} {i : Nat}

theorem path_cons (plan : PlanShape) (i : Nat) : plan.path i = i :: (plan.path i).tail := by
  rw [PlanShape.path]
  cases i <;> rfl

theorem head?_path (plan : PlanShape) (i : Nat) : (plan.path i).head? = some i := by
  rw [path_cons plan i]
  rfl

/-- The path to `i` without `i` itself is what lies above it. -/
theorem mem_tail_path {plan : PlanShape} {q : Nat} (hq : q ∈ plan.path i) (hne : q ≠ i) :
    q ∈ (plan.path i).tail := by
  rw [path_cons plan i] at hq
  exact (List.mem_cons.mp hq).resolve_left hne

/-- A node that stages nothing is none of those on its path that do. -/
theorem mem_tail_of_staging (hi : plan.parentRequiresFanoutStaging i = false) {q : Nat}
    (hq : q ∈ plan.path i) (hstaging : plan.parentRequiresFanoutStaging q) :
    q ∈ (plan.path i).tail := by
  apply mem_tail_path hq
  intro hqi
  rw [hqi] at hstaging
  exact absurd (hstaging.symm.trans hi) (by decide)

/-- A node whose view is of a slot has a parent with a payload. -/
theorem parent_of_source (hi : i < plan.nodeCount) {o : Nat}
    (h : plan.prevSource i = some (.slot o)) :
    plan.parentIndex i < plan.nodeCount
      ∧ (plan.outputType (plan.parentIndex i)).isVoid = false
      ∧ plan.canonicalOutputOwnerNode (plan.parentIndex i) = o := by
  unfold CompiledPlan.prevSource at h
  split_ifs at h with hroot hvoid hstaged
  · cases h
  · have hpos : 0 < i := plan.pos_of_parentIndex hroot
    rw [Option.some.injEq, PrevSource.slot.injEq] at h
    exact ⟨Nat.lt_trans (plan.parentIndex_lt hpos hi) hi, by simpa using hvoid, h⟩

/-- A parent whose fanout is staged has a payload. -/
theorem output_of_staging (hi : i < plan.nodeCount) (h : plan.parentRequiresFanoutStaging i) :
    (plan.outputType i).isVoid = false := by
  simp only [CompiledPlan.parentRequiresFanoutStaging, Bool.and_eq_true, beq_iff_eq] at h
  have hcount : 0 < plan.parentConsumeOnlyPrevChildCount i := by omega
  obtain ⟨c, hc, hconsume⟩ := List.countP_pos_iff.mp hcount
  have hchild := (plan.mem_children hi).mp hc
  have := (parent_output hchild.2.1 (Task.exclusive_uses (Task.consume_exclusive hconsume))).2
  rwa [hchild.2.2] at this

/-- A direct-output node may leave its slot empty. -/
theorem policy_of_direct (h : (plan.task i).usesDirectOutputProtocol) :
    plan.slotLogicalPolicy i = .maybePayload := by
  obtain ⟨base, hbase⟩ : ∃ base, (plan.task i).bound = base := ⟨_, rfl⟩
  simp only [Task.usesDirectOutputProtocol, Task.outputProtocol, hbase] at h
  simp only [CompiledPlan.slotLogicalPolicy, Task.slotLogicalPolicy, Task.declaredOutput,
    Task.usesForwardPrevOutputProtocol, Task.outputProtocol, hbase]
  cases base <;> first | rfl | cases h

end ValidPlan

/-! ## §2. The ideal backend on owned nodes. -/

section Ideal

variable {plan : ValidPlan} {i : Nat} {f : Nat → Option V}

theorem idealSlots_hasValue (hi : i < plan.nodeCount) (howned : plan.payloadNode i) :
    (idealSlots plan.toCompiledPlan V).hasValue i f = (f i).isSome := by
  obtain ⟨hvoid, howner⟩ := ValidPlan.owner_of_payloadNode hi howned
  simp [idealSlots, slotHasValueImpl, hvoid, howner]

theorem idealSlots_destroy (hi : i < plan.nodeCount) (howned : plan.payloadNode i) :
    (idealSlots plan.toCompiledPlan V).destroy i f = idealDestroy i f :=
  if_pos ((ValidPlan.ownsPayload_iff hi).mpr howned)

theorem idealSlots_onDestroy (hi : i < plan.nodeCount) (howned : plan.payloadNode i)
    (m : Machine (Nat → Option V) V) :
    m.onSlots ((idealSlots plan.toCompiledPlan V).destroy i) = m.onSlots (idealDestroy i) := by
  unfold Machine.onSlots
  rw [idealSlots_destroy hi howned]

theorem idealDestroy_slots : (idealDestroy i f).2 = Function.update f i none := by
  cases h : f i with
  | none => simp only [idealDestroy, h]; rw [← h, Function.update_eq_self]
  | some v => simp only [idealDestroy, h]

theorem idealDestroy_self : (idealDestroy i f).2 i = none := by
  rw [idealDestroy_slots, Function.update_self]

/-- Destroying an empty slot does nothing. -/
theorem onSlots_idealDestroy_none {m : Machine (Nat → Option V) V} (hslot : m.slots i = none) :
    m.onSlots (idealDestroy i) = m := by
  unfold Machine.onSlots idealDestroy
  rw [hslot]
  rfl

theorem onSlots_idealDestroy_events {m : Machine (Nat → Option V) V} {v : V}
    (hslot : m.slots i = some v) : (m.onSlots (idealDestroy i)).events
      = .memory (.destroyed (.payload i) (some (.payload i))) :: m.events := by
  unfold Machine.onSlots idealDestroy
  rw [hslot]
  rfl

/-- Assigning to a payload does not change which payloads are live. -/
theorem idealSet_live {v : V} (j : Nat) :
    (idealSlots plan.toCompiledPlan V).set i v f j ≠ none ↔ f j ≠ none := by
  show Function.update f _ _ j ≠ none ↔ _
  by_cases hj : j = plan.canonicalOutputOwnerNode i
  · subst hj
    rw [Function.update_self, ne_eq, ne_eq, Option.map_eq_none_iff]
  · rw [Function.update_of_ne hj]

/-- Writing to a parent's payload does not change which payloads are live. -/
theorem writePrev_live (p : Program V W) (i : Nat) (v : V) (m : Machine (Nat → Option V) V)
    (j : Nat) : (writePrev (idealSlots p.plan.toCompiledPlan V) p i v m).slots j ≠ none
      ↔ m.slots j ≠ none := by
  unfold writePrev
  split
  · split
    · exact idealSet_live j
    · rfl
  · rfl

theorem writeBack_live (p : Program V W) (i : Nat) (written : Option V)
    (m : Machine (Nat → Option V) V) (j : Nat) :
    (writeBack (idealSlots p.plan.toCompiledPlan V) p i written m).slots j ≠ none
      ↔ m.slots j ≠ none := by
  unfold writeBack
  split
  · rfl
  · split
    · exact writePrev_live p i _ m j
    · rfl

theorem resolveStep_live (p : Program V W) (i : Nat) (binding : Spec × CppType)
    (source : PrevSource) (arg : Option V) (left : V) (m : Machine (Nat → Option V) V) (j : Nat) :
    (resolveStep (idealSlots p.plan.toCompiledPlan V) p i binding source arg left m).slots j ≠ none
      ↔ m.slots j ≠ none := by
  unfold resolveStep
  dsimp only
  split
  · exact writePrev_live p i left _ j
  · rfl

theorem idealEmplace_own {v : V} : ∀ e ∈ (idealEmplace i v f).1, e.Own := by
  intro e he
  rw [idealEmplace, List.mem_singleton] at he
  subst he
  cases f i with
  | none => exact Or.inl rfl
  | some _ => exact Or.inr rfl

theorem idealDestroy_own : ∀ e ∈ (idealDestroy i f).1, e.Own := by
  intro e he
  unfold idealDestroy at he
  split at he
  · cases he
  · rw [List.mem_singleton] at he
    subst he
    rfl

/-- Destroying the ideal payloads one by one. -/
theorem idealDestroyAll_own : ∀ e ∈ ((idealSlots plan.toCompiledPlan V).destroyActiveSlots f).1,
    e.Own := by
  apply forEachNode_events
  intro i f e he
  by_cases howns : plan.ownsPayload i
  · rw [if_pos howns] at he
    exact idealDestroy_own e he
  · rw [if_neg howns] at he
    cases he

end Ideal

/-! ## §3. Agreement. -/

/-- A machine over a storage backend, the machine over the ideal one, and the
worlds around them.  Live payloads belong to nodes in `live`; those in `must`
whose slots carry no flag have theirs. -/
structure Agree (plan : ValidPlan) (Rep : S → (Nat → Option V) → Prop) (must live : List Nat)
    (s : Machine S V × W) (t : Machine (Nat → Option V) V × W) : Prop where
  world : s.2 = t.2
  events : s.1.events = t.1.events
  stage : s.1.stage = t.1.stage
  rep : Rep s.1.slots t.1.slots
  own : ∀ e, .memory e ∈ t.1.events → e.Own
  live : ∀ j, t.1.slots j ≠ none → j ∈ live ∧ plan.payloadNode j
  must : ∀ j ∈ must, plan.payloadNode j → plan.slotLogicalPolicy j ≠ .maybePayload →
    t.1.slots j ≠ none

/-- What is left to say of machines that ended. -/
def SameTrace (s : Machine S V × W) (t : Machine (Nat → Option V) V × W) : Prop :=
  s.2 = t.2 ∧ s.1.events = t.1.events ∧ ∀ e, .memory e ∈ t.1.events → e.Own

namespace Agree

variable {plan : ValidPlan} {Rep : S → (Nat → Option V) → Prop} {must live must' live' : List Nat}
  {s : Machine S V × W} {t : Machine (Nat → Option V) V × W}

theorem sameTrace (h : Agree plan Rep must live s t) : SameTrace s t :=
  ⟨h.world, h.events, h.own⟩

theorem setWorld (h : Agree plan Rep must live s t) (w : W) :
    Agree plan Rep must live (s.1, w) (t.1, w) :=
  { h with world := rfl }

/-- Events that are not about memory. -/
theorem record (h : Agree plan Rep must live s t) {event : Event V}
    (hevent : ∀ e, event ≠ .memory e) :
    Agree plan Rep must live (s.1.record event, s.2) (t.1.record event, t.2) where
  world := h.world
  events := congrArg (event :: ·) h.events
  stage := h.stage
  rep := h.rep
  own e he := by
    rcases List.mem_cons.mp he with heq | he
    · exact absurd heq.symm (hevent e)
    · exact h.own e he
  live := h.live
  must := h.must

/-- Operations that cause the same events and keep the slots related. -/
theorem onSlots (h : Agree plan Rep must live s t) {op : S → List MemoryEvent × S}
    {op' : (Nat → Option V) → List MemoryEvent × (Nat → Option V)}
    (hop : (op s.1.slots).1 = (op' t.1.slots).1 ∧ Rep (op s.1.slots).2 (op' t.1.slots).2)
    (hown : ∀ e ∈ (op' t.1.slots).1, e.Own)
    (hlive : ∀ j, (op' t.1.slots).2 j ≠ none → j ∈ live' ∧ plan.payloadNode j)
    (hmust : ∀ j ∈ must', plan.payloadNode j → plan.slotLogicalPolicy j ≠ .maybePayload →
      (op' t.1.slots).2 j ≠ none) :
    Agree plan Rep must' live' (s.1.onSlots op, s.2) (t.1.onSlots op', t.2) where
  world := h.world
  events := by
    show _ ++ _ = _ ++ _
    rw [hop.1, h.events]
  stage := h.stage
  rep := hop.2
  own e he := by
    rcases List.mem_append.mp he with he | he
    · obtain ⟨e', he', heq⟩ := List.mem_map.mp he
      obtain rfl := Event.memory.inj heq
      exact hown _ (List.mem_reverse.mp he')
    · exact h.own e he
  live := hlive
  must := hmust

/-- Fewer obligations and more room. -/
theorem weaken (h : Agree plan Rep must live s t) (hmust : must' ⊆ must) (hlive : live ⊆ live') :
    Agree plan Rep must' live' s t :=
  { h with
    live := fun j hj => (h.live j hj).imp_left fun hj => hlive hj
    must := fun j hj => h.must j (hmust hj) }

/-! ## §4. Prev access. -/

variable {api : SlotsApi V S} {p : Program V W} {i : Nat}

theorem read_eq (hapi : Refines p.plan api Rep) (h : Agree p.plan Rep must live s t)
    (hi : i < p.plan.nodeCount) :
    readPrev api p i s.1 = readPrev (idealSlots p.plan.toCompiledPlan V) p i t.1 := by
  unfold readPrev
  cases hsource : p.plan.prevSource i with
  | none => rfl
  | some source =>
      cases source with
      | stage q => exact congrFun h.stage q
      | slot o =>
          obtain ⟨hparent, hvoid, -⟩ := ValidPlan.parent_of_source hi hsource
          exact hapi.get h.rep hparent hvoid

theorem writePrev (hapi : Refines p.plan api Rep) (h : Agree p.plan Rep must live s t)
    (hi : i < p.plan.nodeCount) (v : V) :
    Agree p.plan Rep must live (writePrev api p i v s.1, s.2)
      (writePrev (idealSlots p.plan.toCompiledPlan V) p i v t.1, t.2) := by
  unfold YOrch.writePrev
  rw [read_eq hapi h hi]
  cases hsource : p.plan.prevSource i with
  | none => exact h
  | some source =>
      cases source with
      | stage q => exact h
      | slot o =>
          obtain ⟨hparent, hvoid, -⟩ := ValidPlan.parent_of_source hi hsource
          dsimp only
          split
          · next hread =>
              have hlive : t.1.slots (p.plan.canonicalOutputOwnerNode (p.plan.parentIndex i))
                  ≠ none := by
                unfold readPrev at hread
                rw [hsource] at hread
                exact Option.isSome_iff_ne_none.mp hread
              exact {
                world := h.world
                events := h.events
                stage := h.stage
                rep := hapi.set v h.rep hparent hvoid hlive
                own := h.own
                live := fun j hj => h.live j ((idealSet_live j).mp hj)
                must := fun j hj hpayload hpolicy =>
                  (idealSet_live j).mpr (h.must j hj hpayload hpolicy) }
          · exact h

theorem writeBack (hapi : Refines p.plan api Rep) (h : Agree p.plan Rep must live s t)
    (hi : i < p.plan.nodeCount) (written : Option V) :
    Agree p.plan Rep must live (writeBack api p i written s.1, s.2)
      (writeBack (idealSlots p.plan.toCompiledPlan V) p i written t.1, t.2) := by
  unfold YOrch.writeBack
  cases written with
  | none => exact h
  | some v =>
      dsimp only
      split
      · exact h.writePrev hapi hi v
      · exact h

/-! ## §5. Operations on the node being entered. -/

/-- While node `i`'s task is executed, its ancestors have live payloads, and so
may `i` itself if its task has a sink. -/
def attemptLive (plan : ValidPlan) (i : Nat) : List Nat :=
  if (plan.task i).usesDirectOutputProtocol then plan.path i else (plan.path i).tail

theorem attemptLive_direct (h : (plan.task i).usesDirectOutputProtocol) :
    attemptLive plan i = plan.path i := if_pos h

theorem attemptLive_raw (h : (plan.task i).usesDirectOutputProtocol = false) :
    attemptLive plan i = (plan.path i).tail := if_neg (by simp [h])

theorem liveOn (h : Agree plan Rep must live s t) (hlive : live ⊆ plan.path i) :
    plan.LiveOn t.1.slots i :=
  fun j hj => hlive (h.live j hj).1

theorem tail_subset (plan : PlanShape) (i : Nat) : (plan.path i).tail ⊆ plan.path i := by
  rw [ValidPlan.path_cons plan i]
  exact List.subset_cons_self _ _

/-- Emplacing node `i`'s payload leaves payloads on the path to `i`. -/
theorem update_live {f : Nat → Option V} {o : Option V} (hpayload : plan.payloadNode i)
    (hlive : ∀ j, f j ≠ none → j ∈ plan.path i ∧ plan.payloadNode j) (j : Nat)
    (hj : Function.update f i o j ≠ none) : j ∈ plan.path i ∧ plan.payloadNode j := by
  by_cases hji : j = i
  · subst hji
    exact ⟨plan.self_mem_path j, hpayload⟩
  · rw [Function.update_of_ne hji] at hj
    exact hlive j hj

/-- Destroying it leaves payloads above `i`. -/
theorem update_none_live {f : Nat → Option V}
    (hlive : ∀ j, f j ≠ none → j ∈ plan.path i ∧ plan.payloadNode j) (j : Nat)
    (hj : Function.update f i none j ≠ none) :
    j ∈ (plan.path i).tail ∧ plan.payloadNode j := by
  by_cases hji : j = i
  · subst hji
    rw [Function.update_self] at hj
    exact absurd rfl hj
  · rw [Function.update_of_ne hji] at hj
    exact (hlive j hj).imp_left fun h => ValidPlan.mem_tail_path h hji

theorem not_mem_tail (hi : i < plan.nodeCount) : i ∉ (plan.path i).tail := by
  have hnodup := plan.path_nodup hi
  rw [ValidPlan.path_cons plan.toPlanShape i, List.nodup_cons] at hnodup
  exact hnodup.1

/-- The payloads of other nodes are not `i`'s. -/
theorem update_must (hi : i ∉ must) {f : Nat → Option V} {o : Option V}
    (hmust : ∀ j ∈ must, plan.payloadNode j →
      plan.slotLogicalPolicy j ≠ .maybePayload → f j ≠ none) :
    ∀ j ∈ must, plan.payloadNode j →
      plan.slotLogicalPolicy j ≠ .maybePayload → Function.update f i o j ≠ none := by
  intro j hj hpayload hpolicy
  rw [Function.update_of_ne fun hji : j = i => hi (hji ▸ hj)]
  exact hmust j hj hpayload hpolicy

/-- Node `i` joins the nodes that have a payload. -/
theorem enter (h : Agree plan Rep (plan.path i).tail live s t)
    (hpayload : plan.payloadNode i → plan.slotLogicalPolicy i ≠ .maybePayload →
      t.1.slots i ≠ none) : Agree plan Rep (plan.path i) live s t :=
  { h with
    must := by
      intro j hj hp hpolicy
      rw [ValidPlan.path_cons plan.toPlanShape i] at hj
      rcases List.mem_cons.mp hj with rfl | hj
      · exact hpayload hp hpolicy
      · exact h.must j hj hp hpolicy }

theorem emplaceStage (h : Agree plan Rep must live s t) (q : Nat) (v : V) :
    Agree plan Rep must live (s.1.emplaceStage q v, s.2) (t.1.emplaceStage q v, t.2) where
  world := h.world
  events := by
    show _ :: _ = _ :: _
    rw [h.stage, h.events]
  stage := by
    show Function.update _ _ _ = Function.update _ _ _
    rw [h.stage]
  rep := h.rep
  own e he := by
    rcases List.mem_cons.mp he with heq | he
    · obtain rfl := Event.memory.inj heq
      cases t.1.stage q with
      | none => exact Or.inl rfl
      | some _ => exact Or.inr rfl
    · exact h.own e he
  live := h.live
  must := h.must

theorem destroyStage (h : Agree plan Rep must live s t) (q : Nat) :
    Agree plan Rep must live (s.1.destroyStage q, s.2) (t.1.destroyStage q, t.2) := by
  unfold Machine.destroyStage
  rw [h.stage]
  cases hq : t.1.stage q with
  | none => exact h
  | some v =>
      exact {
        world := h.world
        events := congrArg (_ :: ·) h.events
        stage := rfl
        rep := h.rep
        own := by
          intro e he
          rcases List.mem_cons.mp he with heq | he
          · obtain rfl := Event.memory.inj heq
            rfl
          · exact h.own e he
        live := h.live
        must := h.must }

section Node

variable (hapi : Refines p.plan api Rep) (hi : i < p.plan.nodeCount)
include hapi hi

theorem sinkHasValue (hinto : (p.plan.task i).usesDirectOutputProtocol)
    (h : Agree p.plan Rep must (p.plan.path i) s t) :
    api.outHasValue i s.1.slots
      = (idealSlots p.plan.toCompiledPlan V).outHasValue i t.1.slots :=
  hapi.outHasValue h.rep hi (ValidPlan.payloadNode_of_direct hinto)
    (ValidPlan.policy_of_direct hinto) (h.liveOn (List.Subset.refl _))

theorem sinkEmplace (hinto : (p.plan.task i).usesDirectOutputProtocol) (hmust : i ∉ must)
    (payload : Option V) (h : Agree p.plan Rep must (p.plan.path i) s t) :
    Agree p.plan Rep must (p.plan.path i) (emplaceSink api i payload s.1, s.2)
      (emplaceSink (idealSlots p.plan.toCompiledPlan V) i payload t.1, t.2) := by
  have hlive := h.liveOn (List.Subset.refl _)
  cases payload with
  | none => exact h
  | some v =>
      exact h.onSlots (hapi.outEmplace v h.rep hi (ValidPlan.payloadNode_of_direct hinto)
        (ValidPlan.policy_of_direct hinto) hlive) idealEmplace_own
        (update_live (ValidPlan.payloadNode_of_direct hinto) h.live) (update_must hmust h.must)

theorem sinkDestroy (hinto : (p.plan.task i).usesDirectOutputProtocol)
    (hmust : i ∉ must) (h : Agree p.plan Rep must (p.plan.path i) s t) :
    Agree p.plan Rep must (p.plan.path i)
      (s.1.onSlots (api.outDestroy i), s.2)
      (t.1.onSlots ((idealSlots p.plan.toCompiledPlan V).outDestroy i), t.2) := by
  have hlive := h.liveOn (List.Subset.refl _)
  apply h.onSlots (hapi.outDestroy h.rep hi (ValidPlan.payloadNode_of_direct hinto)
    (ValidPlan.policy_of_direct hinto) hlive) idealDestroy_own
  · intro j hj
    replace hj : (idealDestroy i t.1.slots).2 j ≠ none := hj
    rw [idealDestroy_slots] at hj
    exact update_live (ValidPlan.payloadNode_of_direct hinto) h.live j hj
  · intro j hj hpayload hpolicy
    show (idealDestroy i t.1.slots).2 j ≠ none
    rw [idealDestroy_slots]
    exact update_must hmust h.must j hj hpayload hpolicy

theorem cleanUpSink (hinto : (p.plan.task i).usesDirectOutputProtocol)
    (hmust : i ∉ must) (h : Agree p.plan Rep must (p.plan.path i) s t) :
    Agree p.plan Rep must (p.plan.path i) (cleanUpSink api i s.1, s.2)
      (cleanUpSink (idealSlots p.plan.toCompiledPlan V) i t.1, t.2) := by
  unfold YOrch.cleanUpSink
  rw [sinkHasValue hapi hi hinto h]
  split
  · exact sinkDestroy hapi hi hinto hmust h
  · exact h

/-- `slots.destroy<I>()` as the executor calls it. -/
theorem destroy (hpayload : p.plan.payloadNode i)
    (hflag : p.plan.slotLogicalPolicy i ≠ .maybePayload → t.1.slots i ≠ none)
    (hmust : i ∉ must) (h : Agree p.plan Rep must (p.plan.path i) s t) :
    Agree p.plan Rep must (p.plan.path i).tail
      (s.1.onSlots (api.destroy i), s.2)
      (t.1.onSlots ((idealSlots p.plan.toCompiledPlan V).destroy i), t.2) := by
  have hlive := h.liveOn (List.Subset.refl _)
  have hideal : (idealSlots p.plan.toCompiledPlan V).destroy i t.1.slots
      = idealDestroy i t.1.slots := idealSlots_destroy hi hpayload
  have hop := hapi.destroy h.rep hi hpayload hlive hflag
  apply h.onSlots (by rw [hideal]; exact hop)
  · rw [hideal]
    exact idealDestroy_own
  · intro j hj
    rw [hideal, idealDestroy_slots] at hj
    exact update_none_live h.live j hj
  · intro j hj hp hpolicy
    rw [hideal, idealDestroy_slots]
    exact update_must hmust h.must j hj hp hpolicy

theorem emplace (hpayload : p.plan.payloadNode i) (v : V)
    (h : Agree p.plan Rep (p.plan.path i).tail (p.plan.path i) s t) :
    Agree p.plan Rep (p.plan.path i) (p.plan.path i) (s.1.onSlots (api.emplace i v), s.2)
      (t.1.onSlots ((idealSlots p.plan.toCompiledPlan V).emplace i v), t.2) := by
  have hlive := h.liveOn (List.Subset.refl _)
  apply enter
  · exact h.onSlots (hapi.emplace v h.rep hi hpayload hlive) idealEmplace_own
      (update_live hpayload h.live) (update_must (not_mem_tail hi) h.must)
  · intro _ _
    show Function.update t.1.slots i (some v) i ≠ none
    rw [Function.update_self]
    exact Option.some_ne_none v

theorem output_eq (h : Agree p.plan Rep must live s t) :
    nodeOutput api p i s.1 = nodeOutput (idealSlots p.plan.toCompiledPlan V) p i t.1 := by
  unfold nodeOutput
  split
  · rfl
  · next hvoid => exact hapi.get h.rep hi (by simpa using hvoid)

theorem finishNode (h : Agree p.plan Rep must live s t) :
    Agree p.plan Rep must live (finishNode api p i s.1, s.2)
      (finishNode (idealSlots p.plan.toCompiledPlan V) p i t.1, t.2) := by
  unfold YOrch.finishNode
  rw [output_eq hapi hi h]
  exact h.record (by nofun)

end Node

end Agree

/-! ## §6. Runs. -/

section Run

variable {Rep : S → (Nat → Option V) → Prop} {p : Program V W} {api : SlotsApi V S} {i : Nat}

open Agree

/-- Agreement survives the execution of a node's task. -/
theorem node_agrees (hapi : Refines p.plan api Rep) (hi : i < p.plan.nodeCount)
    {must : List Nat} (hmust : i ∉ must) :
    NodeSim api (idealSlots p.plan.toCompiledPlan V) p i
      (fun phase => match phase with
        | .sinking _ => fun s t => (p.plan.task i).usesDirectOutputProtocol
            ∧ Agree p.plan Rep must (attemptLive p.plan i) s t
        | _ => Agree p.plan Rep must (attemptLive p.plan i))
      SameTrace where
  world phase s t hst := by
    cases phase with
    | sinking body => exact ⟨hst.2.world, fun w => ⟨hst.1, hst.2.setWorld w⟩⟩
    | _ => exact ⟨hst.world, hst.setWorld⟩
  halts phase s t hst := by
    cases phase with
    | sinking body => exact hst.2.sameTrace
    | _ => exact hst.sameTrace
  violate phase violation s t _ hst := by
    cases phase with
    | sinking body => exact (hst.2.record (by nofun)).sameTrace
    | _ => exact (Agree.record hst (by nofun)).sameTrace
  attempt s t hst := by
    unfold beginAttempt
    cases hinto : (p.plan.task i).usesDirectOutputProtocol with
    | true =>
        -- the attempt records whether its sink holds a value: both backends agree
        have h := hst
        rw [attemptLive_direct hinto] at h
        rw [sinkHasValue hapi hi hinto h]
        exact hst.record (by nofun)
    | false => exact hst.record (by nofun)
  abandon _ _ _ hst := hst
  skip _ _ _ _ _ hst := hst
  read _ _ _ _ _ hst := read_eq hapi hst hi
  resolve binding rest s t source v arg left w _ hst _ _ _ := by
    unfold resolveStep
    split
    · exact ((Agree.record hst (by nofun)).writePrev hapi hi left).setWorld w
    · exact (Agree.record hst (by nofun)).setWorld w
  write written s t _ hst := hst.writeBack hapi hi written
  sink _ _ _ _ hinto hst := ⟨hinto, hst⟩
  sinkHasValue next s t hst := by
    have h := hst.2
    rw [attemptLive_direct hst.1] at h
    exact ⟨sinkHasValue hapi hi hst.1 h, hst⟩
  sinkEmplace payload next s t hst := by
    have h := hst.2
    rw [attemptLive_direct hst.1] at h ⊢
    have hviolate : Agree p.plan Rep must (p.plan.path i)
        (s.1.violate (.emplaceOverLive i), s.2) (t.1.violate (.emplaceOverLive i), t.2) :=
      h.record (by nofun)
    exact ⟨sinkHasValue hapi hi hst.1 h,
      fun _ => ⟨hst.1, h.sinkEmplace hapi hi hst.1 hmust payload⟩,
      fun _ => ⟨⟨hst.1, hviolate.sinkEmplace hapi hi hst.1 hmust payload⟩, hviolate.sameTrace⟩⟩
  sinkDestroy next s t hst := by
    have h := hst.2
    rw [attemptLive_direct hst.1] at h ⊢
    exact ⟨hst.1, h.sinkDestroy hapi hi hst.1 hmust⟩
  sinkFinish exit written world s t hst := hst.2.writeBack hapi hi written
  again _ _ _ _ hst := hst
  cleanUp s t hinto _ hst := by
    rw [attemptLive_direct hinto] at hst ⊢
    exact hst.cleanUpSink hapi hi hinto hmust

/-- Agreement survives everything a node does. -/
theorem enter_agrees (hapi : Refines p.plan api Rep) (hi : i < p.plan.nodeCount) :
    EnterSim api (idealSlots p.plan.toCompiledPlan V) p i
      (Agree p.plan Rep (p.plan.path i).tail (p.plan.path i).tail)
      (Agree p.plan Rep (p.plan.path i) (p.plan.path i))
      (Agree p.plan Rep (p.plan.path i).tail (p.plan.path i).tail)
      (fun phase => match phase with
        | .sinking _ => fun s t => (p.plan.task i).usesDirectOutputProtocol
            ∧ Agree p.plan Rep (p.plan.path i).tail (attemptLive p.plan i) s t
        | _ => Agree p.plan Rep (p.plan.path i).tail (attemptLive p.plan i))
      SameTrace where
  toNodeSim := node_agrees hapi hi (not_mem_tail hi)
  enter s t hst := by
    rw [read_eq hapi hst hi]
    apply (hst.record (by nofun)).weaken (List.Subset.refl _)
    -- while a sink task is tried its own payload may be live as well
    unfold attemptLive
    split
    · exact tail_subset p.plan.toPlanShape i
    · exact List.Subset.refl _
  hasValue s t hinto hst := by
    rw [attemptLive_direct hinto] at hst
    have hpayload := @ValidPlan.payloadNode_of_direct p.plan i hinto
    rw [idealSlots_hasValue hi hpayload]
    exact hapi.hasValue hst.rep hi hpayload (ValidPlan.policy_of_direct hinto)
      (hst.liveOn (List.Subset.refl _))
  finish s t hinto hst _ := by
    rw [attemptLive_direct hinto] at hst
    exact (hst.enter fun _ h => absurd (ValidPlan.policy_of_direct hinto) h).finishNode hapi hi
  finishMissing s t hinto hst _ := by
    rw [attemptLive_direct hinto] at hst
    exact ((hst.record (by nofun)).enter
      fun _ h => absurd (ValidPlan.policy_of_direct hinto) h).finishNode hapi hi
  failInto s t hinto hst := by
    rw [attemptLive_direct hinto] at hst
    exact hst.destroy hapi hi (ValidPlan.payloadNode_of_direct hinto)
      (fun h => absurd (ValidPlan.policy_of_direct hinto) h) (not_mem_tail hi)
  store v s t hraw hpayload hst := by
    rw [attemptLive_raw hraw] at hst
    have hframe := hst.weaken (List.Subset.refl _) (tail_subset _ i)
    exact (hframe.emplace hapi hi hpayload v).finishNode hapi hi
  pass s t hraw hpayload hst := by
    rw [attemptLive_raw hraw] at hst
    have h := hst.weaken (List.Subset.refl _) (tail_subset p.plan.toPlanShape i)
    exact (h.enter fun hp => absurd hp (by simp [hpayload])).finishNode hapi hi
  fail s t hraw hst := by
    rwa [attemptLive_raw hraw] at hst

/-- Staging a fanout. -/
theorem stage_agrees (hapi : Refines p.plan api Rep) (hi : i < p.plan.nodeCount)
    (hstaging : p.plan.parentRequiresFanoutStaging i) {must live : List Nat} :
    Exec.Sim (Agree p.plan Rep must live) (stageFanout api p i)
      (stageFanout (idealSlots p.plan.toCompiledPlan V) p i)
      (fun _ => Agree p.plan Rep must live) (Agree p.plan Rep must live) SameTrace := by
  have hworld : WorldStable (Agree (W := W) p.plan Rep must live) :=
    fun s t hst => ⟨hst.world, hst.setWorld⟩
  apply Exec.Sim.bind (look_sim (Q := fun _ => Agree p.plan Rep must live) fun s t hst =>
    ⟨hapi.get hst.rep hi (ValidPlan.output_of_staging hi hstaging), hst⟩)
  intro found
  cases found with
  | none =>
      apply Exec.Sim.bind (onMachine_sim (Q := SameTrace) fun s t hst =>
        (hst.record (by nofun)).sameTrace)
      exact fun _ => .halt fun _ _ hst => hst
  | some v =>
      apply Exec.Sim.bind (onWorld_sim hworld _)
      intro copied
      cases copied with
      | none => exact .throw fun _ _ hst => hst
      | some v => exact onMachine_sim fun s t hst => hst.emplaceStage i v

/-- Agreement survives a traversal. -/
theorem traversal_agrees (hapi : Refines p.plan api Rep) (fuel : Nat) :
    RunSim p.plan.toPlanShape p.plan.payloadNode (nodeOps api p fuel)
      (nodeOps (idealSlots p.plan.toCompiledPlan V) p fuel)
      (fun P _ => Agree p.plan Rep P P) (fun P _ => Agree p.plan Rep P P)
      (fun s t => ∃ live, Agree p.plan Rep [] live s t) SameTrace where
  staging := rfl
  enter i hi := (enter_agrees hapi hi).enterNode_sim hi fuel
  stage i hi hstaging := stage_agrees hapi hi hstaging
  unstaged _ _ _ _ _ _ := Iff.rfl
  unstage i _ _ _ _ _ hst := hst.destroyStage i
  destroy i hi hpayload n s t hst := by
    have h := hst.weaken (tail_subset p.plan.toPlanShape i) (List.Subset.refl _)
    exact h.destroy hapi hi hpayload
      (fun hpolicy => hst.must i (p.plan.self_mem_path i) hpayload hpolicy) (not_mem_tail hi)
  leave i hi hpayload n s t hst := {
    hst.weaken (tail_subset p.plan.toPlanShape i) (List.Subset.refl _) with
    live := by
      intro j hj
      obtain ⟨hmem, hp⟩ := hst.live j hj
      refine ⟨ValidPlan.mem_tail_path hmem ?_, hp⟩
      rintro rfl
      rw [hpayload] at hp
      cases hp }
  later _ _ _ _ _ _ hst := hst
  laterEntered _ _ _ _ _ _ hst := hst
  abandon P _ _ _ hst := ⟨P, hst.weaken (List.nil_subset _) (List.Subset.refl _)⟩
  abandonEntered P _ _ _ hst := ⟨P, hst.weaken (List.nil_subset _) (List.Subset.refl _)⟩

/-- The destructors at the end of a run. -/
theorem leaveRun_agrees (hapi : Refines p.plan api Rep) {live : List Nat}
    {s : Machine S V × W} {t : Machine (Nat → Option V) V × W}
    (hst : Agree p.plan Rep [] live s t) :
    SameTrace (leaveRun api p s.1, s.2)
      (leaveRun (idealSlots p.plan.toCompiledPlan V) p t.1, t.2) := by
  have hstages : ∀ n, Agree p.plan Rep [] live
      ((List.range n).foldl (fun m i => m.destroyStage i) s.1, s.2)
      ((List.range n).foldl (fun m i => m.destroyStage i) t.1, t.2) := by
    intro n
    induction n with
    | zero => exact hst
    | succ n ih =>
        rw [List.range_succ, List.foldl_append, List.foldl_append]
        exact ih.destroyStage n
  have h := hstages p.plan.nodeCount
  refine ⟨h.world, ?_, ?_⟩
  · show _ ++ _ = _ ++ _
    rw [hapi.destroyActiveSlots h.rep, h.events]
  · intro e he
    rcases List.mem_append.mp he with he | he
    · obtain ⟨e', he', heq⟩ := List.mem_map.mp he
      obtain rfl := Event.memory.inj heq
      exact idealDestroyAll_own _ (List.mem_reverse.mp he')
    · exact h.own e he

/-- Before a run nothing is live. -/
theorem Agree.start (hapi : Refines p.plan api Rep) (w : W) :
    Agree p.plan Rep [] [] (({ slots := api.initial } : Machine S V), w)
      (({ slots := fun _ => none } : Machine (Nat → Option V) V), w) where
  world := rfl
  events := rfl
  stage := rfl
  rep := hapi.initial
  own _ he := absurd he List.not_mem_nil
  live _ hj := absurd rfl hj
  must _ hj := absurd hj List.not_mem_nil

/-- **Every run is the run on the ideal backend.** -/
theorem run_agrees (hapi : Refines p.plan api Rep) (exec : ExecPolicy) (fuel : Nat) (w : W) :
    (runFrom api p exec fuel w).1
        = (runFrom (idealSlots p.plan.toCompiledPlan V) p exec fuel w).1
      ∧ SameTrace (runFrom api p exec fuel w).2
        (runFrom (idealSlots p.plan.toCompiledPlan V) p exec fuel w).2 := by
  have hrun : Exec.Sim (Agree p.plan Rep [] []) (runPlan api p exec fuel)
      (runPlan (idealSlots p.plan.toCompiledPlan V) p exec fuel) (fun _ => SameTrace) SameTrace
      SameTrace :=
    runPlan_sim (traversal_agrees hapi fuel) (fun s t hst => leaveRun_agrees hapi hst)
      (fun s t hst => leaveRun_agrees hapi hst.choose_spec) exec
  exact (hrun _ _ (.start hapi w)).same

end Run

/-- **The compact layout refines the one-to-one layout.**  For every validated
plan of bound tasks, every behaviour of the tasks, either executor and every
bound on the loops, the two runs exit the same way and leave the same world;
they enter the same nodes in the same order with the same parent payloads, and
all their events agree.  No payload is constructed over another node's, and
whatever is destroyed is the object meant. -/
theorem compact_refines_oneToOne (p : Program V W) (exec : ExecPolicy) (fuel : Nat) (w : W) :
    let compact := runFrom (compactSlots p.plan.toCompiledPlan V) p exec fuel w
    let oneToOne := runFrom (oneToOneSlots p.plan.toCompiledPlan V) p exec fuel w
    compact.1 = oneToOne.1
      ∧ compact.2.2 = oneToOne.2.2
      ∧ compact.2.1.entries = oneToOne.2.1.entries
      ∧ compact.2.1.events = oneToOne.2.1.events
      ∧ (∀ node onto, .memory (.constructed (.payload node) onto) ∈ compact.2.1.events →
          onto = none ∨ onto = some (.payload node))
      ∧ (∀ object held, .memory (.destroyed object held) ∈ compact.2.1.events →
          held = some object) := by
  obtain ⟨hexit, hworld, hevents, hown⟩ := run_agrees (compact_refines p.plan) exec fuel w
  obtain ⟨hexit', hworld', hevents', -⟩ := run_agrees (oneToOne_refines p.plan) exec fuel w
  have hsame := hevents.trans hevents'.symm
  refine ⟨hexit.trans hexit'.symm, hworld.trans hworld'.symm, ?_, hsame, ?_, ?_⟩
  · unfold Machine.entries
    rw [hsame]
  · intro node onto hmem
    rw [hevents] at hmem
    exact hown _ hmem
  · intro object held hmem
    rw [hevents] at hmem
    exact hown _ hmem

end YOrch
