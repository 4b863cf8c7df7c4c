/-
  YOrch.Executor.Liveness — which objects are live during a run.

  A run's log of constructions and destructions is replayed as a stack.
  `Stacked` says that the objects left are the staged copies and payloads on the
  current path, nearest first, and that an owned node on that path has its
  payload unless its direct-output task succeeded without one.  It survives
  everything a run on the ideal backend does if no callable emplaces twice:

    • `liveness_triple`, `liveness_run` — the step and the run,
    • `run_lifetimes` — for every layout and executor: nothing is constructed
      over a live object, objects are destroyed in reverse order, exactly the
      owned proper ancestors of a node are live when it is entered, and nothing
      is when the run returns.
-/
import YOrch.Executor.DirectOutput

namespace YOrch

open Library

variable {V W S : Type}

/-! ## §1. The log as a stack. -/

/-- The constructions and destructions among the events. -/
def memoryLog (events : List (Event V)) : List MemoryEvent :=
  events.filterMap fun event =>
    match event with
    | .memory e => some e
    | _ => none

/-- The objects live after the events, the latest first. -/
def liveAfter (events : List (Event V)) : Option (List RunObject) :=
  Lifetime.stackAfter (memoryLog events)

/-- The node whose payload an object is. -/
def RunObject.payloadNode? : RunObject → Option Nat
  | .payload node => some node
  | .stage _ => none

theorem liveAfter_quiet {event : Event V} (h : ∀ e, event ≠ .memory e)
    (events : List (Event V)) : liveAfter (event :: events) = liveAfter events := by
  cases event with
  | memory e => exact absurd rfl (h e)
  | _ => rfl

/-- The owned proper ancestors of `i` are live, nearest first, unless a task
among them succeeded without its payload. -/
def EntryLive (plan : ValidPlan) (i : Nat) (before : List (Event V)) : Prop :=
  (∀ j, .violated (.missingOutput j) ∉ before) →
    ∃ stack, liveAfter before = some stack
      ∧ stack.filterMap RunObject.payloadNode? = (plan.path i).tail.filter plan.payloadNode

/-- What holds of the log at any moment. -/
structure LogOk (plan : ValidPlan) (events : List (Event V)) : Prop where
  stacked : ∃ stack, liveAfter events = some stack
  entries : ∀ i prev before, .entered i prev :: before <:+ events → EntryLive plan i before
  calm : ∀ i, .violated (.emplaceOverLive i) ∉ events

/-- Events that say nothing about liveness. -/
def Event.Quiet : Event V → Prop
  | .memory _ | .entered _ _ | .violated (.emplaceOverLive _) => False
  | _ => True

namespace LogOk

variable {plan : ValidPlan} {events : List (Event V)} {event : Event V}

/-- An event that keeps the log a stack. -/
theorem cons (h : LogOk plan events) (hstack : ∃ stack, liveAfter (event :: events) = some stack)
    (hentry : ∀ i prev, event = .entered i prev → EntryLive plan i events)
    (hcalm : ∀ i, event ≠ .violated (.emplaceOverLive i)) : LogOk plan (event :: events) where
  stacked := hstack
  entries i prev before hsuffix := by
    rcases List.suffix_cons_iff.mp hsuffix with heq | hsuffix
    · rw [List.cons.injEq] at heq
      rw [heq.2]
      exact hentry i prev heq.1.symm
    · exact h.entries i prev before hsuffix
  calm i hmem := by
    rcases List.mem_cons.mp hmem with heq | hmem
    · exact hcalm i heq.symm
    · exact h.calm i hmem

theorem quiet (h : LogOk plan events) (hevent : event.Quiet) : LogOk plan (event :: events) := by
  have hmemory : ∀ e, event ≠ .memory e := by
    intro e heq
    subst heq
    exact hevent
  apply h.cons
  · rw [liveAfter_quiet hmemory]
    exact h.stacked
  · intro i prev heq
    subst heq
    exact absurd hevent id
  · intro i heq
    subst heq
    exact hevent

end LogOk

/-! ## §2. Live objects on the path. -/

/-- Node `q`'s live objects, the later one first. -/
def objectsOf (m : Machine (Nat → Option V) V) (q : Nat) : List RunObject :=
  (if (m.stage q).isSome then [.stage q] else [])
    ++ if (m.slots q).isSome then [.payload q] else []

/-- The live objects of a list of nodes. -/
def liveStack (L : List Nat) (m : Machine (Nat → Option V) V) : List RunObject :=
  L.flatMap (objectsOf m)

/-- The log left exactly the objects of the nodes in `live`, of which those in
`staged` may have staged copies, and those in `must` have their payloads. -/
structure Stacked (plan : ValidPlan) (staged must live : List Nat)
    (m : Machine (Nat → Option V) V) : Prop where
  log : LogOk plan m.events
  stack : liveAfter m.events = some (liveStack live m)
  payload : ∀ j, m.slots j ≠ none → j ∈ live ∧ plan.payloadNode j
  stage : ∀ q, m.stage q ≠ none → q ∈ staged ∧ plan.parentRequiresFanoutStaging q
  owned : ∀ j ∈ must, plan.payloadNode j →
    m.slots j ≠ none ∨ .violated (.missingOutput j) ∈ m.events

theorem objectsOf_congr {m m' : Machine (Nat → Option V) V} {q : Nat}
    (hstage : m'.stage q = m.stage q) (hslots : m'.slots q ≠ none ↔ m.slots q ≠ none) :
    objectsOf m' q = objectsOf m q := by
  have hsome : (m'.slots q).isSome = (m.slots q).isSome := by
    rw [Bool.eq_iff_iff, Option.isSome_iff_ne_none, Option.isSome_iff_ne_none]
    exact hslots
  rw [objectsOf, objectsOf, hstage, hsome]

theorem liveStack_congr {m m' : Machine (Nat → Option V) V} {L : List Nat}
    (h : ∀ q ∈ L, objectsOf m' q = objectsOf m q) : liveStack L m' = liveStack L m := by
  unfold liveStack
  rw [List.flatMap_def, List.flatMap_def, List.map_congr_left h]

/-- The live objects on a path: the node's own, then those above it. -/
theorem liveStack_path (plan : PlanShape) (i : Nat) (m : Machine (Nat → Option V) V) :
    liveStack (plan.path i) m = objectsOf m i ++ liveStack (plan.path i).tail m := by
  conv_lhs => rw [ValidPlan.path_cons plan i]
  rfl

/-- The payloads among the live objects. -/
theorem liveStack_payloads (m : Machine (Nat → Option V) V) : ∀ L : List Nat,
    (liveStack L m).filterMap RunObject.payloadNode? = L.filter fun q => (m.slots q).isSome
  | [] => rfl
  | q :: L => by
      have ih := liveStack_payloads m L
      unfold liveStack at ih ⊢
      rw [List.flatMap_cons, List.filterMap_append, ih, List.filter_cons, objectsOf]
      cases (m.stage q).isSome <;> cases (m.slots q).isSome <;> rfl

namespace Stacked

variable {plan : ValidPlan} {staged must live : List Nat} {m m' : Machine (Nat → Option V) V}
  {i : Nat}

/-- Only which payloads are live matters. -/
theorem congr (h : Stacked plan staged must live m) (hevents : m'.events = m.events)
    (hstage : m'.stage = m.stage) (hslots : ∀ j, m'.slots j ≠ none ↔ m.slots j ≠ none) :
    Stacked plan staged must live m' where
  log := hevents ▸ h.log
  stack := by
    rw [hevents, h.stack, liveStack_congr fun q _ => objectsOf_congr (congrFun hstage q) (hslots q)]
  payload j hj := h.payload j ((hslots j).mp hj)
  stage q hq := h.stage q (hstage ▸ hq)
  owned j hj hpayload := by
    rw [hslots, hevents]
    exact h.owned j hj hpayload

theorem record (h : Stacked plan staged must live m) {event : Event V}
    (hlog : LogOk plan (event :: m.events)) (hevent : ∀ e, event ≠ .memory e) :
    Stacked plan staged must live (m.record event) where
  log := hlog
  stack := (liveAfter_quiet hevent _).trans h.stack
  payload := h.payload
  stage := h.stage
  owned j hj hpayload := (h.owned j hj hpayload).imp_right (List.mem_cons_of_mem _)

theorem quiet (h : Stacked plan staged must live m) {event : Event V} (hevent : event.Quiet) :
    Stacked plan staged must live (m.record event) := by
  apply h.record (h.log.quiet hevent)
  intro e heq
  subst heq
  exact hevent

theorem stage_none (h : Stacked plan staged must live m) (hstage : i ∉ staged) :
    m.stage i = none := by
  by_contra hne
  exact hstage (h.stage i hne).1

/-- Entering a node below the path. -/
theorem enter (h : Stacked plan (plan.path i).tail (plan.path i).tail (plan.path i).tail m)
    (prev : Option V) :
    Stacked plan (plan.path i).tail (plan.path i).tail (plan.path i).tail
      (m.record (.entered i prev)) := by
  refine h.record (h.log.cons ⟨_, h.stack⟩ ?_ (by nofun)) (by nofun)
  intro j prev heq hmissing
  obtain ⟨rfl, -⟩ := Event.entered.inj heq
  refine ⟨_, h.stack, ?_⟩
  rw [liveStack_payloads]
  apply List.filter_congr
  intro q hq
  rw [Bool.eq_iff_iff, Option.isSome_iff_ne_none]
  constructor
  · exact fun hlive => (h.payload q hlive).2
  · exact fun hpayload => (h.owned q hq hpayload).resolve_right (hmissing q)

/-- Room for a node without objects. -/
theorem grow (h : Stacked plan staged must (plan.path i).tail m) (hstage : i ∉ staged)
    (hslot : m.slots i = none) : Stacked plan staged must (plan.path i) m :=
  { h with
    stack := by
      rw [h.stack, liveStack_path, objectsOf, h.stage_none hstage, hslot]
      rfl
    payload := fun j hj => (h.payload j hj).imp_left fun hj => Agree.tail_subset _ i hj }

/-- A node without objects is left. -/
theorem shrink (h : Stacked plan staged must (plan.path i) m) (hstage : i ∉ staged)
    (hslot : m.slots i = none) : Stacked plan staged must (plan.path i).tail m :=
  { h with
    stack := by
      rw [h.stack, liveStack_path, objectsOf, h.stage_none hstage, hslot]
      rfl
    payload := by
      intro j hj
      have hmem := h.payload j hj
      rw [ValidPlan.path_cons plan.toPlanShape i] at hmem
      refine hmem.imp_left fun hj' => (List.mem_cons.mp hj').resolve_left ?_
      intro hji
      exact hj (hji ▸ hslot) }

/-! ## §3. Constructions and destructions. -/

/-- Another node's objects stay as they are. -/
theorem liveStack_tail (hi : i < plan.nodeCount)
    (hstage : ∀ q, q ≠ i → m'.stage q = m.stage q)
    (hslots : ∀ q, q ≠ i → m'.slots q = m.slots q) :
    liveStack (plan.path i).tail m' = liveStack (plan.path i).tail m := by
  apply liveStack_congr
  intro q hq
  have hne : q ≠ i := by
    intro hqi
    exact Agree.not_mem_tail hi (hqi ▸ hq)
  exact objectsOf_congr (hstage q hne) (by rw [hslots q hne])

/-- A log that ends with an object put on top. -/
theorem push (h : Stacked plan staged must (plan.path i) m) (hi : i < plan.nodeCount)
    {o : RunObject} (hevents : m'.events = .memory (.constructed o none) :: m.events)
    (hself : objectsOf m' i = o :: objectsOf m i)
    (hstage : ∀ q, q ≠ i → m'.stage q = m.stage q)
    (hslots : ∀ q, q ≠ i → m'.slots q = m.slots q) :
    LogOk plan m'.events ∧ liveAfter m'.events = some (liveStack (plan.path i) m') := by
  have hstack : liveAfter m'.events = some (liveStack (plan.path i) m') := by
    rw [hevents, liveStack_path, hself, liveStack_tail hi hstage hslots, List.cons_append,
      ← liveStack_path]
    exact Lifetime.stackAfter_constructed h.stack
  refine ⟨?_, hstack⟩
  rw [hevents] at hstack ⊢
  exact h.log.cons ⟨_, hstack⟩ (by nofun) (by nofun)

/-- A log that ends with the top object destroyed. -/
theorem pop (h : Stacked plan staged must (plan.path i) m) (hi : i < plan.nodeCount)
    {o : RunObject} (hevents : m'.events = .memory (.destroyed o (some o)) :: m.events)
    (hself : objectsOf m i = o :: objectsOf m' i)
    (hstage : ∀ q, q ≠ i → m'.stage q = m.stage q)
    (hslots : ∀ q, q ≠ i → m'.slots q = m.slots q) :
    LogOk plan m'.events ∧ liveAfter m'.events = some (liveStack (plan.path i) m') := by
  have hstack : liveAfter m'.events = some (liveStack (plan.path i) m') := by
    have hbefore := h.stack
    rw [liveStack_path, hself, ← liveStack_tail hi hstage hslots, List.cons_append,
      ← liveStack_path] at hbefore
    rw [hevents]
    exact Lifetime.stackAfter_destroyed hbefore
  refine ⟨?_, hstack⟩
  rw [hevents] at hstack ⊢
  exact h.log.cons ⟨_, hstack⟩ (by nofun) (by nofun)

/-- Obligations survive another event, where the payloads of `must` do. -/
theorem owned_cons (h : Stacked plan staged must live m) {event : Event V}
    (hevents : m'.events = event :: m.events) (hslots : ∀ j ∈ must, m.slots j ≠ none →
      m'.slots j ≠ none) : ∀ j ∈ must, plan.payloadNode j →
      m'.slots j ≠ none ∨ .violated (.missingOutput j) ∈ m'.events := by
  intro j hj hpayload
  rw [hevents]
  exact (h.owned j hj hpayload).imp (hslots j hj) (List.mem_cons_of_mem _)

/-- Node `i`'s payload is constructed. -/
theorem emplace (h : Stacked plan staged must (plan.path i) m) (hi : i < plan.nodeCount)
    (hstage : i ∉ staged) (hpayload : plan.payloadNode i) (hslot : m.slots i = none) (v : V) :
    Stacked plan staged must (plan.path i) (m.onSlots (idealEmplace i v)) := by
  have hnone := h.stage_none hstage
  have hevents : (m.onSlots (idealEmplace i v)).events
      = .memory (.constructed (.payload i) none) :: m.events := by
    show _ :: _ = _ :: _
    rw [hslot]
    rfl
  have hslots : (m.onSlots (idealEmplace i v)).slots = Function.update m.slots i (some v) := rfl
  have hself : objectsOf (m.onSlots (idealEmplace i v)) i = .payload i :: objectsOf m i := by
    rw [objectsOf, objectsOf, hslots, Machine.onSlots_stage, Function.update_self, hnone, hslot]
    rfl
  obtain ⟨hlog, hstack⟩ := h.push hi hevents hself (fun _ _ => rfl)
    fun q hq => by rw [hslots, Function.update_of_ne hq]
  refine ⟨hlog, hstack, Agree.update_live hpayload h.payload, h.stage, h.owned_cons hevents ?_⟩
  intro j hj hlive
  rw [hslots]
  by_cases hji : j = i
  · rw [hji, Function.update_self]
    exact Option.some_ne_none v
  · rwa [Function.update_of_ne hji]

/-- Node `i`'s payload is destroyed, if it is live. -/
theorem destroy (h : Stacked plan staged must (plan.path i) m) (hi : i < plan.nodeCount)
    (hstage : i ∉ staged) (hmust : i ∉ must) :
    Stacked plan staged must (plan.path i) (m.onSlots (idealDestroy i)) := by
  cases hslot : m.slots i with
  | none => rwa [onSlots_idealDestroy_none hslot]
  | some v =>
      have hnone := h.stage_none hstage
      have hevents := onSlots_idealDestroy_events hslot
      have hslots : (m.onSlots (idealDestroy i)).slots = Function.update m.slots i none :=
        idealDestroy_slots
      have hself : objectsOf m i = .payload i :: objectsOf (m.onSlots (idealDestroy i)) i := by
        rw [objectsOf, objectsOf, hslots, Machine.onSlots_stage, Function.update_self, hnone,
          hslot]
        rfl
      obtain ⟨hlog, hstack⟩ := h.pop hi hevents hself (fun _ _ => rfl)
        fun q hq => by rw [hslots, Function.update_of_ne hq]
      refine ⟨hlog, hstack, ?_, h.stage, h.owned_cons hevents ?_⟩
      · intro j hj
        rw [hslots] at hj
        exact (Agree.update_none_live h.payload j hj).imp_left fun hj =>
          Agree.tail_subset _ i hj
      · intro j hj hlive
        rwa [hslots, Function.update_of_ne fun hji : j = i => hmust (hji ▸ hj)]

/-- A copy of node `i`'s payload is staged. -/
theorem emplaceStage (h : Stacked plan (plan.path i).tail must (plan.path i) m)
    (hi : i < plan.nodeCount) (hstaging : plan.parentRequiresFanoutStaging i) (v : V) :
    Stacked plan (plan.path i) must (plan.path i) (m.emplaceStage i v) := by
  have hnone := h.stage_none (Agree.not_mem_tail hi)
  have hevents :
      (m.emplaceStage i v).events = .memory (.constructed (.stage i) none) :: m.events := by
    show _ :: _ = _ :: _
    rw [hnone]
    rfl
  have hstage : (m.emplaceStage i v).stage = Function.update m.stage i (some v) := rfl
  have hself : objectsOf (m.emplaceStage i v) i = .stage i :: objectsOf m i := by
    rw [objectsOf, objectsOf, hstage, Function.update_self, hnone]
    rfl
  obtain ⟨hlog, hstack⟩ := h.push hi hevents hself
    (fun q hq => by rw [hstage, Function.update_of_ne hq]) fun _ _ => rfl
  refine ⟨hlog, hstack, h.payload, ?_, h.owned_cons hevents fun _ _ => id⟩
  intro q hq
  rw [hstage] at hq
  by_cases hqi : q = i
  · rw [hqi]
    exact ⟨plan.self_mem_path i, hstaging⟩
  · rw [Function.update_of_ne hqi] at hq
    exact (h.stage q hq).imp_left fun hq => Agree.tail_subset _ i hq

/-- The staged copy of node `i`'s payload is destroyed. -/
theorem destroyStage (h : Stacked plan (plan.path i) must (plan.path i) m)
    (hi : i < plan.nodeCount) :
    Stacked plan (plan.path i).tail must (plan.path i) (m.destroyStage i) := by
  have htail : ∀ q, q ≠ i → m.stage q ≠ none →
      q ∈ (plan.path i).tail ∧ plan.parentRequiresFanoutStaging q := by
    intro q hqi hq
    have hmem := h.stage q hq
    rw [ValidPlan.path_cons plan.toPlanShape i] at hmem
    exact hmem.imp_left fun hmem => (List.mem_cons.mp hmem).resolve_left hqi
  cases hv : m.stage i with
  | none =>
      rw [Machine.destroyStage_none hv]
      exact { h with stage := fun q hq => htail q (fun hqi => hq (hqi ▸ hv)) hq }
  | some v =>
      -- the copy was constructed after node `i`'s payload, so it is on top
      have hevents := Machine.destroyStage_events hv
      have hstage : (m.destroyStage i).stage = Function.update m.stage i none :=
        m.destroyStage_stage i
      have hself : objectsOf m i = .stage i :: objectsOf (m.destroyStage i) i := by
        rw [objectsOf, objectsOf, hstage, Function.update_self, Machine.destroyStage_slots, hv]
        rfl
      obtain ⟨hlog, hstack⟩ := h.pop hi hevents hself
        (fun q hq => by rw [hstage, Function.update_of_ne hq])
        fun q _ => by rw [Machine.destroyStage_slots]
      refine ⟨hlog, hstack, ?_, ?_, h.owned_cons hevents ?_⟩
      · rw [Machine.destroyStage_slots]
        exact h.payload
      · intro q hq
        rw [hstage] at hq
        by_cases hqi : q = i
        · rw [hqi, Function.update_self] at hq
          exact absurd rfl hq
        · rw [Function.update_of_ne hqi] at hq
          exact htail q hqi hq
      · rw [Machine.destroyStage_slots]
        exact fun _ _ => id

/-- Node `i` joins the nodes that have a payload. -/
theorem join (h : Stacked plan staged (plan.path i).tail live m)
    (hpayload : plan.payloadNode i → m.slots i ≠ none ∨ .violated (.missingOutput i) ∈ m.events) :
    Stacked plan staged (plan.path i) live m :=
  { h with
    owned := by
      intro j hj
      rw [ValidPlan.path_cons plan.toPlanShape i] at hj
      rcases List.mem_cons.mp hj with rfl | hj
      · exact hpayload
      · exact h.owned j hj }

theorem part (h : Stacked plan staged (plan.path i) live m) :
    Stacked plan staged (plan.path i).tail live m :=
  { h with owned := fun j hj => h.owned j (Agree.tail_subset _ i hj) }

end Stacked

/-! ## §4. One node. -/

section Node

variable {p : Program V W} {i : Nat} {staged must live : List Nat}
  {m : Machine (Nat → Option V) V}

theorem Stacked.resolveStep (h : Stacked p.plan staged must live m) (binding : Spec × CppType)
    (source : PrevSource) (arg : Option V) (left : V) :
    Stacked p.plan staged must live
      (resolveStep (idealSlots p.plan.toCompiledPlan V) p i binding source arg left m) := by
  have hquiet : Stacked p.plan staged must live
      (m.record (.resolved i binding.1.kind source arg)) := h.quiet trivial
  exact hquiet.congr (resolveStep_events ..) (resolveStep_stage ..)
    (resolveStep_live p i binding source arg left m)

theorem Stacked.writeBack (h : Stacked p.plan staged must live m) (written : Option V) :
    Stacked p.plan staged must live
      (writeBack (idealSlots p.plan.toCompiledPlan V) p i written m) :=
  h.congr (writeBack_events ..) (writeBack_stage ..) (writeBack_live p i written m)

theorem Stacked.cleanUpSink (h : Stacked p.plan staged must (p.plan.path i) m)
    (hi : i < p.plan.nodeCount) (hstage : i ∉ staged) (hmust : i ∉ must) :
    Stacked p.plan staged must (p.plan.path i)
        (cleanUpSink (idealSlots p.plan.toCompiledPlan V) i m)
      ∧ (cleanUpSink (idealSlots p.plan.toCompiledPlan V) i m).slots i = none := by
  unfold YOrch.cleanUpSink
  split
  · exact ⟨h.destroy hi hstage hmust, idealDestroy_self⟩
  · next hdead =>
      refine ⟨h, ?_⟩
      by_contra hne
      exact hdead (Option.isSome_iff_ne_none.mpr hne)

/-- The live objects while node `i` is entered. -/
theorem liveness_triple (hi : i < p.plan.nodeCount)
    (honce : (p.plan.task i).usesDirectOutputProtocol →
      ∀ args w, ((p.behaviour i).sinkBody args w).EmplacesAtMost false 1) :
    EnterTriple (idealSlots p.plan.toCompiledPlan V) p i
      (fun s => Stacked p.plan (p.plan.path i).tail (p.plan.path i).tail (p.plan.path i).tail s.1)
      (fun s => Stacked p.plan (p.plan.path i).tail (p.plan.path i) (p.plan.path i) s.1)
      (fun s => Stacked p.plan (p.plan.path i).tail (p.plan.path i).tail (p.plan.path i).tail s.1)
      (fun phase s => Stacked p.plan (p.plan.path i).tail (p.plan.path i).tail (p.plan.path i) s.1
        ∧ match phase with
          | .ready => s.1.slots i = none
          | .evaluating _ => s.1.slots i = none
          | .sinking body => (p.plan.task i).usesDirectOutputProtocol
              ∧ ∃ n ≤ 1, body.EmplacesAtMost (s.1.slots i).isSome n
                ∧ (s.1.slots i ≠ none → n = 0)
          | .tried => (p.plan.task i).usesDirectOutputProtocol = false → s.1.slots i = none)
      (fun s => LogOk p.plan s.1.events) where
  world phase s w hs := by cases phase <;> exact hs
  halts phase s hs := hs.1.log
  violate phase violation s hne hs := by
    apply hs.1.log.quiet
    cases violation with
    | emplaceOverLive j => exact absurd rfl (hne j)
    | _ => trivial
  attempt s hs := ⟨hs.1.quiet trivial, hs.2⟩
  abandon rest s hs := ⟨hs.1, fun _ => hs.2⟩
  skip _ _ _ _ hs := hs
  -- an argument may write into an ancestor's payload, never into `i`'s own slot
  resolve binding rest s source v arg left w _ hs _ _ _ := by
    refine ⟨hs.1.resolveStep binding source arg left, ?_⟩
    by_contra hne
    exact (resolveStep_live p i binding source arg left s.1 i).mp hne hs.2
  write written s _ hs := by
    refine ⟨hs.1.writeBack written, fun _ => ?_⟩
    by_contra hne
    exact (writeBack_live p i written s.1 i).mp hne hs.2
  sink args w s hinto hs := by
    refine ⟨hs.1, hinto, 1, Nat.le_refl 1, ?_, fun hne => absurd hs.2 hne⟩
    rw [hs.2]
    exact honce hinto args w
  sinkHasValue next s hs := hs
  sinkEmplace payload next s hs := by
    obtain ⟨hstacked, hinto, n, hn, hbody, hzero⟩ := hs
    obtain ⟨hempty, k, rfl⟩ := hbody.budget hzero
    refine ⟨fun _ => ?_, fun hlive => ?_⟩
    · have hslot : (emplaceSink (idealSlots p.plan.toCompiledPlan V) i payload s.1).slots i
          = payload := emplaceSink_slot hempty payload
      simp only [SinkBody.EmplacesAtMost, hempty, Option.isSome_none, Bool.false_or] at hbody
      refine ⟨?_, hinto, k, by omega, by rwa [hslot], fun _ => by omega⟩
      cases payload with
      | none => exact hstacked
      | some v =>
          exact hstacked.emplace hi (Agree.not_mem_tail hi)
            (ValidPlan.payloadNode_of_direct hinto) hempty v
    · simp [idealSlots, hempty] at hlive
  sinkDestroy next s hs := by
    obtain ⟨hstacked, hinto, n, hn, hbody, -⟩ := hs
    have hmem := Agree.not_mem_tail hi
    have hnone : (s.1.onSlots (idealDestroy i)).slots i = none := idealDestroy_self
    refine ⟨hstacked.destroy hi hmem hmem, hinto, n, hn, ?_, fun hne => absurd hnone hne⟩
    show next.EmplacesAtMost ((s.1.onSlots (idealDestroy i)).slots i).isSome n
    rw [hnone]
    exact hbody
  sinkFinish exit written world s hs := by
    refine ⟨hs.1.writeBack written, fun hraw => ?_⟩
    rw [hs.2.1] at hraw
    cases hraw
  -- nothing is destroyed between raw attempts; between the others, the sink is
  again s hraw _ hs := ⟨hs.1, hs.2 hraw⟩
  cleanUp s _ _ hs := hs.1.cleanUpSink hi (Agree.not_mem_tail hi) (Agree.not_mem_tail hi)
  enter s hs := by
    have hslot : s.1.slots i = none := by
      by_contra hne
      exact Agree.not_mem_tail hi (hs.payload i hne).1
    exact ⟨(hs.enter _).grow (Agree.not_mem_tail hi) hslot, hslot⟩
  finish s hinto hs hlive := by
    rw [idealSlots_hasValue hi (ValidPlan.payloadNode_of_direct hinto)] at hlive
    exact (hs.1.join fun _ => Or.inl (Option.isSome_iff_ne_none.mp hlive)).quiet trivial
  -- a success without an output: the violation on record stands for the payload
  finishMissing s hinto hs _ := by
    have hviolate : Stacked p.plan (p.plan.path i).tail (p.plan.path i).tail (p.plan.path i)
      (s.1.violate (.missingOutput i)) := hs.1.quiet trivial
    exact (hviolate.join fun _ => Or.inr List.mem_cons_self).quiet trivial
  failInto s hinto hs := by
    have hmem := Agree.not_mem_tail hi
    rw [idealSlots_onDestroy hi (ValidPlan.payloadNode_of_direct hinto)]
    exact (hs.1.destroy hi hmem hmem).shrink hmem idealDestroy_self
  store v s hraw hpayload hs := by
    have h := hs.1.emplace hi (Agree.not_mem_tail hi) hpayload (hs.2 hraw) v
    refine (h.join fun _ => Or.inl ?_).quiet trivial
    show Function.update s.1.slots i (some v) i ≠ none
    rw [Function.update_self]
    exact Option.some_ne_none v
  pass s hraw hpayload hs := by
    exact (hs.1.join fun h => absurd h (by simp [hpayload])).quiet trivial
  fail s hraw hs := hs.1.shrink (Agree.not_mem_tail hi) (hs.2 hraw)

/-! ## §5. Whole runs. -/

/-- Destroying node `i`'s payload where the traversal leaves it. -/
theorem Stacked.leave (h : Stacked p.plan (p.plan.path i).tail (p.plan.path i) (p.plan.path i) m)
    (hi : i < p.plan.nodeCount) :
    Stacked p.plan (p.plan.path i).tail (p.plan.path i).tail (p.plan.path i).tail
      (m.onSlots (idealDestroy i)) := by
  have hmem := Agree.not_mem_tail hi
  exact (h.part.destroy hi hmem hmem).shrink hmem idealDestroy_self

/-- The live objects during a traversal. -/
theorem liveness_run (fuel : Nat)
    (honce : ∀ i < p.plan.nodeCount, (p.plan.task i).usesDirectOutputProtocol →
      ∀ args w, ((p.behaviour i).sinkBody args w).EmplacesAtMost false 1) :
    RunTriple p.plan.toPlanShape p.plan.payloadNode
      (nodeOps (idealSlots p.plan.toCompiledPlan V) p fuel)
      (fun P _ s => Stacked p.plan P P P s.1) (fun P _ s => Stacked p.plan P.tail P P s.1)
      (fun _ => True) (fun s => LogOk p.plan s.1.events) where
  enter i hi := (liveness_triple hi (honce i hi)).enterNode hi fuel
  stage i hi hstaging := stageFanout_triple (fun _ _ hs => hs) (fun _ hs => hs.log.quiet trivial)
    fun s _ _ v hs _ _ => hs.emplaceStage hi hstaging v
  -- a node that stages nothing never holds a stage, so it may join or leave them
  unstaged i hi hstaging n s := by
    constructor
    · intro hs
      have htail : ∀ q, s.1.stage q ≠ none →
          q ∈ p.plan.path i ∧ p.plan.parentRequiresFanoutStaging q :=
        fun q hq => (hs.stage q hq).imp_left fun hq => Agree.tail_subset _ i hq
      exact { hs with stage := htail }
    · intro hs
      refine { hs with stage := fun q hq => ?_ }
      obtain ⟨hmem, hstages⟩ := hs.stage q hq
      exact ⟨ValidPlan.mem_tail_of_staging hstaging hmem hstages, hstages⟩
  unstage i hi _ n s hs := hs.destroyStage hi
  destroy i hi hpayload n s hs := by
    show Stacked _ _ _ _ (s.1.onSlots ((idealSlots p.plan.toCompiledPlan V).destroy i))
    rw [idealSlots_onDestroy hi hpayload]
    exact hs.leave hi
  leave i hi hpayload n s hs := by
    apply hs.part.shrink (Agree.not_mem_tail hi)
    by_contra hne
    exact absurd ((hs.payload i hne).2.symm.trans hpayload) (by simp)
  later _ _ _ _ _ hs := hs
  laterEntered _ _ _ _ _ hs := hs
  abandon _ _ _ _ := trivial
  abandonEntered _ _ _ _ := trivial

end Node

/-! ## §6. Exceptions. -/

section Exceptions

variable {api : SlotsApi V S} {p : Program V W}

theorem contract_neverThrows (asserts : Bool) (violation : Violation)
    (holds : Machine S V → Bool) :
    Exec.NeverThrows (contract asserts violation holds : Exec (Machine S V × W) Unit) := by
  unfold contract
  apply Exec.NeverThrows.bind (.act _)
  intro fine
  split
  · exact .pure _
  · apply Exec.NeverThrows.bind (.act _)
    intro _
    split
    · exact .halt
    · exact .pure _

/-- Storing a payload only throws if the move constructor does. -/
theorem moveIntoSlot_neverThrows (hmove : ∀ w v, (p.move w v).1 ≠ none) (i : Nat) (v : V) :
    Exec.NeverThrows (moveIntoSlot api p i v) := by
  apply Exec.NeverThrows.act_bind
  intro s
  obtain ⟨v', hv'⟩ := Option.ne_none_iff_exists'.mp (hmove s.2 v)
  dsimp only
  rw [hv']
  exact Exec.NeverThrows.act _ _

theorem storeNodeOutput_neverThrows (hmove : ∀ w v, (p.move w v).1 ≠ none) (i : Nat) :
    ∀ (kind : RawKind) (raw : kind.Result V), Exec.NeverThrows (storeNodeOutput api p i kind raw)
  | .void, _ | .step, _ => .pure _
  | .taskResult, ⟨_, some v⟩ =>
      (moveIntoSlot_neverThrows hmove i v).bind fun _ => .pure _
  | .taskResult, ⟨_, none⟩ => Exec.NeverThrows.bind (.act _) fun _ => .halt
  | .value, v => (moveIntoSlot_neverThrows hmove i v).bind fun _ => .pure _

/-- Entering a direct-output node throws nothing. -/
theorem enterInto_neverThrows (fuel i : Nat) : Exec.NeverThrows (enterInto api p fuel i) := by
  unfold enterInto
  apply Exec.NeverThrows.bind (.noexcept _)
  intro step
  apply Exec.NeverThrows.bind
  · unfold finalizeDirectOutputStep
    split
    · exact (contract_neverThrows _ _ _).bind fun _ => .pure _
    · exact Exec.NeverThrows.bind (.act _) fun _ => .pure _
  · intro step
    split
    · exact Exec.NeverThrows.bind (.act _) fun _ => .pure _
    · exact .pure _

theorem enterNode_neverThrows (hmove : ∀ w v, (p.move w v).1 ≠ none) (fuel i : Nat) :
    Exec.NeverThrows (enterNode api p fuel i) := by
  unfold enterNode
  apply Exec.NeverThrows.bind (.act _)
  intro _
  split
  · exact enterInto_neverThrows fuel i
  · unfold enterRaw
    apply Exec.NeverThrows.bind (.noexcept _)
    intro raw
    split
    · apply (storeNodeOutput_neverThrows hmove i _ raw).bind
      intro live
      exact Exec.NeverThrows.bind (.act _) fun _ => .pure _
    · exact .pure _

/-- Staging only throws if the copy constructor does. -/
theorem stageFanout_neverThrows (hcopy : ∀ w v, (p.copy w v).1 ≠ none) (i : Nat) :
    Exec.NeverThrows (stageFanout api p i) := by
  unfold stageFanout
  apply Exec.NeverThrows.bind (.act _)
  intro found
  cases found with
  | none => exact Exec.NeverThrows.bind (.act _) fun _ => .halt
  | some v =>
      apply Exec.NeverThrows.act_bind
      intro s
      obtain ⟨v', hv'⟩ := Option.ne_none_iff_exists'.mp (hcopy s.2 v)
      dsimp only
      rw [hv']
      exact Exec.NeverThrows.act _ _

theorem dfsNode_neverThrows {σ : Type} {ops : DfsOps σ}
    (henter : ∀ i, Exec.NeverThrows (ops.enterNode i))
    (hstage : ∀ i, Exec.NeverThrows (ops.stage i)) (unwind : Bool) (i : Nat)
    {children : Exec σ StepResult} (h : Exec.NeverThrows children) :
    Exec.NeverThrows (dfsNode unwind ops i children) := by
  have hprepare : Exec.NeverThrows (ops.prepareFanoutStaging i) := by
    unfold DfsOps.prepareFanoutStaging
    split
    · exact hstage i
    · exact .pure _
  apply (henter i).bind
  intro entered
  split
  · exact (hprepare.bind fun _ => h.onExit _ _).onExit _ _
  · exact .pure _

theorem dfsChildren_neverThrows {σ : Type} {ops : DfsOps σ}
    (henter : ∀ i, Exec.NeverThrows (ops.enterNode i))
    (hstage : ∀ i, Exec.NeverThrows (ops.stage i)) (unwind : Bool) (f : Forest Nat) :
    Exec.NeverThrows (dfsChildren unwind ops f) := by
  induction f with
  | nil => exact .pure _
  | cons i below rest ihbelow ihrest =>
      apply (dfsNode_neverThrows henter hstage unwind i ihbelow).bind
      intro step
      split
      · exact .pure _
      · exact ihrest

/-- No run throws if copies and moves do not. -/
theorem runPlan_neverThrows (hcopy : ∀ w v, (p.copy w v).1 ≠ none)
    (hmove : ∀ w v, (p.move w v).1 ≠ none) (exec : ExecPolicy) (fuel : Nat) :
    Exec.NeverThrows (runPlan api p exec fuel) := by
  have henter : ∀ i, Exec.NeverThrows ((nodeOps api p fuel).enterNode i) :=
    enterNode_neverThrows hmove fuel
  have hstage : ∀ i, Exec.NeverThrows ((nodeOps api p fuel).stage i) :=
    stageFanout_neverThrows hcopy
  unfold runPlan
  apply Exec.NeverThrows.onExit
  cases exec with
  | serialDfsRecursive =>
      simp only [runNode_root]
      exact dfsNode_neverThrows henter hstage true 0 (dfsChildren_neverThrows henter hstage true _)
  | serialDfsExplicitHeapStack =>
      simp only [runExplicitHeapStack_eq_dfs]
      exact dfsNode_neverThrows henter hstage false 0
        (dfsChildren_neverThrows henter hstage false _)

end Exceptions

/-! ## §7. The whole run. -/

section Run

variable {p : Program V W} {m : Machine (Nat → Option V) V}

/-- The destructors find nothing to destroy. -/
theorem leaveRun_nothing (hslots : ∀ i, m.slots i = none) (hstage : ∀ q, m.stage q = none) :
    (leaveRun (idealSlots p.plan.toCompiledPlan V) p m).events = m.events := by
  have hstages : ∀ n, (List.range n).foldl (fun m i => m.destroyStage i) m = m := by
    intro n
    induction n with
    | zero => rfl
    | succ n ih =>
        rw [List.range_succ, List.foldl_append, ih]
        exact Machine.destroyStage_none (hstage n)
  have hnothing : (idealSlots p.plan.toCompiledPlan V).destroyActiveSlots m.slots
      = ([], m.slots) := by
    show forEachNode p.plan.nodeCount (fun i f =>
      if p.plan.ownsPayload i then idealDestroy i f else ([], f)) m.slots = _
    apply forEachNode_nothing
    intro i
    split
    · rw [idealDestroy, hslots i]
    · rfl
  unfold leaveRun
  rw [hstages, Machine.onSlots_events, hnothing]
  rfl

/-- **Liveness on the ideal backend.** -/
theorem ideal_lifetimes (exec : ExecPolicy) (fuel : Nat) (w : W)
    (hcopy : ∀ w v, (p.copy w v).1 ≠ none) (hmove : ∀ w v, (p.move w v).1 ≠ none)
    (honce : ∀ i < p.plan.nodeCount, (p.plan.task i).usesDirectOutputProtocol →
      ∀ args w, ((p.behaviour i).sinkBody args w).EmplacesAtMost false 1) :
    let run := runFrom (idealSlots p.plan.toCompiledPlan V) p exec fuel w
    run.1 ≠ .thrown ∧ LogOk p.plan run.2.1.events
      ∧ ∀ step, run.1 = .ret step → liveAfter run.2.1.events = some [] := by
  intro run
  have hrun : Exec.Triple (fun s => Stacked p.plan [] [] [] s.1)
      (runPlan (idealSlots p.plan.toCompiledPlan V) p exec fuel)
      (fun _ s => LogOk p.plan s.1.events ∧ liveAfter s.1.events = some [])
      (fun _ => True) (fun s => LogOk p.plan s.1.events) := by
    refine (liveness_run fuel honce).runPlan (fun s hs => ?_) (fun _ _ => trivial) exec
    have hslots : ∀ i, s.1.slots i = none := by
      intro i
      by_contra hne
      exact List.not_mem_nil (hs.payload i hne).1
    have hstage : ∀ q, s.1.stage q = none := fun q => hs.stage_none List.not_mem_nil
    -- the destructors of a run that came back find nothing to destroy
    show LogOk p.plan (leaveRun _ p s.1).events ∧ liveAfter (leaveRun _ p s.1).events = some []
    rw [leaveRun_nothing hslots hstage]
    exact ⟨hs.log, hs.stack⟩
  have hlog : LogOk p.plan ([] : List (Event V)) :=
    ⟨⟨[], rfl⟩, fun _ _ _ h => by simp at h, fun _ h => List.not_mem_nil h⟩
  have hends : Exec.Ends (fun _ s => LogOk p.plan s.1.events ∧ liveAfter s.1.events = some [])
      (fun _ => True) (fun s => LogOk p.plan s.1.events) run :=
    hrun.ends ⟨hlog, rfl, fun _ h => absurd rfl h, fun _ h => absurd rfl h,
      fun _ h => absurd h List.not_mem_nil⟩
  have hthrown : run.1 ≠ .thrown := runPlan_neverThrows hcopy hmove exec fuel _
  clear_value run
  rcases run with ⟨step | _ | _, s⟩
  · exact ⟨hthrown, hends.1, fun _ _ => hends.2⟩
  · exact absurd rfl hthrown
  · exact ⟨hthrown, hends, fun _ h => by cases h⟩

/-- **The lifetimes of a run's objects.**  Take a validated plan and tasks whose
sinks are filled at most once in an attempt and hold a payload after a success,
and payloads whose copies and moves do not throw.  Under every layout and either
executor, at any moment of a run and at its end:

  • the objects constructed so far were destroyed in reverse order, each once,
  • each was constructed in storage without a live object,
  • when a node was entered, the live payloads were those of its owned proper
    ancestors,
  • nothing is live after the run has returned. -/
theorem run_lifetimes (p : Program V W) (layout : SlotLayoutPolicy) (exec : ExecPolicy)
    (fuel : Nat) (w : W)
    (hcopy : ∀ w v, (p.copy w v).1 ≠ none) (hmove : ∀ w v, (p.move w v).1 ≠ none)
    (honce : ∀ i < p.plan.nodeCount, (p.plan.task i).usesDirectOutputProtocol →
      ∀ args w, ((p.behaviour i).sinkBody args w).EmplacesAtMost false 1)
    (hemplaced : ∀ i, .violated (.missingOutput i)
      ∉ (runFrom (layout.slots p.plan.toCompiledPlan) p exec fuel w).2.1.events) :
    let run := runFrom (layout.slots p.plan.toCompiledPlan) p exec fuel w
    let events := run.2.1.events
    run.1 ≠ .thrown
      ∧ (∀ earlier, earlier <:+ events → ∃ stack, liveAfter earlier = some stack)
      ∧ (∀ object onto, .memory (.constructed object onto) ∈ events → onto = none)
      ∧ (∀ i, .violated (.emplaceOverLive i) ∉ events)
      ∧ (∀ i prev before, .entered i prev :: before <:+ events →
          ∃ stack, liveAfter before = some stack
            ∧ stack.filterMap RunObject.payloadNode?
              = (p.plan.path i).tail.filter p.plan.payloadNode)
      ∧ ∀ step, run.1 = .ret step → liveAfter events = some []
          ∧ ∀ object, Lifetime.constructions object (memoryLog events)
            = Lifetime.destructions object (memoryLog events) := by
  intro run events
  obtain ⟨hexit, -, hevents, -⟩ := run_agrees (layout.refines p.plan) exec fuel w
  obtain ⟨hthrown, hlog, hreturn⟩ := ideal_lifetimes exec fuel w hcopy hmove honce
  rw [← hexit] at hthrown hreturn
  rw [← hevents] at hlog hreturn
  obtain ⟨stack, hstack⟩ := hlog.stacked
  refine ⟨hthrown, ?_, ?_, hlog.calm, ?_, ?_⟩
  · intro earlier hsuffix
    exact Lifetime.stackAfter_suffix (hsuffix.filterMap _) hstack
  · intro object onto hmem
    apply Lifetime.stackAfter_fresh hstack object onto
    exact List.mem_filterMap.mpr ⟨_, hmem, rfl⟩
  · intro i prev before hsuffix
    apply hlog.entries i prev before hsuffix
    intro j hj
    exact hemplaced j (hsuffix.subset (List.mem_cons_of_mem _ hj))
  · intro step hstep
    refine ⟨hreturn step hstep, fun object => ?_⟩
    exact Lifetime.stackAfter_count object (hreturn step hstep)

end Run

/-! ## §8. A staged fanout. -/

/-- A flaky root whose payload one child consumes and the other one copies. -/
def fanoutTask : Nat → Task
  | 0 => flakyTask
  | 1 => .base (.boundTask (.function [.object 0] .void) [.consumePrev (.object 0)])
  | _ => .base (.boundTask (.function [.object 0] .void) [.copyPrev (.object 0)])

def fanoutPlan : ValidPlan where
  toPlanShape := .twoChildren
  task := fanoutTask
  fanoutPolicy := fun _ => .consumeWithCopies
  bound := by decide
  runnable := by decide
  slotsFormed := by decide

/-- A moved-from payload is zero. -/
def fanoutProgram : Program Nat Nat where
  plan := fanoutPlan
  behaviour
    | 0 => flakyProgram.behaviour 0
    | 1 => {
        evaluated := [(.consumePrev (.object 0), .object 0)]
        evaluated_perm := List.Perm.refl _
        argument := fun _ w => (true, w)
        body := fun _ w => ((.ret (), none), w)
        sinkBody := fun _ w => .finish (.ret .success) none w
        policies := ()
        policiesInto := () }
    | _ + 2 => {
        evaluated := [(.copyPrev (.object 0), .object 0)]
        evaluated_perm := List.Perm.refl _
        argument := fun _ w => (true, w)
        body := fun _ w => ((.ret (), none), w)
        sinkBody := fun _ w => .finish (.ret .success) none w
        policies := ()
        policiesInto := () }
  copy w v := (some v, w)
  move w v := (some v, 0, w)
  asserts := true

/-- The run retries the root, stages a copy of its payload for the second child,
and leaves nothing. -/
theorem run_lifetimes_fanout :
    let run := runFrom (SlotLayoutPolicy.slots fanoutPlan.toCompiledPlan .serialDfsCompact)
      fanoutProgram .serialDfsExplicitHeapStack 2 0
    run.1 = .ret .success ∧ liveAfter run.2.1.events = some [] := by
  have hreturn : (runFrom (SlotLayoutPolicy.slots fanoutPlan.toCompiledPlan .serialDfsCompact)
      fanoutProgram .serialDfsExplicitHeapStack 2 0).1 = .ret .success := by
    decide +kernel
  have hcalm : (runFrom (SlotLayoutPolicy.slots fanoutPlan.toCompiledPlan .serialDfsCompact)
      fanoutProgram .serialDfsExplicitHeapStack 2 0).2.1.events.all (fun event =>
        match event with
        | .violated _ => false
        | _ => true) = true := by
    decide +kernel
  refine ⟨hreturn, ?_⟩
  have honce : ∀ i < fanoutPlan.nodeCount, (fanoutPlan.task i).usesDirectOutputProtocol →
      ∀ args w, ((fanoutProgram.behaviour i).sinkBody args w).EmplacesAtMost false 1 := by
    intro i _ _ args w
    match i with
    | 0 | 1 | _ + 2 => exact trivial
  have hrun := run_lifetimes fanoutProgram .serialDfsCompact .serialDfsExplicitHeapStack 2 0
    (fun _ _ => nofun) (fun _ _ => nofun) honce
    fun i hmem => by cases List.all_eq_true.mp hcalm _ hmem
  exact (hrun.2.2.2.2.2 _ hreturn).1

end YOrch
