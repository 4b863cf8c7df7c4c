/-
  YOrch.Executor.Unwinding — runs an exception leaves.

  Only two things a run does can throw into the executor: moving a payload into
  its slot, and copying one into the staging of a fanout.  `Raised` finds the
  place an exception comes from and what was cleaned up since; `Tidy` says of a
  machine on the ideal backend that its log accounts for exactly the objects its
  slots and stages hold:

    • `RunTriple.raised` — every exception comes from a node's entry or staging,
    • `tidy_triple`, `tidy_run` — the step and the run,
    • `exception_destroys_all` — for every layout and executor: an exception
      leaves a run exactly if a construction throws in it, every object
      constructed was destroyed, and the one whose construction threw was not.
-/
import YOrch.Executor.Permutation
import Mathlib.Logic.Relation

namespace YOrch

open Library

variable {V W S : Type}

/-! ## §1. Where an exception comes from. -/

section Raised

variable {σ : Type}

/-- Nothing but the cleanup of nodes happens in between. -/
def Cleaned (ops : DfsOps σ) : σ → σ → Prop :=
  Relation.ReflTransGen fun s s' => ∃ i, s' = ops.unstage i s ∨ s' = ops.destroyPayload i s

/-- The exception that leaves `x`, run from `s`, comes from the entry of a node
or from staging its payload; `s'` is what the cleanup since then leaves. -/
inductive Raised (plan : PlanShape) (ops : DfsOps σ) (Open : List Nat → Nat → σ → Prop) :
    {α : Type} → Exec σ α → σ → σ → Prop where
  | enter {α : Type} {x : Exec σ α} {s s' t t' : σ} {i : Nat} (hi : i < plan.nodeCount)
      (hopen : Open (plan.path i).tail i t) (hruns : Exec.Runs x s (ops.enterNode i) t)
      (hthrown : ops.enterNode i t = (.thrown, t')) (hclean : Cleaned ops t' s') :
      Raised plan ops Open x s s'
  | stage {α : Type} {x : Exec σ α} {s s' t₀ t t' : σ} {i : Nat} {entered : NodeEnterResult}
      (hi : i < plan.nodeCount) (hopen : Open (plan.path i).tail i t₀)
      (hentered : ops.enterNode i t₀ = (.ret entered, t)) (hok : entered.step.ok)
      (hstaging : ops.requiresStaging i) (hruns : Exec.Runs x s (ops.stage i) t)
      (hthrown : ops.stage i t = (.thrown, t')) (hclean : Cleaned ops t' s') :
      Raised plan ops Open x s s'

variable {plan : PlanShape} {payload : Nat → Bool} {ops : DfsOps σ}
  {Open Entered : List Nat → Nat → σ → Prop} {Abandoned H : σ → Prop}

/-- A larger computation, and more cleanup. -/
theorem Raised.lift {α β : Type} {x : Exec σ α} {y : Exec σ β} {s s₀ s' s'' : σ}
    (h : Raised plan ops Open x s s') (hruns : Exec.Runs y s₀ x s) (hclean : Cleaned ops s' s'') :
    Raised plan ops Open y s₀ s'' := by
  cases h with
  | enter hi hopen hr hthrown hc =>
      exact .enter hi hopen (hruns.trans hr) hthrown (hc.trans hclean)
  | stage hi hopen hentered hok hstaging hr hthrown hc =>
      exact .stage hi hopen hentered hok hstaging (hruns.trans hr) hthrown (hc.trans hclean)

theorem Cleaned.unstage (ops : DfsOps σ) (unwind : Bool) (i : Nat) (s : σ) :
    Cleaned ops s (bif unwind then ops.destroyFanoutStaging i s else s) := by
  unfold DfsOps.destroyFanoutStaging
  cases unwind with
  | false => exact .refl
  | true =>
      cases ops.requiresStaging i with
      | false => exact .refl
      | true => exact .single ⟨i, Or.inl rfl⟩

theorem Cleaned.destroyPayload (ops : DfsOps σ) (unwind live : Bool) (i : Nat) (s : σ) :
    Cleaned ops s (bif unwind then (bif live then ops.destroyPayload i s else s) else s) := by
  cases unwind with
  | false => exact .refl
  | true =>
      cases live with
      | false => exact .refl
      | true => exact .single ⟨i, Or.inr rfl⟩

/-- **Staging for a node.** -/
theorem RunTriple.prepare (h : RunTriple plan payload ops Open Entered Abandoned H) {i : Nat}
    (hi : i < plan.nodeCount) : Exec.Triple (Entered (plan.path i) (i + 1))
      (ops.prepareFanoutStaging i) (fun _ => Open (plan.path i) (i + 1))
      (Entered (plan.path i) (i + 1)) H :=
  h.sim.prepare_sim hi

/-- A node whose children's exceptions come from nodes. -/
theorem RunTriple.dfsNode_raised (h : RunTriple plan payload ops Open Entered Abandoned H)
    (unwind : Bool) {i : Nat} (hi : i < plan.nodeCount) {children : Exec σ StepResult}
    (hbelow : ∀ s s', Open (plan.path i) (i + 1) s → children s = (.thrown, s') →
      Raised plan ops Open children s s') {s s' : σ} (hopen : Open (plan.path i).tail i s)
    (hthrown : dfsNode unwind ops i children s = (.thrown, s')) :
    Raised plan ops Open (dfsNode unwind ops i children) s s' := by
  unfold dfsNode at hthrown ⊢
  rcases Exec.bind_eq_thrown.mp hthrown with henter | ⟨entered, t, henter, hrest⟩
  · exact .enter hi hopen (.first _ (.self _ s)) henter .refl
  have hends := (h.enter i hi).ends hopen
  rw [henter] at hends
  cases hok : entered.step.ok with
  | false =>
      rw [if_neg (by simp [hok])] at hrest
      cases hrest
  | true =>
      rw [if_pos hok] at hrest
      obtain ⟨t₁, hbody, rfl⟩ := Exec.onExit_eq_thrown hrest
      have hdestroy := Cleaned.destroyPayload ops unwind entered.payloadLive i t₁
      have hentered : Entered (plan.path i) (i + 1) t := by
        have hcase : if entered.step.ok then
            entered.payloadLive = payload i ∧ Entered (plan.path i) (i + 1) t
          else Open (plan.path i).tail (i + 1) t := hends
        rw [if_pos hok] at hcase
        exact hcase.2
      -- where the entry returns, the guard of the payload is in place
      have hscope : ∀ {β : Type} {y : Exec σ β} {u : σ},
          Exec.Runs (ops.prepareFanoutStaging i >>= fun _ =>
            Exec.onExit unwind (ops.destroyFanoutStaging i) children) t y u →
          Exec.Runs (ops.enterNode i >>= fun entered =>
            if entered.step.ok then
              Exec.onExit unwind
                (fun s => bif entered.payloadLive then ops.destroyPayload i s else s)
                (ops.prepareFanoutStaging i >>= fun _ =>
                  Exec.onExit unwind (ops.destroyFanoutStaging i) children)
            else pure entered.step) s y u := by
        intro β y u hy
        apply Exec.Runs.next henter
        rw [if_pos hok]
        exact .scope _ _ hy
      rcases Exec.bind_eq_thrown.mp hbody with hstage | ⟨_, t₂, hstage, hchildren⟩
      · unfold DfsOps.prepareFanoutStaging at hstage
        cases hstaging : ops.requiresStaging i with
        | false =>
            rw [if_neg (by simp [hstaging])] at hstage
            cases hstage
        | true =>
            rw [if_pos hstaging] at hstage
            refine .stage hi hopen henter hok hstaging (hscope (.first _ ?_)) hstage hdestroy
            unfold DfsOps.prepareFanoutStaging
            rw [if_pos hstaging]
            exact .self _ t
      · obtain ⟨t₃, hthrown₃, rfl⟩ := Exec.onExit_eq_thrown hchildren
        have hopened := (h.prepare hi).ends hentered
        rw [hstage] at hopened
        apply (hbelow t₂ t₃ hopened hthrown₃).lift
        · exact hscope (.next hstage (.scope _ _ (.self _ t₂)))
        · exact (Cleaned.unstage ops unwind i t₃).trans hdestroy

/-- The trees below a node.  The induction is on the forest. -/
theorem RunTriple.dfsChildren_raised (h : RunTriple plan payload ops Open Entered Abandoned H)
    (unwind : Bool) : ∀ (f : Forest Nat) (p n : Nat), p < n → n + f.size ≤ plan.nodeCount →
      Forest.Parented plan.parentIndex p f → f.preorder = List.range' n f.size →
      ∀ s s', Open (plan.path p) n s → dfsChildren unwind ops f s = (.thrown, s') →
        Raised plan ops Open (dfsChildren unwind ops f) s s'
  | .nil, _, _, _, _, _, _ => by
      intro s s' _ hthrown
      cases hthrown
  | .cons i below rest, p, n, hpn, hsize, hparented, hpreorder => by
      obtain ⟨hparent, hbelow, hrest⟩ := hparented
      simp only [Forest.size] at hsize hpreorder
      rw [Forest.preorder_cons, List.range'_succ, List.cons.injEq, ← List.range'_append_1]
        at hpreorder
      obtain ⟨rfl, hpreorder⟩ := hpreorder
      obtain ⟨hbelow', hrest'⟩ := List.append_inj hpreorder (by
        rw [Forest.preorder_length, List.length_range'])
      have hchild : plan.IsParent p i := ⟨by omega, by omega, hparent⟩
      have htail : (plan.path i).tail = plan.path p := by rw [hchild.path, List.tail_cons]
      have hnode := h.sim.dfsNode_sim unwind hchild.2.1 (n := i + 1 + below.size) (by omega)
        (h.sim.dfsChildren_sim unwind below i (i + 1) (by omega) (by omega) hbelow hbelow')
      intro s s' hopen hthrown
      rw [← htail] at hopen
      unfold dfsChildren at hthrown ⊢
      -- either the first tree threw, or a later one after the first returned
      rcases Exec.bind_eq_thrown.mp hthrown with hfirst | ⟨step, t, hfirst, hnext⟩
      · have hraised := h.dfsNode_raised unwind hchild.2.1 (h.dfsChildren_raised unwind below i
          (i + 1) (by omega) (by omega) hbelow hbelow') hopen hfirst
        exact hraised.lift (.first _ (.self _ s)) .refl
      · have hopened : Open (plan.path p) (i + 1 + below.size) t := by
          have hmatch := hnode s s ⟨rfl, hopen⟩
          rw [hfirst, htail] at hmatch
          cases hmatch with
          | ret hret => exact hret.2
        split at hnext
        · cases hnext
        · next hstops =>
            have hraised := h.dfsChildren_raised unwind rest p (i + 1 + below.size) (by omega)
              (by omega) hrest hrest' t s' hopened hnext
            refine hraised.lift (.next hfirst ?_) .refl
            rw [if_neg hstops]
            exact .self _ t

/-- **Every exception that leaves a traversal comes from a node.** -/
theorem RunTriple.raised (h : RunTriple plan payload ops Open Entered Abandoned H)
    (unwind : Bool) {s s' : σ} (hopen : Open [] 0 s)
    (hthrown : dfsNode unwind ops 0 (dfsChildren unwind ops plan.below) s = (.thrown, s')) :
    Raised plan ops Open (dfsNode unwind ops 0 (dfsChildren unwind ops plan.below)) s s' := by
  have hsize := plan.below_size
  have hpreorder : plan.below.preorder = List.range' 1 plan.below.size := by
    have hrange := plan.range_eq
    rw [List.range_eq_range', ← hsize, List.range'_succ, List.cons.injEq] at hrange
    exact hrange.2.symm
  exact h.dfsNode_raised unwind plan.nodeCount_pos (h.dfsChildren_raised unwind plan.below 0 1
    (by omega) (by omega) plan.below_parented hpreorder) hopen hthrown

end Raised

/-! ## §2. Logs that account for every object. -/

/-- No callable has emplaced over a live payload. -/
def Calm (events : List (Event V)) : Prop := ∀ i, .violated (.emplaceOverLive i) ∉ events

namespace RunObject

/-- The node an object belongs to. -/
def node : RunObject → Nat
  | .payload node => node
  | .stage parent => parent

/-- Whether a plan has such an object at all. -/
def Planned (plan : ValidPlan) (object : RunObject) : Prop :=
  object.node < plan.nodeCount ∧ match object with
    | .payload node => plan.payloadNode node = true
    | .stage parent => plan.parentRequiresFanoutStaging parent = true

/-- Whether a machine holds it. -/
def heldBy (m : Machine (Nat → Option V) V) : RunObject → Bool
  | .payload node => (m.slots node).isSome
  | .stage parent => (m.stage parent).isSome

end RunObject

/-- The log accounts for exactly the objects a machine holds, and nothing of the
nodes from `n` on was constructed. -/
structure Tidy (plan : ValidPlan) (n : Nat) (m : Machine (Nat → Option V) V) : Prop where
  proper : Lifetime.Proper (memoryLog m.events)
  live : ∀ object : RunObject, Lifetime.isLive object (memoryLog m.events) = object.heldBy m
  planned : ∀ object : RunObject, object.heldBy m → object.Planned plan
  fresh : ∀ object : RunObject, n ≤ object.node →
    Lifetime.constructions object (memoryLog m.events) = 0

theorem memoryLog_quiet {event : Event V} (h : ∀ e, event ≠ .memory e)
    (events : List (Event V)) : memoryLog (event :: events) = memoryLog events := by
  cases event with
  | memory e => exact absurd rfl (h e)
  | _ => rfl

theorem memoryLog_append (log : List MemoryEvent) (events : List (Event V)) :
    memoryLog (log.map .memory ++ events) = log ++ memoryLog events := by
  unfold memoryLog
  rw [List.filterMap_append, List.filterMap_map]
  congr 1
  exact List.filterMap_some

theorem Calm.tail {event : Event V} {events : List (Event V)} (h : Calm (event :: events)) :
    Calm events :=
  fun i hi => h i (List.mem_cons_of_mem _ hi)

theorem Calm.earlier {later events : List (Event V)} (h : Calm (later ++ events)) :
    Calm events :=
  fun i hi => h i (List.mem_append_right _ hi)

namespace Tidy

variable {plan : ValidPlan} {n i : Nat} {m m' : Machine (Nat → Option V) V} {o : RunObject}
  {o' : Option V}

/-- Only the log and which objects are live matter. -/
theorem congr (h : Tidy plan n m) (hlog : memoryLog m'.events = memoryLog m.events)
    (hstage : m'.stage = m.stage) (hslots : ∀ j, m'.slots j ≠ none ↔ m.slots j ≠ none) :
    Tidy plan n m' := by
  have hheld : ∀ object : RunObject, object.heldBy m' = object.heldBy m := by
    intro object
    cases object with
    | payload node =>
        show (m'.slots node).isSome = (m.slots node).isSome
        rw [Bool.eq_iff_iff, Option.isSome_iff_ne_none, Option.isSome_iff_ne_none]
        exact hslots node
    | stage parent =>
        show (m'.stage parent).isSome = _
        rw [hstage]
        rfl
  exact {
    proper := hlog ▸ h.proper
    live := fun object => by rw [hlog, h.live, hheld]
    planned := fun object hobject => h.planned object (hheld object ▸ hobject)
    fresh := fun object hobject => hlog ▸ h.fresh object hobject }

theorem record (h : Tidy plan n m) {event : Event V} (hevent : ∀ e, event ≠ .memory e) :
    Tidy plan n (m.record event) :=
  h.congr (memoryLog_quiet hevent _) rfl fun _ => Iff.rfl

theorem later (h : Tidy plan n m) {k : Nat} (hk : n ≤ k) : Tidy plan k m :=
  { h with fresh := fun object hobject => h.fresh object (Nat.le_trans hk hobject) }

/-- What was never constructed is not held. -/
theorem not_held (h : Tidy plan n m)
    (hfresh : Lifetime.constructions o (memoryLog m.events) = 0) : o.heldBy m = false := by
  rw [← h.live]
  exact Lifetime.isLive_of_constructions hfresh

/-- An object is constructed in empty storage. -/
theorem push (h : Tidy plan n m) (hevents : m'.events = .memory (.constructed o none) :: m.events)
    (hdead : o.heldBy m = false) (hself : o.heldBy m' = true)
    (hother : ∀ object : RunObject, object ≠ o → object.heldBy m' = object.heldBy m)
    (hplanned : o.Planned plan) (hn : o.node < n) : Tidy plan n m' := by
  have hlog : memoryLog m'.events = .constructed o none :: memoryLog m.events := by
    rw [hevents]
    rfl
  refine ⟨?_, fun object => ?_, fun object hobject => ?_, fun object hobject => ?_⟩
  · rw [hlog]
    exact ⟨⟨rfl, (h.live o).trans hdead⟩, h.proper⟩
  · rw [hlog, Lifetime.isLive, h.live]
    by_cases ho : object = o
    · rw [ho, hself, decide_eq_true rfl, Bool.true_or]
    · rw [hother object ho, decide_eq_false (Ne.symm ho), Bool.false_or]
  · by_cases ho : object = o
    · rw [ho]
      exact hplanned
    · exact h.planned object (hother object ho ▸ hobject)
  · have hne : ¬ o = object := by
      intro ho
      rw [ho] at hn
      exact absurd hobject (Nat.not_le.mpr hn)
    have hfresh := h.fresh object hobject
    rw [hlog]
    unfold Lifetime.constructions at hfresh ⊢
    rw [List.countP_cons, hfresh]
    simp [hne]

/-- A live object is destroyed. -/
theorem pop (h : Tidy plan n m)
    (hevents : m'.events = .memory (.destroyed o (some o)) :: m.events)
    (hlive : o.heldBy m = true) (hself : o.heldBy m' = false)
    (hother : ∀ object : RunObject, object ≠ o → object.heldBy m' = object.heldBy m) :
    Tidy plan n m' := by
  have hlog : memoryLog m'.events = .destroyed o (some o) :: memoryLog m.events := by
    rw [hevents]
    rfl
  refine ⟨?_, fun object => ?_, fun object hobject => ?_, fun object hobject => ?_⟩
  · rw [hlog]
    exact ⟨⟨rfl, (h.live o).trans hlive⟩, h.proper⟩
  · rw [hlog, Lifetime.isLive, h.live]
    by_cases ho : object = o
    · rw [ho, hself, decide_eq_true rfl, Bool.not_true, Bool.false_and]
    · rw [hother object ho, decide_eq_false (Ne.symm ho), Bool.not_false, Bool.true_and]
  · by_cases ho : object = o
    · rw [ho, hself] at hobject
      cases hobject
    · exact h.planned object (hother object ho ▸ hobject)
  · rw [hlog]
    exact h.fresh object hobject

/-- What a machine holds after one slot changed. -/
theorem heldBy_slots (hslots : m'.slots = Function.update m.slots i o')
    (hstage : m'.stage = m.stage) :
    (RunObject.payload i).heldBy m' = o'.isSome
      ∧ ∀ object : RunObject, object ≠ .payload i → object.heldBy m' = object.heldBy m := by
  constructor
  · show (m'.slots i).isSome = _
    rw [hslots, Function.update_self]
  · intro object hobject
    cases object with
    | payload node =>
        show (m'.slots node).isSome = _
        rw [hslots, Function.update_of_ne fun hnode : node = i => hobject (hnode ▸ rfl)]
        rfl
    | stage parent =>
        show (m'.stage parent).isSome = _
        rw [hstage]
        rfl

/-- What a machine holds after one stage changed. -/
theorem heldBy_stage (hstage : m'.stage = Function.update m.stage i o')
    (hslots : m'.slots = m.slots) :
    (RunObject.stage i).heldBy m' = o'.isSome
      ∧ ∀ object : RunObject, object ≠ .stage i → object.heldBy m' = object.heldBy m := by
  constructor
  · show (m'.stage i).isSome = _
    rw [hstage, Function.update_self]
  · intro object hobject
    cases object with
    | payload node =>
        show (m'.slots node).isSome = _
        rw [hslots]
        rfl
    | stage parent =>
        show (m'.stage parent).isSome = _
        rw [hstage, Function.update_of_ne fun hparent : parent = i => hobject (hparent ▸ rfl)]
        rfl

/-- Node `i`'s payload is constructed in its empty slot. -/
theorem emplace (h : Tidy plan n m) (hi : i < plan.nodeCount) (hpayload : plan.payloadNode i)
    (hslot : m.slots i = none) (hn : i < n) (v : V) :
    Tidy plan n (m.onSlots (idealEmplace i v)) := by
  have hevents : (m.onSlots (idealEmplace i v)).events
      = .memory (.constructed (.payload i) none) :: m.events := by
    show .memory (.constructed (.payload i) ((m.slots i).map fun _ => .payload i)) :: m.events = _
    rw [hslot]
    rfl
  have hdead : (RunObject.payload i).heldBy m = false := by
    show (m.slots i).isSome = false
    rw [hslot]
    rfl
  obtain ⟨hself, hother⟩ := @heldBy_slots V i m (m.onSlots (idealEmplace i v)) (some v) rfl rfl
  exact h.push hevents hdead hself hother ⟨hi, hpayload⟩ hn

/-- Node `i`'s payload is destroyed, if it is live. -/
theorem destroy (h : Tidy plan n m) (i : Nat) : Tidy plan n (m.onSlots (idealDestroy i)) := by
  have hslots : (m.onSlots (idealDestroy i)).slots = Function.update m.slots i none :=
    idealDestroy_slots
  obtain ⟨hself, hother⟩ := @heldBy_slots V i m (m.onSlots (idealDestroy i)) none hslots rfl
  cases hslot : m.slots i with
  | none => rwa [onSlots_idealDestroy_none hslot]
  | some v =>
      have hevents := onSlots_idealDestroy_events hslot
      have hlive : (RunObject.payload i).heldBy m = true := by
        show (m.slots i).isSome = true
        rw [hslot]
        rfl
      exact h.pop hevents hlive hself hother

/-- A copy of node `i`'s payload is staged. -/
theorem emplaceStage (h : Tidy plan n m) (hi : i < plan.nodeCount)
    (hstaging : plan.parentRequiresFanoutStaging i) (hstage : m.stage i = none) (hn : i < n)
    (v : V) : Tidy plan n (m.emplaceStage i v) := by
  have hevents : (m.emplaceStage i v).events
      = .memory (.constructed (.stage i) none) :: m.events := by
    show .memory (.constructed (.stage i) ((m.stage i).map fun _ => .stage i)) :: m.events = _
    rw [hstage]
    rfl
  have hdead : (RunObject.stage i).heldBy m = false := by
    show (m.stage i).isSome = false
    rw [hstage]
    rfl
  obtain ⟨hself, hother⟩ := @heldBy_stage V i m (m.emplaceStage i v) (some v) rfl rfl
  exact h.push hevents hdead hself hother ⟨hi, hstaging⟩ hn

/-- The staged copy of node `i`'s payload is destroyed, if there is one. -/
theorem destroyStage (h : Tidy plan n m) (i : Nat) : Tidy plan n (m.destroyStage i) := by
  cases hstage : m.stage i with
  | none =>
      rw [Machine.destroyStage_none hstage]
      exact h
  | some v =>
      have hlive : (RunObject.stage i).heldBy m = true := by
        show (m.stage i).isSome = true
        rw [hstage]
        rfl
      obtain ⟨hself, hother⟩ := @heldBy_stage V i m (m.destroyStage i) none
        (m.destroyStage_stage i) (m.destroyStage_slots i)
      exact h.pop (Machine.destroyStage_events hstage) hlive hself hother

end Tidy

/-! ## §3. One node. -/

section Node

variable {p : Program V W} {n i : Nat} {m m' : Machine (Nat → Option V) V}

/-- The objects while node `i`'s task is tried. -/
structure Trying (p : Program V W) (i : Nat) (m : Machine (Nat → Option V) V) : Prop
    extends Tidy p.plan (i + 1) m where
  unstaged : Lifetime.constructions (.stage i) (memoryLog m.events) = 0
  unmade : (p.plan.task i).usesDirectOutputProtocol = false →
    Lifetime.constructions (.payload i) (memoryLog m.events) = 0

theorem Trying.congr (h : Trying p i m) (hlog : memoryLog m'.events = memoryLog m.events)
    (hstage : m'.stage = m.stage) (hslots : ∀ j, m'.slots j ≠ none ↔ m.slots j ≠ none) :
    Trying p i m' where
  toTidy := h.toTidy.congr hlog hstage hslots
  unstaged := hlog ▸ h.unstaged
  unmade := hlog ▸ h.unmade

theorem Trying.record (h : Trying p i m) {event : Event V} (hevent : ∀ e, event ≠ .memory e) :
    Trying p i (m.record event) :=
  h.congr (memoryLog_quiet hevent _) rfl fun _ => Iff.rfl

theorem Trying.slot_none (h : Trying p i m)
    (hraw : (p.plan.task i).usesDirectOutputProtocol = false) : m.slots i = none := by
  have hheld : (m.slots i).isSome = false := h.not_held (h.unmade hraw)
  exact Option.isNone_iff_eq_none.mp (Option.isSome_eq_false_iff.mp hheld)

/-- The memory events of a payload say nothing about its staged copy. -/
theorem constructions_stage (e : MemoryEvent) (he : ∀ onto, e ≠ .constructed (.stage i) onto)
    (log : List MemoryEvent) :
    Lifetime.constructions (.stage i) (e :: log) = Lifetime.constructions (.stage i) log := by
  unfold Lifetime.constructions
  rw [List.countP_cons]
  cases e with
  | constructed object onto =>
      have hne : ¬ object = .stage i := fun ho => he onto (ho ▸ rfl)
      simp [hne]
  | destroyed object held => simp

/-- A direct-output task fills its sink. -/
theorem Trying.emplace (h : Trying p i m) (hi : i < p.plan.nodeCount)
    (hinto : (p.plan.task i).usesDirectOutputProtocol) (hslot : m.slots i = none) (v : V) :
    Trying p i (m.onSlots (idealEmplace i v)) where
  toTidy := h.toTidy.emplace hi (ValidPlan.payloadNode_of_direct hinto) hslot
    (Nat.lt_succ_self i) v
  unstaged := (constructions_stage _ (by nofun) _).trans h.unstaged
  unmade hraw := by
    rw [hinto] at hraw
    cases hraw

/-- Destroying node `i`'s payload constructs nothing. -/
theorem constructions_destroy (object : RunObject) :
    Lifetime.constructions object (memoryLog (m.onSlots (idealDestroy i)).events)
      = Lifetime.constructions object (memoryLog m.events) := by
  cases hslot : m.slots i with
  | none => rw [onSlots_idealDestroy_none hslot]
  | some v =>
      rw [onSlots_idealDestroy_events hslot]
      exact Lifetime.constructions_cons_destroyed ..

theorem Trying.destroy (h : Trying p i m) : Trying p i (m.onSlots (idealDestroy i)) where
  toTidy := h.toTidy.destroy i
  unstaged := (constructions_destroy _).trans h.unstaged
  unmade hraw := (constructions_destroy _).trans (h.unmade hraw)

theorem Trying.finish (h : Trying p i m) :
    Tidy p.plan (i + 1) (finishNode (idealSlots p.plan.toCompiledPlan V) p i m)
      ∧ Lifetime.constructions (.stage i)
        (memoryLog (finishNode (idealSlots p.plan.toCompiledPlan V) p i m).events) = 0 := by
  have hfinish : Trying p i (finishNode (idealSlots p.plan.toCompiledPlan V) p i m) :=
    h.record (by nofun)
  exact ⟨hfinish.toTidy, hfinish.unstaged⟩

/-- **The objects while node `i` is entered**, as long as no callable emplaces
over a live payload. -/
theorem tidy_triple (hi : i < p.plan.nodeCount) :
    EnterTriple (idealSlots p.plan.toCompiledPlan V) p i
      (fun s => Calm s.1.events → Tidy p.plan i s.1)
      (fun s => Calm s.1.events → Tidy p.plan (i + 1) s.1
        ∧ Lifetime.constructions (.stage i) (memoryLog s.1.events) = 0)
      (fun s => Calm s.1.events → Trying p i s.1)
      (fun phase s => (match phase with
          | .sinking _ => (p.plan.task i).usesDirectOutputProtocol = true
          | _ => True)
        ∧ (Calm s.1.events → Trying p i s.1))
      (fun _ => True) where
  world phase s w hs := hs
  halts _ _ _ := trivial
  violate _ _ _ _ _ := trivial
  attempt s hs := ⟨trivial, fun hcalm => (hs.2 hcalm.tail).record (by nofun)⟩
  abandon rest s hs := hs
  skip _ _ _ _ hs := hs
  resolve binding rest s source v arg left w _ hs _ _ _ := by
    refine ⟨trivial, fun hcalm => ?_⟩
    rw [resolveStep_events] at hcalm
    -- resolving may move a payload out of an object, never the object
    apply (hs.2 hcalm.tail).congr
    · rw [resolveStep_events]
      exact memoryLog_quiet (by nofun) _
    · exact resolveStep_stage ..
    · exact resolveStep_live p i binding source arg left s.1
  write written s _ hs := by
    refine ⟨trivial, fun hcalm => ?_⟩
    rw [writeBack_events] at hcalm
    exact (hs.2 hcalm).congr (by rw [writeBack_events]) (writeBack_stage ..)
      (writeBack_live p i written s.1)
  sink args w s hinto hs := ⟨hinto, hs.2⟩
  sinkHasValue next s hs := hs
  sinkEmplace payload next s hs := by
    obtain ⟨hinto, htrying⟩ := hs
    refine ⟨fun hempty => ⟨hinto, fun hcalm => ?_⟩, fun _ => ⟨⟨hinto, fun hcalm => ?_⟩, trivial⟩⟩
    · cases payload with
      | none => exact htrying hcalm
      | some v =>
          have hslot : s.1.slots i = none :=
            Option.isNone_iff_eq_none.mp (Option.isSome_eq_false_iff.mp hempty)
          have hbefore : Calm s.1.events := hcalm.tail
          exact (htrying hbefore).emplace hi hinto hslot v
    · -- emplacing over a live payload is on record, so the log is not calm
      have hviolated : .violated (.emplaceOverLive i)
          ∈ (YOrch.emplaceSink (idealSlots p.plan.toCompiledPlan V) i payload
            (s.1.violate (.emplaceOverLive i))).events := by
        cases payload with
        | none => exact List.mem_cons_self
        | some v => exact List.mem_cons_of_mem _ List.mem_cons_self
      exact absurd hviolated (hcalm i)
  sinkDestroy next s hs := ⟨hs.1, fun hcalm => (hs.2 hcalm.earlier).destroy⟩
  sinkFinish exit written world s hs := by
    refine ⟨trivial, fun hcalm => ?_⟩
    rw [writeBack_events] at hcalm
    exact (hs.2 hcalm).congr (by rw [writeBack_events]) (writeBack_stage ..)
      (writeBack_live p i written s.1)
  again s _ _ hs := hs
  cleanUp s _ _ hs := by
    refine ⟨trivial, ?_⟩
    unfold cleanUpSink
    split
    · exact fun hcalm => (hs.2 hcalm.earlier).destroy
    · exact hs.2
  enter s hs := by
    refine ⟨trivial, fun hcalm => ?_⟩
    -- nothing of node `i` was constructed before it is entered
    have htidy := hs hcalm.tail
    exact {
      toTidy := (htidy.record (by nofun)).later (Nat.le_succ i)
      unstaged := htidy.fresh (.stage i) (Nat.le_refl i)
      unmade := fun _ => htidy.fresh (.payload i) (Nat.le_refl i) }
  finish s _ hs _ hcalm := (hs.2 hcalm.tail).finish
  finishMissing s _ hs _ hcalm := by
    have hviolate : Trying p i (s.1.violate (.missingOutput i)) :=
      (hs.2 hcalm.tail.tail).record (by nofun)
    exact hviolate.finish
  failInto s hinto hs := by
    show Calm (s.1.onSlots ((idealSlots p.plan.toCompiledPlan V).destroy i)).events → Trying p i
      (s.1.onSlots ((idealSlots p.plan.toCompiledPlan V).destroy i))
    rw [idealSlots_onDestroy hi (ValidPlan.payloadNode_of_direct hinto)]
    exact fun hcalm => (hs.2 hcalm.earlier).destroy
  store v s hraw hpayload hs hcalm := by
    have htrying := hs.2 hcalm.tail.tail
    have htidy := htrying.toTidy.emplace hi hpayload (htrying.slot_none hraw) (Nat.lt_succ_self i) v
    exact ⟨htidy.record (by nofun), (constructions_stage _ (by nofun) _).trans htrying.unstaged⟩
  pass s _ _ hs hcalm := (hs.2 hcalm.tail).finish
  fail s _ hs := hs.2

/-! ## §4. Whole runs. -/

/-- **The objects during a traversal.** -/
theorem tidy_run (p : Program V W) (fuel : Nat) :
    RunTriple p.plan.toPlanShape p.plan.payloadNode
      (nodeOps (idealSlots p.plan.toCompiledPlan V) p fuel)
      (fun _ n s => Calm s.1.events → Tidy p.plan n s.1)
      (fun P n s => Calm s.1.events → Tidy p.plan n s.1 ∧ ∀ q ∈ P.head?, s.1.stage q = none)
      (fun s => Calm s.1.events → ∃ n, Tidy p.plan n s.1) (fun _ => True) where
  enter i hi := by
    apply ((tidy_triple hi).enterNode hi fuel).conseq (fun _ hs => hs) _
      (fun s hs hcalm => (hs hcalm).toTidy) (fun _ h => h)
    intro entered s hs
    cases hok : entered.step.ok with
    | true =>
        simp only [hok, if_true] at hs ⊢
        refine ⟨hs.1, fun hcalm => ⟨(hs.2 hcalm).1, fun q hq => ?_⟩⟩
        -- a stage that was never constructed is not held
        have hheld : (s.1.stage i).isSome = false := (hs.2 hcalm).1.not_held (hs.2 hcalm).2
        obtain rfl := Option.some.inj ((ValidPlan.head?_path _ i).symm.trans hq)
        exact Option.isNone_iff_eq_none.mp (Option.isSome_eq_false_iff.mp hheld)
    | false =>
        simp only [hok, Bool.false_eq_true, if_false] at hs ⊢
        exact fun hcalm => (hs hcalm).toTidy
  stage i hi hstaging := stageFanout_triple (fun _ _ hs => hs) (fun _ _ => trivial) (by
    intro s v w v' hs _ _ hcalm
    obtain ⟨htidy, hnone⟩ := hs hcalm.tail
    have hstage : s.1.stage i = none := hnone i (ValidPlan.head?_path _ i)
    exact htidy.emplaceStage hi hstaging hstage (Nat.lt_succ_self i) v')
  unstaged i hi hstaging n s := by
    constructor
    · exact fun hs hcalm => (hs hcalm).1
    · intro hs hcalm
      refine ⟨hs hcalm, fun q hq => ?_⟩
      obtain rfl := Option.some.inj ((ValidPlan.head?_path _ i).symm.trans hq)
      by_contra hne
      have hplanned := (hs hcalm).planned (.stage i) (Option.isSome_iff_ne_none.mpr hne)
      exact absurd (hplanned.2.symm.trans hstaging) (by simp)
  unstage i hi _ n s hs hcalm := by
    -- the log before the stage was destroyed is calm as well
    have htidy : Tidy p.plan n s.1 := by
      apply hs
      cases hv : s.1.stage i with
      | none => rwa [← Machine.destroyStage_none hv]
      | some v =>
          have hcalm' : Calm (s.1.destroyStage i).events := hcalm
          rw [Machine.destroyStage_events hv] at hcalm'
          exact hcalm'.tail
    refine ⟨htidy.destroyStage i, fun q hq => ?_⟩
    obtain rfl := Option.some.inj ((ValidPlan.head?_path _ i).symm.trans hq)
    show (s.1.destroyStage i).stage i = none
    rw [Machine.destroyStage_stage, Function.update_self]
  destroy i hi hpayload n s hs := by
    show Calm (s.1.onSlots ((idealSlots p.plan.toCompiledPlan V).destroy i)).events → Tidy p.plan n
      (s.1.onSlots ((idealSlots p.plan.toCompiledPlan V).destroy i))
    rw [idealSlots_onDestroy hi hpayload]
    exact fun hcalm => (hs hcalm.earlier).1.destroy i
  leave i hi _ n s hs hcalm := (hs hcalm).1
  later P n m s hnm hs hcalm := (hs hcalm).later hnm
  laterEntered P n m s hnm hs hcalm := ⟨(hs hcalm).1.later hnm, (hs hcalm).2⟩
  abandon P n s hs hcalm := ⟨n, hs hcalm⟩
  abandonEntered P n s hs hcalm := ⟨n, (hs hcalm).1⟩

/-- Slot operations in index order, as one. -/
theorem onSlots_forEachNode (op : Nat → S → List MemoryEvent × S) (m : Machine S V) (n : Nat) :
    m.onSlots (forEachNode n op) = (List.range n).foldl (fun m i => m.onSlots (op i)) m := by
  induction n with
  | zero => rfl
  | succ n ih =>
      rw [List.range_succ, List.foldl_append, ← ih]
      unfold Machine.onSlots forEachNode
      rw [List.range_succ, List.foldl_append, List.foldl_cons, List.foldl_nil]
      dsimp only
      rw [List.reverse_append, List.map_append, List.append_assoc]
      rfl

/-- The stages of the first `k` nodes are destroyed. -/
theorem Tidy.leaveStages (h : Tidy p.plan n m) (k : Nat) :
    Tidy p.plan n ((List.range k).foldl (fun m i => m.destroyStage i) m)
      ∧ ∀ q < k, ((List.range k).foldl (fun m i => m.destroyStage i) m).stage q = none := by
  induction k with
  | zero => exact ⟨h, fun q hq => absurd hq (Nat.not_lt_zero q)⟩
  | succ k ih =>
      rw [List.range_succ, List.foldl_append]
      refine ⟨ih.1.destroyStage k, fun q hq => ?_⟩
      show (Machine.destroyStage _ k).stage q = none
      rw [Machine.destroyStage_stage]
      by_cases hqk : q = k
      · rw [hqk, Function.update_self]
      · rw [Function.update_of_ne hqk]
        exact ih.2 q (by omega)

/-- The payloads of the first `k` nodes are destroyed. -/
theorem Tidy.leaveSlots (h : Tidy p.plan n m) : ∀ k ≤ p.plan.nodeCount,
    let m' := (List.range k).foldl (fun m i =>
      m.onSlots ((idealSlots p.plan.toCompiledPlan V).destroy i)) m
    Tidy p.plan n m' ∧ m'.stage = m.stage ∧ ∀ j < k, m'.slots j = none := by
  intro k hk
  induction k with
  | zero => exact ⟨h, rfl, fun j hj => absurd hj (Nat.not_lt_zero j)⟩
  | succ k ih =>
      obtain ⟨htidy, hstage, hnone⟩ := ih (Nat.le_of_succ_le hk)
      rw [List.range_succ, List.foldl_append, List.foldl_cons, List.foldl_nil]
      generalize (List.range k).foldl (fun m i =>
        m.onSlots ((idealSlots p.plan.toCompiledPlan V).destroy i)) m = m' at *
      by_cases howned : p.plan.payloadNode k
      · -- slot `k` is emptied, the slots before it stay empty
        rw [idealSlots_onDestroy hk howned]
        refine ⟨htidy.destroy k, hstage, fun j hj => ?_⟩
        show (idealDestroy k m'.slots).2 j = none
        rw [idealDestroy_slots]
        by_cases hjk : j = k
        · rw [hjk, Function.update_self]
        · rw [Function.update_of_ne hjk]
          exact hnone j (by omega)
      · -- a node without a payload of its own has nothing in its slot
        have hnot : ¬ p.plan.ownsPayload k := fun h => howned ((ValidPlan.ownsPayload_iff hk).mp h)
        have hskip : m'.onSlots ((idealSlots p.plan.toCompiledPlan V).destroy k) = m' := by
          unfold Machine.onSlots
          simp only [idealSlots, if_neg hnot]
          rfl
        rw [hskip]
        refine ⟨htidy, hstage, fun j hj => ?_⟩
        by_cases hjk : j = k
        · by_contra hne
          have hplanned := htidy.planned (.payload j) (Option.isSome_iff_ne_none.mpr hne)
          exact howned (hjk ▸ hplanned.2)
        · exact hnone j (by omega)

/-- The destructors leave nothing. -/
theorem Tidy.leaveRun (h : Tidy p.plan n m) :
    let events := (leaveRun (idealSlots p.plan.toCompiledPlan V) p m).events
    Lifetime.Proper (memoryLog events)
      ∧ ∀ object, Lifetime.isLive object (memoryLog events) = false := by
  obtain ⟨hstaged, hstage⟩ := h.leaveStages p.plan.nodeCount
  obtain ⟨htidy, hstage', hslot⟩ := hstaged.leaveSlots p.plan.nodeCount (Nat.le_refl _)
  rw [← onSlots_forEachNode] at htidy hstage' hslot
  refine ⟨htidy.proper, fun object => (htidy.live object).trans ?_⟩
  by_contra hheld
  have hplanned := htidy.planned object (Bool.eq_true_of_not_eq_false hheld)
  cases object with
  | payload node => exact hheld (congrArg Option.isSome (hslot node hplanned.1))
  | stage parent =>
      have hnone := (congrFun hstage' parent).trans (hstage parent hplanned.1)
      exact hheld (congrArg Option.isSome hnone)

end Node

/-! ## §5. The exception. -/

section Exception

variable {api : SlotsApi V S} {p : Program V W} {Rep : S → (Nat → Option V) → Prop}

/-- Destroying slots constructs nothing. -/
structure DestroysOnly (api : SlotsApi V S) : Prop where
  destroy : ∀ i s, ∀ e ∈ (api.destroy i s).1, e.IsDestruction
  destroyActiveSlots : ∀ s, ∀ e ∈ (api.destroyActiveSlots s).1, e.IsDestruction

theorem SlotMap.destroy_events (slots : SlotMap) (i : Nat) (s : Nat → Slot V) :
    ∀ e ∈ (slots.destroy i s).1, e.IsDestruction := by
  intro e he
  unfold SlotMap.destroy at he
  split at he
  · cases he
  · unfold SlotView.destroy at he
    dsimp only at he
    split at he
    · cases he
    · obtain rfl := List.mem_singleton.mp he
      trivial

theorem compact_destroysOnly (plan : CompiledPlan) : DestroysOnly (compactSlots plan V) where
  destroy i s e he := by
    simp only [compactSlots] at he
    split at he
    · exact SlotMap.destroy_events _ i s e he
    · cases he
  destroyActiveSlots s := by
    apply forEachNode_events
    intro i s e he
    split at he
    · cases he
    · split at he
      · exact SlotMap.destroy_events _ i s e he
      · cases he

theorem oneToOneDestroy_events (plan : CompiledPlan) (i : Nat) (s : OneToOneState V) :
    ∀ e ∈ (oneToOneDestroy plan i s).1, e.IsDestruction := by
  intro e he
  unfold oneToOneDestroy at he
  split at he
  · dsimp only at he
    generalize (if plan.slotLogicalPolicy i = .maybePayload then
      (oneToOneMap plan).hasValue i s.storage else s.liveSlots i) = armed at he
    cases armed with
    | true => exact SlotMap.destroy_events _ i _ e he
    | false => cases he
  · cases he

theorem oneToOne_destroysOnly (plan : CompiledPlan) : DestroysOnly (oneToOneSlots plan V) where
  destroy := oneToOneDestroy_events plan
  destroyActiveSlots := forEachNode_events (oneToOneDestroy_events plan) _

theorem SlotLayoutPolicy.destroysOnly (plan : CompiledPlan) :
    ∀ layout : SlotLayoutPolicy, DestroysOnly (V := V) (layout.slots plan)
  | .oneToOne => oneToOne_destroysOnly plan
  | .serialDfsCompact => compact_destroysOnly plan

/-- Between two machines, only objects were destroyed. -/
def OnlyDestroys (m m' : Machine S V) : Prop :=
  ∃ log : List MemoryEvent, m'.events = log.map .memory ++ m.events ∧ ∀ e ∈ log, e.IsDestruction

namespace OnlyDestroys

variable {m m' m'' : Machine S V}

theorem refl (m : Machine S V) : OnlyDestroys m m :=
  ⟨[], rfl, fun _ he => absurd he List.not_mem_nil⟩

theorem trans (h : OnlyDestroys m m') (h' : OnlyDestroys m' m'') : OnlyDestroys m m'' := by
  obtain ⟨log, hlog, hdestroys⟩ := h
  obtain ⟨log', hlog', hdestroys'⟩ := h'
  refine ⟨log' ++ log, ?_, fun e he => ?_⟩
  · rw [hlog', hlog, List.map_append, List.append_assoc]
  · exact (List.mem_append.mp he).elim (hdestroys' e) (hdestroys e)

theorem onSlots {op : S → List MemoryEvent × S} (hop : ∀ e ∈ (op m.slots).1, e.IsDestruction) :
    OnlyDestroys m (m.onSlots op) :=
  ⟨(op m.slots).1.reverse, rfl, fun e he => hop e (List.mem_reverse.mp he)⟩

theorem destroyStage (m : Machine S V) (i : Nat) : OnlyDestroys m (m.destroyStage i) :=
  m.destroyStage_memory i

theorem leaveRun (hapi : DestroysOnly api) (m : Machine S V) :
    OnlyDestroys m (leaveRun api p m) := by
  have hstages : ∀ n, OnlyDestroys m ((List.range n).foldl (fun m i => m.destroyStage i) m) := by
    intro n
    induction n with
    | zero => exact refl m
    | succ n ih =>
        rw [List.range_succ, List.foldl_append]
        exact ih.trans (destroyStage _ n)
  exact (hstages _).trans (onSlots (hapi.destroyActiveSlots _))

theorem cleaned (hapi : DestroysOnly api) {fuel : Nat} {s s' : Machine S V × W}
    (h : Cleaned (nodeOps api p fuel) s s') : OnlyDestroys s.1 s'.1 := by
  induction h with
  | refl => exact refl _
  | tail _ hstep ih =>
      obtain ⟨i, rfl | rfl⟩ := hstep
      · exact ih.trans (destroyStage _ i)
      · exact ih.trans (onSlots (hapi.destroy i _))

theorem constructions (h : OnlyDestroys m m') (object : RunObject) :
    Lifetime.constructions object (memoryLog m'.events)
      = Lifetime.constructions object (memoryLog m.events) := by
  obtain ⟨log, hlog, hdestroys⟩ := h
  rw [hlog, memoryLog_append, Lifetime.constructions_append,
    Lifetime.constructions_of_destructions hdestroys, Nat.zero_add]

theorem calm (h : OnlyDestroys m m') (hcalm : Calm m'.events) : Calm m.events := by
  obtain ⟨log, hlog, -⟩ := h
  rw [hlog] at hcalm
  exact hcalm.earlier

end OnlyDestroys

/-- The constructions an exception can come from: `store_node_output` moves a
value into a slot, `prepare_fanout_staging` copies a payload. -/
inductive Constructs (api : SlotsApi V S) (p : Program V W) :
    RunObject → Exec (Machine S V × W) Unit → Prop where
  | store (i : Nat) (v : V) : Constructs api p (.payload i) (moveIntoSlot api p i v)
  | stage (i : Nat) : Constructs api p (.stage i) (stageFanout api p i)

/-- Storing an output throws only where the payload is moved. -/
theorem storeNodeOutput_thrown {i : Nat} {s s' : Machine S V × W} :
    ∀ (kind : RawKind) (raw : kind.Result V),
      storeNodeOutput api p i kind raw s = (.thrown, s') →
      ∃ v, Exec.Runs (storeNodeOutput api p i kind raw) s (moveIntoSlot api p i v) s
        ∧ moveIntoSlot api p i v s = (.thrown, s')
  | .void, _, h | .step, _, h => by cases h
  | .taskResult, ⟨_, some v⟩, h | .value, v, h => by
      rcases Exec.bind_eq_thrown.mp h with hmove | ⟨_, _, _, hrest⟩
      · exact ⟨v, .first _ (.self _ s), hmove⟩
      · cases hrest
  | .taskResult, ⟨_, none⟩, h => by cases h

/-- Entering a node throws only where its payload is moved, and such a node is
no direct-output node. -/
theorem enterNode_thrown {fuel i : Nat} {s s' : Machine S V × W}
    (h : enterNode api p fuel i s = (.thrown, s')) :
    (p.plan.task i).usesDirectOutputProtocol = false
      ∧ ∃ v t, Exec.Runs (enterNode api p fuel i) s (moveIntoSlot api p i v) t
        ∧ (moveIntoSlot api p i v t).1 = .thrown := by
  unfold enterNode at h ⊢
  rcases Exec.bind_eq_thrown.mp h with hrecord | ⟨_, s₁, hrecord, hrest⟩
  · cases hrecord
  cases hinto : (p.plan.task i).usesDirectOutputProtocol with
  | true =>
      rw [if_pos hinto] at hrest
      exact absurd (congrArg Prod.fst hrest) (enterInto_neverThrows fuel i s₁)
  | false =>
      rw [if_neg (by simp [hinto])] at hrest
      refine ⟨rfl, ?_⟩
      have hraw : ∃ v t, Exec.Runs (enterRaw api p fuel i) s₁ (moveIntoSlot api p i v) t
          ∧ (moveIntoSlot api p i v t).1 = .thrown := by
        unfold enterRaw at hrest ⊢
        rcases Exec.bind_eq_thrown.mp hrest with hinvoke | ⟨raw, s₂, hinvoke, hafter⟩
        · -- the task's own invocation is `noexcept`
          exact absurd (congrArg Prod.fst hinvoke) (Exec.NeverThrows.noexcept _ s₁)
        cases hok : (Program.extractStepResult (p.plan.task i).rawKind raw).ok with
        | false =>
            rw [if_neg (by simp [hok])] at hafter
            cases hafter
        | true =>
            rw [if_pos hok] at hafter
            rcases Exec.bind_eq_thrown.mp hafter with hstore | ⟨_, _, _, hfinish⟩
            · obtain ⟨v, hruns, hmove⟩ := storeNodeOutput_thrown _ raw hstore
              refine ⟨v, s₂, .next hinvoke ?_, congrArg Prod.fst hmove⟩
              rw [if_pos hok]
              exact .first _ hruns
            · cases hfinish
      obtain ⟨v, t, hruns, hmove⟩ := hraw
      refine ⟨v, t, .next hrecord ?_, hmove⟩
      rw [if_neg (by simp)]
      exact hruns

/-- A copy that throws leaves the machine as it was. -/
theorem stageFanout_thrown {i : Nat} {s s' : Machine S V × W}
    (h : stageFanout api p i s = (.thrown, s')) : s'.1 = s.1 := by
  unfold stageFanout at h
  rcases Exec.bind_eq_thrown.mp h with hlook | ⟨found, s₁, hlook, hrest⟩
  · cases hlook
  obtain rfl := (Prod.mk.inj hlook).2
  cases found with
  | none => cases hrest
  | some v =>
      rcases Exec.bind_eq_thrown.mp hrest with hcopy | ⟨copied, s₂, hcopy, hafter⟩
      · cases hcopy
      obtain ⟨-, rfl⟩ := Prod.mk.inj hcopy
      cases copied with
      | none =>
          obtain ⟨-, rfl⟩ := Prod.mk.inj hafter
          rfl
      | some v' => cases hafter

/-- A machine agrees with a tidy one, as long as no callable emplaces over a live
payload. -/
def Accounted (p : Program V W) (Rep : S → (Nat → Option V) → Prop) (P : List Nat) (n : Nat)
    (s : Machine S V × W) : Prop :=
  ∃ t, Agree p.plan Rep P P s t ∧ (Calm t.1.events → Tidy p.plan n t.1)

/-- The place an exception comes from is a construction, and its object was
never constructed. -/
theorem Raised.construction {fuel : Nat} {α : Type}
    {x : Exec (Machine S V × W) α} {s s' : Machine S V × W} (hapi : Refines p.plan api Rep)
    (hdestroys : DestroysOnly api)
    (h : Raised p.plan.toPlanShape (nodeOps api p fuel) (Accounted p Rep) x s s')
    (hcalm : Calm s'.1.events) :
    ∃ object construct t, Constructs api p object construct ∧ Exec.Runs x s construct t
      ∧ (construct t).1 = .thrown
      ∧ Lifetime.constructions object (memoryLog s'.1.events) = 0 := by
  -- the entry of a node on this backend, seen from the ideal one
  have henter : ∀ i < p.plan.nodeCount, _ := fun i hi =>
    ((tidy_triple (p := p) hi).enterNode hi fuel).pull
      ((enter_agrees hapi hi).enterNode_sim hi fuel)
  cases h with
  | @enter t t' i hi hopen hruns hthrown hclean =>
      obtain ⟨hraw, v, u, hruns', hmove⟩ := enterNode_thrown hthrown
      refine ⟨_, _, u, .store i v, hruns.trans hruns', hmove, ?_⟩
      have hends := (henter i hi).ends hopen
      have hthrown' : enterNode api p fuel i t = (.thrown, t') := hthrown
      rw [hthrown'] at hends
      obtain ⟨u', hagree, htrying⟩ := hends
      have honly := OnlyDestroys.cleaned hdestroys hclean
      have hcalm' := honly.calm hcalm
      rw [honly.constructions, hagree.events]
      rw [hagree.events] at hcalm'
      exact (htrying hcalm').unmade hraw
  | @stage t₀ t t' i entered hi hopen hentered hok hstaging hruns hthrown hclean =>
      refine ⟨_, _, t, .stage i, hruns, congrArg Prod.fst hthrown, ?_⟩
      have hends := (henter i hi).ends hopen
      have hentered' : enterNode api p fuel i t₀ = (.ret entered, t) := hentered
      rw [hentered'] at hends
      obtain ⟨u, hagree, hafter⟩ := hends
      simp only [EnterSim.Outcome, hok, if_true] at hagree hafter
      have honly := OnlyDestroys.cleaned hdestroys hclean
      have hcalm' := honly.calm hcalm
      rw [honly.constructions, stageFanout_thrown hthrown, hagree.2.events]
      rw [stageFanout_thrown hthrown, hagree.2.events] at hcalm'
      exact (hafter.2 hcalm').2

theorem Accounted.start (hapi : Refines p.plan api Rep) (w : W) :
    Accounted p Rep [] 0 (({ slots := api.initial } : Machine S V), w) := by
  refine ⟨({ slots := fun _ => none }, w), ⟨rfl, rfl, rfl, hapi.initial, ?_, ?_, ?_⟩, fun _ => ?_⟩
  · exact fun e he => absurd he List.not_mem_nil
  · exact fun j hj => absurd rfl hj
  · exact fun j hj => absurd hj List.not_mem_nil
  · refine ⟨trivial, fun object => ?_, fun object hobject => ?_, fun _ _ => rfl⟩
    · cases object <;> rfl
    · cases object <;> cases hobject

/-- What the destructors make of a run that was left. -/
theorem leaveRun_accounted (hapi : Refines p.plan api Rep) (hdestroys : DestroysOnly api)
    {s : Machine S V × W} {t : Machine (Nat → Option V) V × W} {live : List Nat}
    (hagree : Agree p.plan Rep [] live s t) (htidy : Calm t.1.events → ∃ n, Tidy p.plan n t.1)
    (hcalm : Calm (leaveRun api p s.1).events) :
    Lifetime.Proper (memoryLog (leaveRun api p s.1).events) ∧ ∀ object,
      Lifetime.isLive object (memoryLog (leaveRun api p s.1).events) = false := by
  have hbefore := (OnlyDestroys.leaveRun hdestroys s.1).calm hcalm
  rw [hagree.events] at hbefore
  obtain ⟨n, htidy'⟩ := htidy hbefore
  have hevents : (leaveRun api p s.1).events
      = (leaveRun (idealSlots p.plan.toCompiledPlan V) p t.1).events :=
    (leaveRun_agrees hapi hagree).2.1
  rw [hevents]
  exact htidy'.leaveRun

end Exception

/-! ## §6. A copy that throws. -/

/-- The root's payload cannot be copied into the stage. -/
def throwingProgram : Program Nat Nat :=
  { fanoutProgram with copy := fun w _ => (none, w) }

end YOrch
