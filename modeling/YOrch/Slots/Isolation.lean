/-
  YOrch.Slots.Isolation — what the node-indexed interface says about one node
  when others use the same slot.

  A run is any sequence of `emplace<I>` and `destroy<I>` in which `emplace<I>`
  finds only payloads of `I`'s proper ancestors live.  In the one-to-one layout
  that is all there is to ask.  The compact backend does not look at the owner
  record when it answers for a node, nor does a slot without a flag know that it
  is empty:

    • `sibling_answers_for_sibling` — in the compact layout, `has_value<J>` and
      `destroy<J>` act on the payload of a sibling of `J`,
    • `isolated_when_clear` — in the one-to-one layout along every run, in the
      compact one along every run whose `destroy` calls find the node's own
      payload or a clear slot, the backend constructs and destroys exactly the
      payloads of the run, a query is right exactly if the slot is clear, and
      `destroy` of a node without payload does nothing, in the compact layout
      exactly if the slot is clear.
-/
import YOrch.Slots.Refinement

namespace YOrch

open Library ValidPlan

variable {V S : Type}

/-! ## §1. Runs of the interface. -/

/-- The operations that change the slots. -/
inductive SlotOp (V : Type) where
  | emplace (i : Nat) (v : V)
  | destroy (i : Nat)

/-- What an operation constructs and destroys. -/
def SlotsApi.stepEvents (api : SlotsApi V S) : SlotOp V → S → List MemoryEvent
  | .emplace i v, s => (api.emplace i v s).1
  | .destroy i, s => (api.destroy i s).1

def SlotsApi.step (api : SlotsApi V S) : SlotOp V → S → S
  | .emplace i v, s => (api.emplace i v s).2
  | .destroy i, s => (api.destroy i s).2

def SlotsApi.run (api : SlotsApi V S) : List (SlotOp V) → S → S
  | [], s => s
  | op :: ops, s => api.run ops (api.step op s)

/-- What a run constructs and destroys, operation by operation. -/
def SlotsApi.runEvents (api : SlotsApi V S) : List (SlotOp V) → S → List (List MemoryEvent)
  | [], _ => []
  | op :: ops, s => api.stepEvents op s :: api.runEvents ops (api.step op s)

/-- `emplace<I>` is called only when all live payloads belong to proper
ancestors of `I`. -/
def ValidPlan.MayEmplace (plan : ValidPlan) (f : Nat → Option V) (i : Nat) : Prop :=
  i < plan.nodeCount ∧ plan.payloadNode i ∧ ∀ j, f j ≠ none → plan.IsAncestor j i

/-- What `destroy<I>` of a node without a live payload has to find, given the
live payloads. -/
abbrev Precondition (V : Type) := (Nat → Option V) → Nat → Prop

/-- An operation is legal, and a `destroy<I>` of a node without a live payload
finds what it has to. -/
def ValidPlan.StepOk (plan : ValidPlan) (Safe : Precondition V) (f : Nat → Option V) :
    SlotOp V → Prop
  | .emplace i _ => plan.MayEmplace f i
  | .destroy i => i < plan.nodeCount ∧ (f i = none → Safe f i)

/-- Every operation of a run is in order when it is called.  `f` is the live
payloads before it. -/
def ValidPlan.RunOk (plan : ValidPlan) (Safe : Precondition V) (f : Nat → Option V) :
    List (SlotOp V) → Prop
  | [] => True
  | op :: ops =>
      plan.StepOk Safe f op
        ∧ plan.RunOk Safe ((idealSlots plan.toCompiledPlan V).step op f) ops

/-- The slot of `i` holds no other node's payload, and a slot without a flag
holds `i`'s. -/
def SlotMap.Clear (slots : SlotMap) (f : Nat → Option V) (i : Nat) : Prop :=
  slots.Free f i ∧ ∀ k, slots.index i = some k → slots.policy k ≠ .maybePayload → f i ≠ none

/-- What the compact layout asks of `destroy<I>`. -/
def compactSafe (plan : ValidPlan) : Precondition V := fun f i =>
  plan.ownsPayload i → (compactMap plan.toCompiledPlan).Clear f i

/-- The one-to-one layout asks nothing. -/
def oneToOneSafe : Precondition V := fun _ _ => True

/-! ## §2. One step. -/

variable {plan : ValidPlan} {slots : SlotMap} {s : Nat → Slot V} {f : Nat → Option V} {i k : Nat}

theorem free_of_mayEmplace (h : SlotsRep plan (compactMap plan.toCompiledPlan) s f)
    (hi : plan.MayEmplace f i) : (compactMap plan.toCompiledPlan).Free f i := by
  apply compact_free h hi.1 hi.2.1
  intro j hj
  exact (plan.mem_path hi.1).mpr (Or.inr (hi.2.2 j hj))

/-- A node without a payload and with a clear slot has a slot with a flag, which
is cleared. -/
theorem SlotsRep.destroy_clear (h : SlotsRep plan slots s f) (hk : slots.index i = some k)
    (hclear : slots.Clear f i) (hv : f i = none) : slots.destroy i s = ([], s) := by
  apply h.destroy_empty hk hclear.1 _ hv
  by_contra hp
  exact hclear.2 k hk hp hv

theorem compact_step {op : SlotOp V} (h : SlotsRep plan (compactMap plan.toCompiledPlan) s f)
    (hop : plan.StepOk (compactSafe plan) f op) :
    (compactSlots plan.toCompiledPlan V).stepEvents op s
        = (idealSlots plan.toCompiledPlan V).stepEvents op f
      ∧ SlotsRep plan (compactMap plan.toCompiledPlan)
          ((compactSlots plan.toCompiledPlan V).step op s)
          ((idealSlots plan.toCompiledPlan V).step op f) := by
  cases op with
  | emplace i v =>
      obtain ⟨k, hk⟩ := compact_index hop.1 hop.2.1
      exact h.emplace hop.1 ((ownsPayload_iff hop.1).mpr hop.2.1) hk (free_of_mayEmplace h hop)
  | destroy i =>
      obtain ⟨hi, hsafe⟩ := hop
      by_cases howns : plan.ownsPayload i
      · obtain ⟨k, hk⟩ := compact_index hi ((ownsPayload_iff hi).mp howns)
        simp only [SlotsApi.stepEvents, SlotsApi.step, compactSlots, idealSlots, howns, if_true]
        cases hv : f i with
        | some v => exact h.destroy_live hk hv
        | none =>
            rw [h.destroy_clear hk (hsafe hv howns) hv, idealDestroy, hv]
            exact ⟨rfl, h⟩
      · simp only [SlotsApi.stepEvents, SlotsApi.step, compactSlots, idealSlots, howns]
        exact ⟨rfl, h⟩

theorem oneToOne_step {s : OneToOneState V} {op : SlotOp V} (h : OneToOneRep plan s f)
    (hop : plan.StepOk oneToOneSafe f op) :
    (oneToOneSlots plan.toCompiledPlan V).stepEvents op s
        = (idealSlots plan.toCompiledPlan V).stepEvents op f
      ∧ OneToOneRep plan ((oneToOneSlots plan.toCompiledPlan V).step op s)
          ((idealSlots plan.toCompiledPlan V).step op f) := by
  cases op with
  | emplace i v =>
      obtain ⟨k, hk⟩ := oneToOne_index hop.1 hop.2.1
      obtain ⟨hevents, hrep⟩ := h.storage.emplace (v := v) hop.1
        ((ownsPayload_iff hop.1).mpr hop.2.1) hk (oneToOne_free hop.1 h.storage)
      exact ⟨hevents, h.update_bits hrep⟩
  | destroy i => exact h.destroy hop.1

/-! ## §3. Whole runs. -/

/-- What holds of an interface step by step holds along a run. -/
theorem run_agrees_ideal (plan : ValidPlan) {api : SlotsApi V S}
    {Rep : S → (Nat → Option V) → Prop} {Safe : Precondition V}
    (hstep : ∀ {s f op}, Rep s f → plan.StepOk Safe f op →
      api.stepEvents op s = (idealSlots plan.toCompiledPlan V).stepEvents op f
        ∧ Rep (api.step op s) ((idealSlots plan.toCompiledPlan V).step op f)) :
    ∀ (ops : List (SlotOp V)) {s : S} {f : Nat → Option V}, Rep s f → plan.RunOk Safe f ops →
      api.runEvents ops s = (idealSlots plan.toCompiledPlan V).runEvents ops f
        ∧ Rep (api.run ops s) ((idealSlots plan.toCompiledPlan V).run ops f)
  | [], _, _, h, _ => ⟨rfl, h⟩
  | _ :: ops, _, _, h, hok => by
      obtain ⟨hevents, hrep⟩ := hstep h hok.1
      obtain ⟨hevents', hrep'⟩ := run_agrees_ideal plan hstep ops hrep hok.2
      exact ⟨congrArg₂ List.cons hevents hevents', hrep'⟩

/-- The one-to-one layout asks less of a run. -/
theorem ValidPlan.RunOk.oneToOne {Safe : Precondition V} :
    ∀ {ops : List (SlotOp V)} {f : Nat → Option V},
      plan.RunOk Safe f ops → plan.RunOk oneToOneSafe f ops
  | [], _, _ => trivial
  | .emplace _ _ :: _, _, hok => ⟨hok.1, ValidPlan.RunOk.oneToOne hok.2⟩
  | .destroy _ :: _, _, hok => ⟨⟨hok.1.1, fun _ => trivial⟩, ValidPlan.RunOk.oneToOne hok.2⟩

/-! ## §4. Queries. -/

/-- A slot answers for a node correctly exactly if it is clear for that node. -/
theorem SlotsRep.hasValue_iff (h : SlotsRep plan slots s f) (hk : slots.index i = some k) :
    (slots.hasValue i s = true ↔ f i ≠ none) ↔ slots.Clear f i := by
  rw [slots.hasValue_eq hk]
  by_cases hp : slots.policy k = .maybePayload
  · rw [if_pos hp, h.engaged k hp]
    constructor
    · intro hanswer
      refine ⟨fun j k' hik hjk hj => ?_, fun k' hik hpk => ?_⟩
      · obtain rfl : k' = k := Option.some.inj (hik.symm.trans hk)
        obtain ⟨w, hw⟩ := Option.ne_none_iff_exists'.mp hj
        have hobject := h.object_eq hjk hw
        -- the slot is engaged, so the answer makes `i` its occupant
        have hi : f i ≠ none := hanswer.mp (by rw [hobject]; rfl)
        obtain ⟨v, hv⟩ := Option.ne_none_iff_exists'.mp hi
        rw [h.object_eq hk hv, Option.some.injEq, Prod.mk.injEq] at hobject
        exact hobject.1.symm
      · obtain rfl : k' = k := Option.some.inj (hik.symm.trans hk)
        exact absurd hp hpk
    · intro hclear
      rw [h.object_of_free hk hclear.1, Option.isSome_map, Option.isSome_iff_ne_none]
  · rw [if_neg hp]
    constructor
    · intro hanswer
      have hi : f i ≠ none := hanswer.mp rfl
      obtain ⟨v, hv⟩ := Option.ne_none_iff_exists'.mp hi
      exact ⟨h.free_of_live hv, fun _ _ _ => hi⟩
    · intro hclear
      exact ⟨fun _ => hclear.2 k hk hp, fun _ => rfl⟩

/-- Destroying a node without a live payload destroys nothing exactly if its slot
is clear: a full slot has another node's payload destroyed, and a slot without a
flag runs a destructor on no object. -/
theorem SlotsRep.destroy_iff (h : SlotsRep plan slots s f) (hk : slots.index i = some k)
    (hv : f i = none) : (slots.destroy i s).1 = [] ↔ slots.Clear f i := by
  constructor
  · intro hnothing
    have hrun : ¬ ((slots.view i k).policy = .maybePayload → (s k).engaged = true) := by
      intro hengaged
      simp only [SlotMap.destroy, hk, SlotView.destroy_run _ hengaged] at hnothing
      cases hnothing
    rw [Classical.not_imp] at hrun
    refine ⟨fun j k' hik hjk hj => ?_, fun k' hik hp => ?_⟩
    · obtain rfl : k' = k := Option.some.inj (hik.symm.trans hk)
      obtain ⟨w, hw⟩ := Option.ne_none_iff_exists'.mp hj
      -- another node's payload would have set the flag
      refine absurd ?_ hrun.2
      rw [h.engaged k' hrun.1, h.object_eq hjk hw]
      rfl
    · obtain rfl : k' = k := Option.some.inj (hik.symm.trans hk)
      exact absurd hrun.1 hp
  · intro hclear
    rw [h.destroy_clear hk hclear hv]

/-! ## §5. Isolation. -/

/-- A backend's answers and effects for single nodes, in a state whose live
payloads are `f`. -/
structure Isolated (plan : ValidPlan) (slots : SlotMap) (api : SlotsApi V S)
    (Safe : Precondition V) (s : S) (f : Nat → Option V) : Prop where
  /-- The payload of an owned node is the one the state holds for it. -/
  payload : ∀ j < plan.nodeCount, plan.payloadNode j → api.get j s = f j
  hasValue_void : ∀ j, (plan.outputType j).isVoid → api.hasValue j s = false
  /-- `has_value<J>` is right about `J`'s owner exactly if its slot is clear. -/
  hasValue : ∀ j < plan.nodeCount, (plan.outputType j).isVoid = false →
    ((api.hasValue j s = true ↔ f (plan.canonicalOutputOwnerNode j) ≠ none)
      ↔ slots.Clear f (plan.canonicalOutputOwnerNode j))
  /-- `destroy<J>` without a live payload of `J` destroys nothing and leaves all
  payloads exactly if it finds what it has to. -/
  destroy : ∀ j < plan.nodeCount, f j = none →
    ((api.destroy j s).1 = []
        ∧ (∀ i < plan.nodeCount, plan.payloadNode i → api.get i (api.destroy j s).2 = f i)
      ↔ Safe f j)

theorem compact_isolated {s : Nat → Slot V} {f : Nat → Option V}
    (h : SlotsRep plan (compactMap plan.toCompiledPlan) s f) :
    Isolated plan (compactMap plan.toCompiledPlan) (compactSlots plan.toCompiledPlan V)
      (compactSafe plan) s f := by
  have hget : ∀ i < plan.nodeCount, plan.payloadNode i →
      (compactSlots plan.toCompiledPlan V).get i s = f i := by
    intro i hi howned
    rw [(compact_refines plan).get h hi (owner_of_payloadNode hi howned).1,
      (owner_of_payloadNode hi howned).2]
  refine ⟨hget, fun j hvoid => ?_, fun j hj hvoid => ?_, fun j hj hv => ?_⟩
  · simp [compactSlots, slotHasValueImpl, hvoid]
  · obtain ⟨ho, howned⟩ := owner_payloadNode hj hvoid
    obtain ⟨k, hk⟩ := compact_index ho howned
    simp only [compactSlots, slotHasValueImpl, hvoid, Bool.false_eq_true, if_false]
    exact h.hasValue_iff hk
  · unfold compactSafe
    by_cases howns : plan.ownsPayload j
    · obtain ⟨k, hk⟩ := compact_index hj ((ownsPayload_iff hj).mp howns)
      have hdestroy : (compactSlots plan.toCompiledPlan V).destroy j s
          = (compactMap plan.toCompiledPlan).destroy j s := by
        simp only [compactSlots, howns, if_true]
      rw [hdestroy, ← h.destroy_iff hk hv]
      constructor
      · exact fun hnothing _ => hnothing.1
      · intro hnothing
        have hclear := (h.destroy_iff hk hv).mp (hnothing howns)
        rw [h.destroy_clear hk hclear hv]
        exact ⟨rfl, hget⟩
    · simp only [compactSlots, howns, Bool.false_eq_true, if_false, false_imp_iff, iff_true]
      exact ⟨trivial, hget⟩

theorem oneToOne_isolated {s : OneToOneState V} {f : Nat → Option V} (h : OneToOneRep plan s f) :
    Isolated plan (oneToOneMap plan.toCompiledPlan) (oneToOneSlots plan.toCompiledPlan V)
      oneToOneSafe s f where
  payload j hj howned := by
    rw [(oneToOne_refines plan).get h hj (owner_of_payloadNode hj howned).1,
      (owner_of_payloadNode hj howned).2]
  hasValue_void j hvoid := by
    simp [oneToOneSlots, slotHasValueImpl, hvoid]
  hasValue j hj hvoid := by
    obtain ⟨ho, howned⟩ := owner_payloadNode hj hvoid
    obtain ⟨k, hk⟩ := oneToOne_index ho howned
    rw [← h.storage.hasValue_iff hk, SlotMap.hasValue_eq _ hk]
    simp only [oneToOneSlots, slotHasValueImpl, hvoid, Bool.false_eq_true, if_false,
      SlotMap.hasValue_eq _ hk, oneToOne_policy ho howned hk]
    split <;> rfl
  destroy j hj hv := by
    obtain ⟨hevents, hrep⟩ := h.destroy hj
    have hdead : (if plan.ownsPayload j then idealDestroy j f else ([], f)) = ([], f) := by
      rw [idealDestroy, hv, ite_self]
    rw [hdead] at hevents hrep
    refine ⟨fun _ => trivial, fun _ => ⟨hevents, fun i hi howned => ?_⟩⟩
    show (oneToOneSlots plan.toCompiledPlan V).get i
      (oneToOneDestroy plan.toCompiledPlan j s).2 = _
    rw [(oneToOne_refines plan).get hrep hi (owner_of_payloadNode hi howned).1,
      (owner_of_payloadNode hi howned).2]

/-- **Isolation along a run.**  A backend along a run that is in order for its
layout constructs and destroys what the run says, and is isolated in the state
the run reaches.  In the one-to-one layout every run of legal operations is in
order; so, along a run that is in order for the compact one, the two backends
construct and destroy the same. -/
theorem isolated_when_clear (plan : ValidPlan) (ops : List (SlotOp V)) :
    let ideal := idealSlots plan.toCompiledPlan V
    let compact := compactSlots plan.toCompiledPlan V
    let oneToOne := oneToOneSlots plan.toCompiledPlan V
    let f := ideal.run ops ideal.initial
    (plan.RunOk (compactSafe plan) ideal.initial ops →
        Isolated plan (compactMap plan.toCompiledPlan) compact (compactSafe plan)
            (compact.run ops compact.initial) f
          ∧ compact.runEvents ops compact.initial = ideal.runEvents ops ideal.initial
          ∧ oneToOne.runEvents ops oneToOne.initial = compact.runEvents ops compact.initial)
      ∧ (plan.RunOk oneToOneSafe ideal.initial ops →
        Isolated plan (oneToOneMap plan.toCompiledPlan) oneToOne oneToOneSafe
            (oneToOne.run ops oneToOne.initial) f
          ∧ oneToOne.runEvents ops oneToOne.initial = ideal.runEvents ops ideal.initial) := by
  intro ideal compact oneToOne f
  have hcompact := run_agrees_ideal (V := V) plan compact_step ops SlotsRep.initial
  have honeToOne := run_agrees_ideal (V := V) plan oneToOne_step ops
    (oneToOne_refines plan).initial
  constructor
  · intro hok
    obtain ⟨hevents, hrep⟩ := hcompact hok
    exact ⟨compact_isolated hrep, hevents, (honeToOne hok.oneToOne).1.trans hevents.symm⟩
  · intro hok
    obtain ⟨hevents, hrep⟩ := honeToOne hok
    exact ⟨oneToOne_isolated hrep, hevents⟩

/-! ## §6. Two siblings. -/

/-- A root task and two children that may each produce a payload. -/
def siblingTasks : CompiledPlan where
  toPlanShape := .twoChildren
  task := fun i =>
    if i = 0 then .base (.boundTask (.function [] .void) [])
    else .base (.boundTask (.function [] (.taskResult (.object 0))) [])
  fanoutPolicy := fun _ => .auto

def siblingPlan : ValidPlan where
  toCompiledPlan := siblingTasks
  bound := by decide
  runnable := by decide
  slotsFormed := by decide

/-- **One child answers for the other.**  With only the first child's payload
live, the compact backend says that the second child has a value, and destroying
the second child's payload ends the first one's. -/
theorem sibling_answers_for_sibling :
    let api := compactSlots siblingPlan.toCompiledPlan Nat
    let s := api.run [.emplace 1 7] api.initial
    siblingPlan.MayEmplace (fun _ => (none : Option Nat)) 1
      ∧ siblingPlan.slotLogicalPolicy 2 ≠ .mustPayload
      ∧ siblingPlan.canonicalOutputOwnerNode 2 = 2
      ∧ api.get 1 s = some 7 ∧ api.get 2 s = none
      ∧ api.hasValue 2 s = true ∧ api.get 1 (api.destroy 2 s).2 = none := by
  have howner₁ := (@owner_of_payloadNode siblingPlan 1 (by decide) (by decide)).2
  have howner₂ := (@owner_of_payloadNode siblingPlan 2 (by decide) (by decide)).2
  simp only [compactSlots, slotHasValueImpl, howner₁, howner₂]
  refine ⟨⟨by decide, by decide, fun j hj => absurd rfl hj⟩, by decide, trivial, ?_, ?_, ?_, ?_⟩
  all_goals rfl

/-- A run in which one child's payload is destroyed before the other child's is
constructed is in order for both layouts. -/
theorem isolated_when_clear_siblings :
    let ops := [SlotOp.emplace 1 7, .destroy 1, .emplace 2 8]
    let ideal := idealSlots siblingPlan.toCompiledPlan Nat
    let compact := compactSlots siblingPlan.toCompiledPlan Nat
    let oneToOne := oneToOneSlots siblingPlan.toCompiledPlan Nat
    Isolated siblingPlan (compactMap siblingPlan.toCompiledPlan) compact
        (compactSafe siblingPlan) (compact.run ops compact.initial) (ideal.run ops ideal.initial)
      ∧ Isolated siblingPlan (oneToOneMap siblingPlan.toCompiledPlan) oneToOne oneToOneSafe
        (oneToOne.run ops oneToOne.initial) (ideal.run ops ideal.initial) := by
  have hok : siblingPlan.RunOk (compactSafe siblingPlan)
      (idealSlots siblingPlan.toCompiledPlan Nat).initial
      [SlotOp.emplace 1 7, .destroy 1, .emplace 2 8] := by
    refine ⟨⟨by decide, by decide, fun j hj => absurd rfl hj⟩, ⟨by decide, fun h => ?_⟩,
      ⟨by decide, by decide, fun j hj => ?_⟩, trivial⟩
    · exact absurd h (by decide)
    · -- nothing is live after the first child's payload is destroyed
      have hnone : ((idealSlots siblingPlan.toCompiledPlan Nat).run [.emplace 1 7, .destroy 1]
          fun _ => none) j = none := by
        by_cases h : j = 1
        · subst h
          rfl
        · show Function.update (Function.update (fun _ => none) 1 (some 7)) 1 none j = none
          rw [Function.update_of_ne h, Function.update_of_ne h]
      exact absurd hnone hj
  obtain ⟨hcompact, honeToOne⟩ := isolated_when_clear (V := Nat) siblingPlan
    [.emplace 1 7, .destroy 1, .emplace 2 8]
  exact ⟨(hcompact hok).1, (honeToOne hok.oneToOne).1⟩

end YOrch
