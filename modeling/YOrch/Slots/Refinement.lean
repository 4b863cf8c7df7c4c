/-
  YOrch.Slots.Refinement — both storage backends answer as the ideal one.

  `SlotsRep` says that the slots hold exactly the live payloads, with flags and
  owner records to match.  An operation on a node keeps it if the node's slot
  holds no other node's payload.  `Refines` lists what a run needs of a backend
  when only nodes on the current path have live payloads; `compact_refines` and
  `oneToOne_refines` are its two instances.
-/
import YOrch.Slots.PlanExecSlots

namespace YOrch

open Library

variable {V : Type}

/-! ## §1. Slots that hold the live payloads. -/

/-- The slots hold exactly the live payloads. -/
structure SlotsRep (plan : ValidPlan) (slots : SlotMap) (s : Nat → Slot V)
    (f : Nat → Option V) : Prop where
  live : ∀ i v, f i = some v → i < plan.nodeCount ∧ plan.ownsPayload i
  object : ∀ k i v, (s k).object = some (i, v) ↔ slots.index i = some k ∧ f i = some v
  engaged : ∀ k, slots.policy k = .maybePayload → (s k).engaged = (s k).object.isSome
  owner : slots.tracksOwner → ∀ k, (s k).ownerNode = (s k).object.map Prod.fst

/-- Node `i`'s slot holds no other node's payload. -/
def SlotMap.Free (slots : SlotMap) (f : Nat → Option V) (i : Nat) : Prop :=
  ∀ j k, slots.index i = some k → slots.index j = some k → f j ≠ none → j = i

namespace SlotsRep

variable {plan : ValidPlan} {slots : SlotMap} {s : Nat → Slot V} {f : Nat → Option V}
  {i k : Nat} {v : V}

theorem initial : SlotsRep plan slots (fun _ => ({} : Slot V)) fun _ => none where
  live _ _ h := by cases h
  object _ _ _ := by simp
  engaged _ _ := rfl
  owner _ _ := rfl

theorem object_eq (h : SlotsRep plan slots s f) (hk : slots.index i = some k)
    (hv : f i = some v) : (s k).object = some (i, v) :=
  (h.object k i v).mpr ⟨hk, hv⟩

/-- A free slot holds the node's own payload or nothing. -/
theorem object_of_free (h : SlotsRep plan slots s f) (hk : slots.index i = some k)
    (hfree : slots.Free f i) : (s k).object = (f i).map fun v => (i, v) := by
  cases ho : (s k).object with
  | none =>
      cases hf : f i with
      | none => rfl
      | some v =>
          rw [h.object_eq hk hf] at ho
          cases ho
  | some o =>
      obtain ⟨j, w⟩ := o
      obtain ⟨hj, hw⟩ := (h.object k j w).mp ho
      obtain rfl := hfree j k hk hj (by rw [hw]; exact Option.some_ne_none w)
      rw [hw]
      rfl

theorem held_of_free (h : SlotsRep plan slots s f) (hk : slots.index i = some k)
    (hfree : slots.Free f i) : SlotView.held (s k) = (f i).map fun _ => .payload i := by
  rw [SlotView.held, h.object_of_free hk hfree]
  cases f i <;> rfl

/-- Replacing node `i`'s payload in its slot keeps the relation. -/
theorem update (h : SlotsRep plan slots s f) (hk : slots.index i = some k)
    (hfree : slots.Free f i) {slot : Slot V} {o : Option V}
    (hlive : o ≠ none → i < plan.nodeCount ∧ plan.ownsPayload i)
    (hobject : slot.object = o.map fun v => (i, v))
    (hengaged : slots.policy k = .maybePayload → slot.engaged = slot.object.isSome)
    (howner : slots.tracksOwner → slot.ownerNode = slot.object.map Prod.fst) :
    SlotsRep plan slots (Function.update s k slot) (Function.update f i o) where
  live j w hw := by
    by_cases hj : j = i
    · subst hj
      rw [Function.update_self] at hw
      exact hlive (by rw [hw]; exact Option.some_ne_none w)
    · rw [Function.update_of_ne hj] at hw
      exact h.live j w hw
  object k' j w := by
    -- slot `k` holds node `i`'s payload or nothing; no other slot has it
    by_cases hk' : k' = k
    · subst hk'
      rw [Function.update_self, hobject]
      by_cases hj : j = i
      · subst hj
        rw [Function.update_self]
        cases o <;> simp [hk]
      · -- another node's payload is not in this slot, before or after
        rw [Function.update_of_ne hj]
        constructor
        · intro ho
          cases o with
          | none => cases ho
          | some _ =>
              rw [Option.map_some, Option.some.injEq, Prod.mk.injEq] at ho
              exact absurd ho.1.symm hj
        · intro ⟨hjk, hw⟩
          exact absurd (hfree j k' hk hjk (by rw [hw]; exact Option.some_ne_none w)) hj
    · rw [Function.update_of_ne hk', h.object]
      by_cases hj : j = i
      · subst hj
        rw [hk]
        simp [Ne.symm hk']
      · rw [Function.update_of_ne hj]
  engaged k' hp := by
    by_cases hk' : k' = k
    · subst hk'
      rw [Function.update_self]
      exact hengaged hp
    · rw [Function.update_of_ne hk']
      exact h.engaged k' hp
  owner ht k' := by
    by_cases hk' : k' = k
    · subst hk'
      rw [Function.update_self]
      exact howner ht
    · rw [Function.update_of_ne hk']
      exact h.owner ht k'

/-- A live payload keeps its own slot free. -/
theorem free_of_live (h : SlotsRep plan slots s f) (hv : f i = some v) : slots.Free f i := by
  intro j k hik hjk hj
  obtain ⟨w, hw⟩ := Option.ne_none_iff_exists'.mp hj
  have hi := h.object_eq hik hv
  rw [h.object_eq hjk hw, Option.some.injEq, Prod.mk.injEq] at hi
  exact hi.1

theorem emplace (h : SlotsRep plan slots s f) (hi : i < plan.nodeCount)
    (howns : plan.ownsPayload i) (hk : slots.index i = some k) (hfree : slots.Free f i) :
    (slots.emplace i v s).1 = (idealEmplace i v f).1
      ∧ SlotsRep plan slots (slots.emplace i v s).2 (idealEmplace i v f).2 := by
  simp only [SlotMap.emplace, hk, SlotMap.view, SlotView.emplace, idealEmplace]
  refine ⟨by rw [h.held_of_free hk hfree], ?_⟩
  apply h.update hk hfree (fun _ => ⟨hi, howns⟩) rfl
  · intro hp
    simp [hp]
  · intro ht
    simp [ht]

/-- Destroying a live payload empties its slot. -/
theorem destroy_live (h : SlotsRep plan slots s f) (hk : slots.index i = some k)
    (hv : f i = some v) : (slots.destroy i s).1 = (idealDestroy i f).1
      ∧ SlotsRep plan slots (slots.destroy i s).2 (idealDestroy i f).2 := by
  have hobject := h.object_eq hk hv
  have hfree := h.free_of_live hv
  have hengaged : (slots.view i k).policy = .maybePayload → (s k).engaged = true := by
    intro hp
    rw [h.engaged k hp, hobject]
    rfl
  simp only [SlotMap.destroy, hk, SlotView.destroy_run _ hengaged, idealDestroy, hv]
  refine ⟨by rw [h.held_of_free hk hfree, hv]; rfl, ?_⟩
  apply h.update hk hfree (fun ho => absurd rfl ho) rfl
  · exact fun hp => if_pos hp
  · exact fun ht => if_pos ht

/-- Destroying through a flag that is not set does nothing. -/
theorem destroy_empty (h : SlotsRep plan slots s f) (hk : slots.index i = some k)
    (hfree : slots.Free f i) (hp : slots.policy k = .maybePayload) (hv : f i = none) :
    slots.destroy i s = ([], s) := by
  have he : (s k).engaged = false := by
    rw [h.engaged k hp, h.object_of_free hk hfree, hv]
    rfl
  simp only [SlotMap.destroy, hk]
  rw [SlotView.destroy_skip (slots.view i k) hp he, Function.update_eq_self]

theorem destroy (h : SlotsRep plan slots s f) (hk : slots.index i = some k)
    (hfree : slots.Free f i) (hp : f i = none → slots.policy k = .maybePayload) :
    (slots.destroy i s).1 = (idealDestroy i f).1
      ∧ SlotsRep plan slots (slots.destroy i s).2 (idealDestroy i f).2 := by
  cases hv : f i with
  | some v => exact h.destroy_live hk hv
  | none =>
      rw [h.destroy_empty hk hfree (hp hv) hv, idealDestroy, hv]
      exact ⟨rfl, h⟩

theorem get (h : SlotsRep plan slots s f) (hk : slots.index i = some k) :
    slots.get i s = f i := by
  simp only [SlotMap.get, hk, SlotMap.view, SlotView.get]
  cases hf : f i with
  | some v => simp [h.object_eq hk hf]
  | none =>
      cases ho : (s k).object with
      | none => rfl
      | some o =>
          -- the object of another node is not of this view's type
          obtain ⟨j, w⟩ := o
          have hj := (h.object k j w).mp ho
          have hne : j ≠ i := by
            intro hj'
            rw [hj', hf] at hj
            cases hj.2
          simp [hne]

theorem set (h : SlotsRep plan slots s f) (hk : slots.index i = some k) (hv : f i ≠ none) (w : V) :
    SlotsRep plan slots (slots.set i w s)
      (Function.update f i ((f i).map fun _ => w)) := by
  obtain ⟨v, hv⟩ := Option.ne_none_iff_exists'.mp hv
  have hobject := h.object_eq hk hv
  simp only [SlotMap.set, hk, hv, Option.map_some]
  apply h.update hk (h.free_of_live hv) (fun _ => h.live i v hv)
  · simp [SlotView.set, hobject]
  · intro hp
    simp [SlotView.set, h.engaged k hp]
  · intro ht
    simp [SlotView.set, h.owner ht k, hobject]

theorem hasValue (h : SlotsRep plan slots s f) (hk : slots.index i = some k)
    (hfree : slots.Free f i) (hp : slots.policy k = .maybePayload) :
    slots.hasValue i s = (f i).isSome := by
  rw [slots.hasValue_eq hk, if_pos hp, h.engaged k hp, h.object_of_free hk hfree,
    Option.isSome_map]

end SlotsRep

/-- Operations that keep a relation and cause the same events do so over all
nodes. -/
theorem forEachNode_rel {S T : Type} {R : S → T → Prop} {op : Nat → S → List MemoryEvent × S}
    {op' : Nat → T → List MemoryEvent × T} {n : Nat}
    (hop : ∀ i < n, ∀ s t, R s t → (op i s).1 = (op' i t).1 ∧ R (op i s).2 (op' i t).2)
    {s : S} {t : T} (h : R s t) :
    (forEachNode n op s).1 = (forEachNode n op' t).1
      ∧ R (forEachNode n op s).2 (forEachNode n op' t).2 := by
  unfold forEachNode
  induction n with
  | zero => exact ⟨rfl, h⟩
  | succ n ih =>
      rw [List.range_succ, List.foldl_append, List.foldl_append]
      obtain ⟨hevents, hrel⟩ := ih fun i hi => hop i (Nat.lt_succ_of_lt hi)
      obtain ⟨hevents', hrel'⟩ := hop n (Nat.lt_succ_self n) _ _ hrel
      exact ⟨congrArg₂ (· ++ ·) hevents hevents', hrel'⟩

/-- What holds of every event of every operation. -/
theorem forEachNode_events {S : Type} {P : MemoryEvent → Prop}
    {op : Nat → S → List MemoryEvent × S} (hop : ∀ i s, ∀ e ∈ (op i s).1, P e) (n : Nat) (s : S) :
    ∀ e ∈ (forEachNode n op s).1, P e := by
  unfold forEachNode
  induction n with
  | zero =>
      intro e he
      cases he
  | succ n ih =>
      intro e he
      rw [List.range_succ, List.foldl_append] at he
      rcases List.mem_append.mp he with he | he
      · exact ih e he
      · exact hop n _ e he

/-- Operations that do nothing to a state do nothing together. -/
theorem forEachNode_nothing {S : Type} {op : Nat → S → List MemoryEvent × S} {s : S}
    (hop : ∀ i, op i s = ([], s)) (n : Nat) : forEachNode n op s = ([], s) := by
  unfold forEachNode
  induction n with
  | zero => rfl
  | succ n ih =>
      rw [List.range_succ, List.foldl_append, ih, List.foldl_cons, List.foldl_nil, hop]
      rfl

/-! ## §2. What a run needs of a backend. -/

/-- Only nodes on the path to `i` have a live payload. -/
def ValidPlan.LiveOn (plan : ValidPlan) (f : Nat → Option V) (i : Nat) : Prop :=
  ∀ j, f j ≠ none → j ∈ plan.path i

/-- Related states answer alike and stay related, for operations on the last
node of the current path. -/
structure Refines {S : Type} (plan : ValidPlan) (api : SlotsApi V S)
    (Rep : S → (Nat → Option V) → Prop) : Prop where
  initial : Rep api.initial fun _ => none
  hasValue : ∀ {s f i}, Rep s f → i < plan.nodeCount → plan.payloadNode i →
    plan.slotLogicalPolicy i = .maybePayload → plan.LiveOn f i →
    api.hasValue i s = (f i).isSome
  emplace : ∀ {s f i} (v : V), Rep s f → i < plan.nodeCount → plan.payloadNode i →
    plan.LiveOn f i → (api.emplace i v s).1 = (idealEmplace i v f).1
      ∧ Rep (api.emplace i v s).2 (idealEmplace i v f).2
  destroy : ∀ {s f i}, Rep s f → i < plan.nodeCount → plan.payloadNode i → plan.LiveOn f i →
    (plan.slotLogicalPolicy i ≠ .maybePayload → f i ≠ none) →
    (api.destroy i s).1 = (idealDestroy i f).1
      ∧ Rep (api.destroy i s).2 (idealDestroy i f).2
  destroy_none : ∀ {s i}, plan.ownsPayload i = false → api.destroy i s = ([], s)
  get : ∀ {s f i}, Rep s f → i < plan.nodeCount → (plan.outputType i).isVoid = false →
    api.get i s = f (plan.canonicalOutputOwnerNode i)
  set : ∀ {s f i} (v : V), Rep s f → i < plan.nodeCount →
    (plan.outputType i).isVoid = false → f (plan.canonicalOutputOwnerNode i) ≠ none →
    Rep (api.set i v s) ((idealSlots plan.toCompiledPlan V).set i v f)
  outHasValue : ∀ {s f i}, Rep s f → i < plan.nodeCount → plan.payloadNode i →
    plan.slotLogicalPolicy i = .maybePayload → plan.LiveOn f i →
    api.outHasValue i s = (f i).isSome
  outEmplace : ∀ {s f i} (v : V), Rep s f → i < plan.nodeCount → plan.payloadNode i →
    plan.slotLogicalPolicy i = .maybePayload → plan.LiveOn f i →
    (api.outEmplace i v s).1 = (idealEmplace i v f).1
      ∧ Rep (api.outEmplace i v s).2 (idealEmplace i v f).2
  outDestroy : ∀ {s f i}, Rep s f → i < plan.nodeCount → plan.payloadNode i →
    plan.slotLogicalPolicy i = .maybePayload → plan.LiveOn f i →
    (api.outDestroy i s).1 = (idealDestroy i f).1
      ∧ Rep (api.outDestroy i s).2 (idealDestroy i f).2
  destroyActiveSlots : ∀ {s f}, Rep s f → (api.destroyActiveSlots s).1
    = ((idealSlots plan.toCompiledPlan V).destroyActiveSlots f).1

/-! ## §3. Facts about owned nodes. -/

/-- An owned node's policy is not `none`. -/
theorem CompiledPlan.owned_policy {plan : CompiledPlan} {i : Nat} (h : plan.payloadNode i) :
    plan.slotLogicalPolicy i ≠ .none := by
  simp only [payloadNode, YOrch.payloadNode, beq_iff_eq, outputStorageMode,
    Task.outputStorageMode] at h
  simp only [slotLogicalPolicy, Task.slotLogicalPolicy]
  cases hd : (plan.task i).declaredOutput with
  | some T =>
      simp only [hd] at h ⊢
      split_ifs at h ⊢
      simp
  | none =>
      simp only [hd] at h ⊢
      split_ifs at h ⊢ <;> simp

namespace ValidPlan

variable {plan : ValidPlan} {i : Nat}

theorem ownsPayload_iff (hi : i < plan.nodeCount) : plan.ownsPayload i ↔ plan.payloadNode i := by
  have hformed := plan.slotsFormed i hi
  simp only [CompiledPlan.nodeSlotFormed, Bool.and_eq_true, Bool.or_eq_true,
    Bool.not_eq_true', bne_iff_ne, ne_eq] at hformed
  simp only [CompiledPlan.ownsPayload, CompiledPlan.payloadNode, payloadNode, Bool.and_eq_true,
    Bool.not_eq_true', beq_iff_eq]
  constructor
  · exact fun h => h.2
  · exact fun h => ⟨hformed.2.resolve_left fun hne => hne h, h⟩

theorem owned_policy (h : plan.payloadNode i) : plan.slotLogicalPolicy i ≠ .none :=
  CompiledPlan.owned_policy h

theorem owner_payloadNode (hi : i < plan.nodeCount)
    (hvoid : (plan.outputType i).isVoid = false) :
    plan.canonicalOutputOwnerNode i < plan.nodeCount
      ∧ plan.payloadNode (plan.canonicalOutputOwnerNode i) :=
  ⟨Nat.lt_of_le_of_lt (owner_le hi hvoid) hi, (owner_chain i hi hvoid).2.1⟩

/-- An owned node is its own owner. -/
theorem owner_of_payloadNode (hi : i < plan.nodeCount) (h : plan.payloadNode i) :
    (plan.outputType i).isVoid = false ∧ plan.canonicalOutputOwnerNode i = i := by
  have howns := (ownsPayload_iff hi).mpr h
  simp only [CompiledPlan.ownsPayload, Bool.and_eq_true, Bool.not_eq_true', beq_iff_eq] at howns
  refine ⟨howns.1, owner_self howns.1 ?_⟩
  rw [howns.2]
  decide

/-! ## §4. The compact backend. -/

theorem compact_index (hi : i < plan.nodeCount) (h : plan.payloadNode i) :
    ∃ k, (compactMap plan.toCompiledPlan).index i = some k := by
  refine ⟨ownedOnPath plan.toPlanShape plan.outputStorageMode i - 1, ?_⟩
  exact (compactIndex_eq plan.toPlanShape plan.outputStorageMode hi).trans (if_pos h)

/-- A shared slot has a flag if one of its nodes may leave it empty. -/
theorem compact_policy {k : Nat} (hi : i < plan.nodeCount) (h : plan.payloadNode i)
    (hk : (compactMap plan.toCompiledPlan).index i = some k)
    (hp : plan.slotLogicalPolicy i = .maybePayload) :
    (compactMap plan.toCompiledPlan).policy k = .maybePayload := by
  obtain ⟨k', hlt, hk'⟩ := compactIndex_lt plan.toPlanShape plan.outputStorageMode hi h
  obtain rfl : k' = k := Option.some.inj (hk'.symm.trans hk)
  exact (physicalPolicy_maybe_iff plan.toPlanShape hlt).mpr ⟨i, hi, hk, hp⟩

theorem compact_free {f : Nat → Option V} {s : Nat → Slot V}
    (hrep : SlotsRep plan (compactMap plan.toCompiledPlan) s f) (hi : i < plan.nodeCount)
    (h : plan.payloadNode i) (hlive : plan.LiveOn f i) :
    (compactMap plan.toCompiledPlan).Free f i := by
  intro j k hik hjk hj
  obtain ⟨v, hv⟩ := Option.ne_none_iff_exists'.mp hj
  obtain ⟨hjn, hjowns⟩ := hrep.live j v hv
  exact compactIndex_inj plan.toPlanShape plan.outputStorageMode hi (hlive j hj)
    (plan.self_mem_path i) ((ownsPayload_iff hjn).mp hjowns) h (hjk.trans hik.symm)

end ValidPlan

open ValidPlan

theorem SlotsRep.payloadNode_of_live {plan : ValidPlan} {slots : SlotMap} {s : Nat → Slot V}
    {f : Nat → Option V} (h : SlotsRep plan slots s f) (j : Nat) (hj : f j ≠ none) :
    plan.payloadNode j := by
  obtain ⟨v, hv⟩ := Option.ne_none_iff_exists'.mp hj
  obtain ⟨hjn, hjowns⟩ := h.live j v hv
  exact (ownsPayload_iff hjn).mp hjowns

/-- **The compact backend, on the current path.** -/
theorem compact_refines (plan : ValidPlan) :
    Refines plan (compactSlots plan.toCompiledPlan V)
      (SlotsRep plan (compactMap plan.toCompiledPlan)) where
  initial := .initial
  hasValue {s f i} hrep hi howned hp hlive := by
    obtain ⟨k, hk⟩ := compact_index hi howned
    obtain ⟨hvoid, howner⟩ := owner_of_payloadNode hi howned
    simp only [compactSlots, slotHasValueImpl, hvoid, howner, Bool.false_eq_true, if_false]
    exact hrep.hasValue hk (compact_free hrep hi howned hlive) (compact_policy hi howned hk hp)
  emplace {s f i} v hrep hi howned hlive := by
    obtain ⟨k, hk⟩ := compact_index hi howned
    exact hrep.emplace hi ((ownsPayload_iff hi).mpr howned) hk (compact_free hrep hi howned hlive)
  destroy {s f i} hrep hi howned hlive hp := by
    obtain ⟨k, hk⟩ := compact_index hi howned
    simp only [compactSlots, (ownsPayload_iff hi).mpr howned, if_true]
    apply hrep.destroy hk (compact_free hrep hi howned hlive)
    intro hv
    apply compact_policy hi howned hk
    by_contra hne
    exact hp hne hv
  destroy_none {s i} howns := by
    simp [compactSlots, howns]
  get {s f i} hrep hi hvoid := by
    obtain ⟨ho, howned⟩ := owner_payloadNode hi hvoid
    obtain ⟨k, hk⟩ := compact_index ho howned
    exact hrep.get hk
  set {s f i} v hrep hi hvoid hv := by
    obtain ⟨ho, howned⟩ := owner_payloadNode hi hvoid
    obtain ⟨k, hk⟩ := compact_index ho howned
    exact hrep.set hk hv v
  outHasValue {s f i} hrep hi howned hp hlive := by
    obtain ⟨k, hk⟩ := compact_index hi howned
    exact hrep.hasValue hk (compact_free hrep hi howned hlive) (compact_policy hi howned hk hp)
  outEmplace {s f i} v hrep hi howned hp hlive := by
    obtain ⟨k, hk⟩ := compact_index hi howned
    exact hrep.emplace hi ((ownsPayload_iff hi).mpr howned) hk (compact_free hrep hi howned hlive)
  outDestroy {s f i} hrep hi howned hp hlive := by
    obtain ⟨k, hk⟩ := compact_index hi howned
    exact hrep.destroy hk (compact_free hrep hi howned hlive)
      fun _ => compact_policy hi howned hk hp
  destroyActiveSlots {s f} hrep := by
    refine (forEachNode_rel (fun i hi s f hrep => ?_) hrep).1
    -- the owner record names `i` exactly if `i`'s payload is live
    cases hv : f i with
    | some v =>
        obtain ⟨-, howns⟩ := hrep.live i v hv
        obtain ⟨k, hk⟩ := compact_index hi ((ownsPayload_iff hi).mp howns)
        have howner : (s k).ownerNode = some i := by
          rw [hrep.owner rfl k, hrep.object_eq hk hv]
          rfl
        simp only [hk, howner, howns, if_true]
        exact hrep.destroy_live hk hv
    | none =>
        have hnop : ∀ k, (compactMap plan.toCompiledPlan).index i = some k →
            (s k).ownerNode ≠ some i := by
          intro k hk howner
          rw [hrep.owner rfl k, Option.map_eq_some_iff] at howner
          obtain ⟨⟨j, w⟩, ho, rfl⟩ := howner
          rw [((hrep.object k _ w).mp ho).2] at hv
          cases hv
        have hideal : (if plan.ownsPayload i then idealDestroy i f else ([], f)) = ([], f) := by
          rw [idealDestroy, hv]
          exact ite_self _
        rw [hideal]
        cases hk : (compactMap plan.toCompiledPlan).index i with
        | none => exact ⟨rfl, hrep⟩
        | some k =>
            simp only [hnop k hk, if_false]
            exact ⟨trivial, hrep⟩

/-! ## §5. The one-to-one backend. -/

namespace ValidPlan

variable {plan : ValidPlan} {i : Nat}

theorem oneToOne_index (hi : i < plan.nodeCount) (h : plan.payloadNode i) :
    ∃ k, (oneToOneMap plan.toCompiledPlan).index i = some k := by
  refine ⟨(List.range i).countP (payloadNode plan.outputStorageMode), ?_⟩
  exact (oneToOneIndex_eq plan.toPlanShape plan.outputStorageMode hi).trans (if_pos h)

/-- The owner of a typed slot is the node mapped to it. -/
theorem oneToOne_owner {k : Nat} (hi : i < plan.nodeCount)
    (hk : (oneToOneMap plan.toCompiledPlan).index i = some k) :
    oneToOnePhysicalSlotOwnerNode plan.toCompiledPlan k = some i := by
  cases hfind : oneToOnePhysicalSlotOwnerNode plan.toCompiledPlan k with
  | none =>
      have := List.find?_eq_none.mp hfind i (List.mem_range.mpr hi)
      exact absurd (beq_iff_eq.mpr hk) this
  | some j =>
      have hj : j < plan.nodeCount := List.mem_range.mp (List.mem_of_find?_eq_some hfind)
      have hjk : oneToOneIndex plan.toPlanShape plan.outputStorageMode j = some k := by
        unfold oneToOnePhysicalSlotOwnerNode at hfind
        simpa using List.find?_some hfind
      rw [oneToOneIndex_inj plan.toPlanShape plan.outputStorageMode hj hi hjk hk]

theorem oneToOne_policy {k : Nat} (hi : i < plan.nodeCount) (h : plan.payloadNode i)
    (hk : (oneToOneMap plan.toCompiledPlan).index i = some k) :
    (oneToOneMap plan.toCompiledPlan).policy k = .maybePayload
      ↔ plan.slotLogicalPolicy i = .maybePayload := by
  have hpolicy := owned_policy h
  simp only [oneToOneMap, oneToOne_owner hi hk]
  cases hp : plan.slotLogicalPolicy i <;> simp_all

theorem oneToOne_free {f : Nat → Option V} {s : Nat → Slot V} (hi : i < plan.nodeCount)
    (hrep : SlotsRep plan (oneToOneMap plan.toCompiledPlan) s f) :
    (oneToOneMap plan.toCompiledPlan).Free f i := by
  intro j k hik hjk hj
  obtain ⟨v, hv⟩ := Option.ne_none_iff_exists'.mp hj
  exact oneToOneIndex_inj plan.toPlanShape plan.outputStorageMode (hrep.live j v hv).1 hi hjk hik

end ValidPlan

/-- The slots hold the live payloads, and a `must_payload` node's live bit says
whether its payload is live. -/
structure OneToOneRep (plan : ValidPlan) (s : OneToOneState V) (f : Nat → Option V) : Prop where
  storage : SlotsRep plan (oneToOneMap plan.toCompiledPlan) s.storage f
  bits : ∀ i, plan.payloadNode i → plan.slotLogicalPolicy i ≠ .maybePayload →
    s.liveSlots i = (f i).isSome

namespace OneToOneRep

variable {plan : ValidPlan} {s : OneToOneState V} {f : Nat → Option V} {i : Nat}

theorem update_bits (h : OneToOneRep plan s f) {storage : Nat → Slot V} {o : Option V}
    (hstorage : SlotsRep plan (oneToOneMap plan.toCompiledPlan) storage (Function.update f i o)) :
    OneToOneRep plan ⟨storage, Function.update s.liveSlots i o.isSome⟩ (Function.update f i o) where
  storage := hstorage
  bits j howned hp := by
    by_cases hj : j = i
    · subst hj
      simp
    · simp only [Function.update_of_ne hj]
      exact h.bits j howned hp

/-- The sink does not touch the bits, and no bit of a `maybe_payload` node is
read. -/
theorem update_maybe (h : OneToOneRep plan s f) {storage : Nat → Slot V} {o : Option V}
    (hp : plan.slotLogicalPolicy i = .maybePayload)
    (hstorage : SlotsRep plan (oneToOneMap plan.toCompiledPlan) storage (Function.update f i o)) :
    OneToOneRep plan ⟨storage, s.liveSlots⟩ (Function.update f i o) where
  storage := hstorage
  bits j howned hpj := by
    have hj : j ≠ i := by
      intro hj
      exact hpj (hj ▸ hp)
    simp only [Function.update_of_ne hj]
    exact h.bits j howned hpj

theorem destroy (h : OneToOneRep plan s f) (hi : i < plan.nodeCount) :
    (oneToOneDestroy plan.toCompiledPlan i s).1
        = (if plan.ownsPayload i then idealDestroy i f else ([], f)).1
      ∧ OneToOneRep plan (oneToOneDestroy plan.toCompiledPlan i s).2
          (if plan.ownsPayload i then idealDestroy i f else ([], f)).2 := by
  by_cases howns : plan.ownsPayload i
  · have howned := (ownsPayload_iff hi).mp howns
    obtain ⟨k, hk⟩ := oneToOne_index hi howned
    have hfree := oneToOne_free hi h.storage
    -- either way the code asks whether the payload is live
    have harmed : (if plan.slotLogicalPolicy i = .maybePayload then
        (oneToOneMap plan.toCompiledPlan).hasValue i s.storage else s.liveSlots i)
        = (f i).isSome := by
      split
      · next hp =>
          exact h.storage.hasValue hk hfree ((oneToOne_policy hi howned hk).mpr hp)
      · next hp => exact h.bits i howned hp
    simp only [oneToOneDestroy, howns, if_true, harmed]
    cases hv : f i with
    | none =>
        have hf : Function.update f i none = f := by
          rw [← hv, Function.update_eq_self]
        simp only [idealDestroy, hv, Option.isSome_none, Bool.false_eq_true, if_false]
        refine ⟨trivial, ?_⟩
        have := h.update_bits (i := i) (o := none) (hf ▸ h.storage)
        rwa [hf] at this
    | some v =>
        obtain ⟨hevents, hrep⟩ := h.storage.destroy_live hk hv
        simp only [Option.isSome_some, if_true]
        refine ⟨hevents, ?_⟩
        simp only [idealDestroy, hv] at hrep ⊢
        exact h.update_bits hrep
  · simp only [oneToOneDestroy, howns]
    exact ⟨rfl, h⟩

end OneToOneRep

/-- **The one-to-one backend.** -/
theorem oneToOne_refines (plan : ValidPlan) :
    Refines plan (oneToOneSlots plan.toCompiledPlan V) (OneToOneRep plan) where
  initial := ⟨.initial, fun _ _ _ => rfl⟩
  hasValue {s f i} hrep hi howned hp hlive := by
    obtain ⟨k, hk⟩ := oneToOne_index hi howned
    obtain ⟨hvoid, howner⟩ := owner_of_payloadNode hi howned
    simp only [oneToOneSlots, slotHasValueImpl, hvoid, howner, hp, Bool.false_eq_true, if_false,
      if_true]
    exact hrep.storage.hasValue hk (oneToOne_free hi hrep.storage)
      ((oneToOne_policy hi howned hk).mpr hp)
  emplace {s f i} v hrep hi howned hlive := by
    obtain ⟨k, hk⟩ := oneToOne_index hi howned
    obtain ⟨hevents, hstorage⟩ := hrep.storage.emplace (v := v) hi
      ((ownsPayload_iff hi).mpr howned) hk (oneToOne_free hi hrep.storage)
    exact ⟨hevents, hrep.update_bits hstorage⟩
  destroy {s f i} hrep hi howned hlive hp := by
    have := hrep.destroy hi
    rwa [if_pos ((ownsPayload_iff hi).mpr howned)] at this
  destroy_none {s i} howns := by
    simp [oneToOneSlots, oneToOneDestroy, howns]
  get {s f i} hrep hi hvoid := by
    obtain ⟨ho, howned⟩ := owner_payloadNode hi hvoid
    obtain ⟨k, hk⟩ := oneToOne_index ho howned
    exact hrep.storage.get hk
  set {s f i} v hrep hi hvoid hv := by
    obtain ⟨ho, howned⟩ := owner_payloadNode hi hvoid
    obtain ⟨k, hk⟩ := oneToOne_index ho howned
    refine ⟨hrep.storage.set hk hv v, fun j hj hp => ?_⟩
    -- assigning does not touch the live bits, nor which slots are live
    show s.liveSlots j = _
    rw [hrep.bits j hj hp]
    simp only [idealSlots]
    by_cases hjo : j = plan.canonicalOutputOwnerNode i
    · subst hjo
      rw [Function.update_self, Option.isSome_map]
    · rw [Function.update_of_ne hjo]
  outHasValue {s f i} hrep hi howned hp hlive := by
    obtain ⟨k, hk⟩ := oneToOne_index hi howned
    exact hrep.storage.hasValue hk (oneToOne_free hi hrep.storage)
      ((oneToOne_policy hi howned hk).mpr hp)
  outEmplace {s f i} v hrep hi howned hp hlive := by
    obtain ⟨k, hk⟩ := oneToOne_index hi howned
    obtain ⟨hevents, hstorage⟩ := hrep.storage.emplace (v := v) hi
      ((ownsPayload_iff hi).mpr howned) hk (oneToOne_free hi hrep.storage)
    exact ⟨hevents, hrep.update_maybe hp hstorage⟩
  outDestroy {s f i} hrep hi howned hp hlive := by
    obtain ⟨k, hk⟩ := oneToOne_index hi howned
    obtain ⟨hevents, hstorage⟩ := hrep.storage.destroy hk (oneToOne_free hi hrep.storage)
      fun _ => (oneToOne_policy hi howned hk).mpr hp
    refine ⟨hevents, ?_⟩
    simp only [oneToOneSlots, idealDestroy] at hstorage ⊢
    cases hv : f i with
    | none =>
        rw [hv] at hstorage
        exact ⟨hstorage, hrep.bits⟩
    | some v =>
        rw [hv] at hstorage
        exact hrep.update_maybe hp hstorage
  destroyActiveSlots {s f} hrep := by
    refine (forEachNode_rel (fun i hi s f hrep => ?_) hrep).1
    exact OneToOneRep.destroy hrep hi

/-! ## §6. Layout policies. -/

/-- `slot_layout_policy`. -/
inductive SlotLayoutPolicy where
  | oneToOne
  | serialDfsCompact
  deriving Repr, DecidableEq

namespace SlotLayoutPolicy

/-- The state of `plan_exec_slots<Plan, LayoutPolicy>`. -/
abbrev State (V : Type) : SlotLayoutPolicy → Type
  | .oneToOne => OneToOneState V
  | .serialDfsCompact => Nat → Slot V

/-- `plan_exec_slots<Plan, LayoutPolicy>`. -/
def slots (plan : CompiledPlan) : (layout : SlotLayoutPolicy) → SlotsApi V (layout.State V)
  | .oneToOne => oneToOneSlots plan V
  | .serialDfsCompact => compactSlots plan V

/-- The slots hold the live payloads. -/
def Rep (plan : ValidPlan) : (layout : SlotLayoutPolicy) → layout.State V →
    (Nat → Option V) → Prop
  | .oneToOne => OneToOneRep plan
  | .serialDfsCompact => SlotsRep plan (compactMap plan.toCompiledPlan)

/-- **Every layout refines the ideal one.** -/
theorem refines (plan : ValidPlan) : ∀ layout : SlotLayoutPolicy,
    Refines plan (layout.slots plan.toCompiledPlan : SlotsApi V _) (layout.Rep plan)
  | .oneToOne => oneToOne_refines plan
  | .serialDfsCompact => compact_refines plan

/-- Only owned nodes have payloads. -/
theorem payloadNode_of_live {plan : ValidPlan} : ∀ {layout : SlotLayoutPolicy}
    {s : layout.State V} {f : Nat → Option V}, layout.Rep plan s f →
    ∀ j, f j ≠ none → plan.payloadNode j
  | .oneToOne, _, _, h, j, hj => h.storage.payloadNode_of_live j hj
  | .serialDfsCompact, _, _, h, j, hj => SlotsRep.payloadNode_of_live h j hj

end SlotLayoutPolicy

end YOrch
