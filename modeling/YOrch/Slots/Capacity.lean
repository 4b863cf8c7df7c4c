/-
  YOrch.Slots.Capacity — the physical storage computed for the slots.

  A layout maps owned nodes to slots; three folds over all nodes then give each
  slot a size, an alignment and a policy.  `plan_slot_layout` is modelled for
  both layout policies, and:

    • `slotLayout_adequate` — every owned node's slot is large enough and aligned
      for its output, and a slot's policy is `must_payload` exactly if that of
      every node mapped to it is, whatever the order of the nodes; a typed slot
      of the one-to-one layout is its owner's.
-/
import YOrch.Slots.Refinement

namespace YOrch

open Library

/-! ## §1. The computed storage. -/

/-- `sizeof` and `alignof`.  Neither is applied to `void`. -/
structure TypeLayout where
  sizeof : CppType → Nat
  alignof : CppType → Nat
  alignof_pow : ∀ t, ∃ e, alignof t = 2 ^ e

/-- `payload_node_count_v`. -/
def CompiledPlan.payloadNodeCount (plan : CompiledPlan) : Nat :=
  (List.range plan.nodeCount).foldl
    (fun count node => if plan.payloadNode node then count + 1 else count) 0

/-- The fold of `make_physical_slot_sizes` and `make_physical_slot_alignments`:
nodes without an output are skipped, whatever slot they have. -/
def makePhysicalSlotMaxima (plan : CompiledPlan) (measure : CppType → Nat)
    (indices : List (Option Nat)) (physicalSlotCount : Nat) : List Nat :=
  (List.range plan.nodeCount).foldl
    (fun values node =>
      if (plan.outputType node).isVoid then values
      else
        -- `no_physical_slot`: nothing to update
        match indices.getD node none with
        | none => values
        | some slot =>
            values.set slot (if values.getD slot 0 < measure (plan.outputType node) then
              measure (plan.outputType node) else values.getD slot 0))
    (List.replicate physicalSlotCount 0)

/-- `plan_slot_layout<Plan, LayoutPolicy>`. -/
structure PlanSlotLayout where
  physicalSlotIndices : List (Option Nat)
  physicalSlotCount : Nat
  physicalSlotSizes : List Nat
  physicalSlotAlignments : List Nat
  physicalSlotPolicies : List SlotPhysicalPolicy

section Layout

variable (types : TypeLayout) (plan : CompiledPlan)

/-- `make_physical_slot_sizes`. -/
def makePhysicalSlotSizes (indices : List (Option Nat)) (physicalSlotCount : Nat) : List Nat :=
  makePhysicalSlotMaxima plan types.sizeof indices physicalSlotCount

/-- `make_physical_slot_alignments`. -/
def makePhysicalSlotAlignments (indices : List (Option Nat)) (physicalSlotCount : Nat) :
    List Nat :=
  makePhysicalSlotMaxima plan types.alignof indices physicalSlotCount

/-- The members of `plan_slot_layout` that follow from its slot indices. -/
def planSlotLayoutOf (indices : List (Option Nat)) (physicalSlotCount : Nat) : PlanSlotLayout where
  physicalSlotIndices := indices
  physicalSlotCount := physicalSlotCount
  physicalSlotSizes := makePhysicalSlotSizes types plan indices physicalSlotCount
  physicalSlotAlignments := makePhysicalSlotAlignments types plan indices physicalSlotCount
  physicalSlotPolicies := makePhysicalSlotPolicies plan.toPlanShape indices
    plan.slotLogicalPolicy physicalSlotCount

/-- `plan_slot_layout`, for either layout policy. -/
def planSlotLayout : SlotLayoutPolicy → PlanSlotLayout
  | .oneToOne =>
      planSlotLayoutOf types plan
        (makeOneToOnePhysicalSlotIndices plan.toPlanShape plan.outputStorageMode)
        plan.payloadNodeCount
  | .serialDfsCompact =>
      let layout := makeSerialDfsCompactSlotLayout plan.toPlanShape plan.outputStorageMode
      planSlotLayoutOf types plan layout.physicalSlotIndices layout.physicalSlotCount

end Layout

/-- The template arguments of an `erased_slot`. -/
structure ErasedSlot where
  size : Nat
  align : Nat
  policy : SlotPhysicalPolicy
  deriving Repr, DecidableEq

/-- `plan_erased_slots_tuple_t`: one slot for each physical index. -/
def PlanSlotLayout.erasedSlots (layout : PlanSlotLayout) : List ErasedSlot :=
  table layout.physicalSlotCount fun k =>
    ⟨layout.physicalSlotSizes.getD k 0, layout.physicalSlotAlignments.getD k 0,
      layout.physicalSlotPolicies.getD k .none⟩

/-- `physical_slot_index<I>`. -/
def PlanSlotLayout.physicalSlotIndex (layout : PlanSlotLayout) (n : Nat) : Option Nat :=
  layout.physicalSlotIndices.getD n none

/-- The template arguments of a `typed_slot`. -/
structure TypedSlot where
  type : CppType
  policy : SlotLogicalPolicy
  deriving Repr, DecidableEq

/-- `plan_typed_slots_tuple_t`.  A slot without an owner has no type. -/
def planTypedSlots (plan : CompiledPlan) : List (Option TypedSlot) :=
  table plan.payloadNodeCount fun k => (oneToOnePhysicalSlotOwnerNode plan k).map fun n =>
    ⟨plan.outputType n, plan.slotLogicalPolicy n⟩

/-! ## §2. Slot indices. -/

/-- The owned nodes are mapped onto the slots. -/
structure MapsOwned (plan : CompiledPlan) (layout : PlanSlotLayout) : Prop where
  owned : ∀ n < plan.nodeCount, plan.payloadNode n →
    ∃ k < layout.physicalSlotCount, layout.physicalSlotIndex n = some k
  mapped : ∀ n < plan.nodeCount, ∀ k, layout.physicalSlotIndex n = some k → plan.payloadNode n
  onto : ∀ k < layout.physicalSlotCount,
    ∃ n < plan.nodeCount, layout.physicalSlotIndex n = some k

section Indices

variable (types : TypeLayout) (plan : CompiledPlan)

theorem payloadNodeCount_eq :
    plan.payloadNodeCount = (List.range plan.nodeCount).countP plan.payloadNode := by
  have hcount : ∀ (nodes : List Nat) (start : Nat),
      nodes.foldl (fun count node => if plan.payloadNode node then count + 1 else count) start
        = start + nodes.countP plan.payloadNode := by
    intro nodes
    induction nodes with
    | nil => exact fun start => rfl
    | cons node nodes ih =>
        intro start
        rw [List.foldl_cons, ih, List.countP_cons]
        split <;> omega
  rw [CompiledPlan.payloadNodeCount, hcount, Nat.zero_add]

theorem oneToOne_mapsOwned : MapsOwned plan (planSlotLayout types plan .oneToOne) := by
  have hindex : ∀ n < plan.nodeCount, oneToOneIndex plan.toPlanShape plan.outputStorageMode n
      = if plan.payloadNode n then some ((List.range n).countP plan.payloadNode) else none :=
    fun n hn => oneToOneIndex_eq plan.toPlanShape plan.outputStorageMode hn
  constructor
  case owned =>
    intro n hn ho
    refine ⟨(List.range n).countP plan.payloadNode, ?_, (hindex n hn).trans (if_pos ho)⟩
    show _ < plan.payloadNodeCount
    rw [payloadNodeCount_eq]
    exact countP_range_lt hn ho
  case mapped =>
    intro n hn k hk
    by_contra ho
    have hnone := (hindex n hn).symm.trans hk
    rw [if_neg ho] at hnone
    cases hnone
  case onto =>
    intro k hk
    have hk : k < (List.range plan.nodeCount).countP plan.payloadNode := by
      rw [← payloadNodeCount_eq]
      exact hk
    -- an owned node's index is the number of owned nodes before it
    obtain ⟨n, hn, ho, hcount⟩ := exists_countP_range hk
    exact ⟨n, hn, (hindex n hn).trans (by rw [if_pos ho, hcount])⟩

/-- On the way down a path the owned nodes are counted one by one. -/
theorem exists_ownedOnPath {plan : PlanShape} {mode : Nat → OutputStorageMode} :
    ∀ l, l < plan.nodeCount → ∀ k < ownedOnPath plan mode l,
      ∃ n < plan.nodeCount, payloadNode mode n = true ∧ ownedOnPath plan mode n = k + 1 := by
  refine plan.node_induction ?_ fun p i hchild ih k hk => ?_
  · intro k hk
    rw [ownedOnPath_zero] at hk
    split at hk
    · next ho =>
        exact ⟨0, plan.nodeCount_pos, ho, by rw [ownedOnPath_zero, if_pos ho]; omega⟩
    · omega
  · -- the parent's path passes the depth already, or this node is the next on it
    by_cases hlt : k < ownedOnPath plan mode p
    · exact ih k hlt
    · rw [ownedOnPath_child plan mode hchild] at hk
      split at hk
      · next ho =>
          exact ⟨i, hchild.2.1, ho, by rw [ownedOnPath_child plan mode hchild, if_pos ho]; omega⟩
      · omega

theorem compact_mapsOwned : MapsOwned plan (planSlotLayout types plan .serialDfsCompact) := by
  have hindex : ∀ n < plan.nodeCount, compactIndex plan.toPlanShape plan.outputStorageMode n
      = if plan.payloadNode n then
          some (ownedOnPath plan.toPlanShape plan.outputStorageMode n - 1) else none :=
    fun n hn => compactIndex_eq plan.toPlanShape plan.outputStorageMode hn
  constructor
  case owned =>
    intro n hn ho
    exact compactIndex_lt plan.toPlanShape plan.outputStorageMode hn ho
  case mapped =>
    intro n hn k hk
    by_contra ho
    have hnone := (hindex n hn).symm.trans hk
    rw [if_neg ho] at hnone
    cases hnone
  case onto =>
    intro k hk
    -- some node is as deep as there are slots, and its path passes every depth
    rcases (compactUpTo_all plan.toPlanShape plan.outputStorageMode).attained with hzero | hmax
    · have hk' : k < 0 := hzero ▸ hk
      exact absurd hk' (Nat.not_lt_zero k)
    · obtain ⟨l, hl, hdepth⟩ := hmax
      have hk' : k < ownedOnPath plan.toPlanShape plan.outputStorageMode l := hdepth ▸ hk
      obtain ⟨n, hn, ho, hcount⟩ := exists_ownedOnPath l hl k hk'
      refine ⟨n, hn, (hindex n hn).trans ?_⟩
      rw [if_pos (show plan.payloadNode n = true from ho), hcount]
      rfl

end Indices

/-! ## §3. Sizes and alignments. -/

section Maxima

variable {plan : CompiledPlan} {indices : List (Option Nat)} {measure : CppType → Nat}

/-- Each slot holds the maximum over the nodes mapped to it. -/
theorem makePhysicalSlotMaxima_eq (count : Nat) :
    makePhysicalSlotMaxima plan measure indices count = table count fun k =>
      ((List.range plan.nodeCount).filter fun n =>
          (if (plan.outputType n).isVoid then none else indices.getD n none) == some k).foldl
        (fun value n => if value < measure (plan.outputType n) then measure (plan.outputType n)
          else value) 0 := by
  rw [← accumulate_table (d := 0), ← replicate_eq_table, makePhysicalSlotMaxima, accumulate]
  congr 1
  funext values node
  cases (plan.outputType node).isVoid <;> rfl

/-- A slot's value bounds that of every node mapped to it and is one of them. -/
theorem maximum_spec {count n k : Nat} (hn : n < plan.nodeCount)
    (hvoid : (plan.outputType n).isVoid = false) (hindex : indices.getD n none = some k)
    (hk : k < count) (hpos : 0 < measure (plan.outputType n)) :
    ∃ m, measure (plan.outputType n) ≤ measure (plan.outputType m)
      ∧ (makePhysicalSlotMaxima plan measure indices count).getD k 0
        = measure (plan.outputType m) := by
  rw [makePhysicalSlotMaxima_eq, table_getD _ _ hk]
  obtain ⟨-, hbound, hattained⟩ := foldl_max_spec (fun n => measure (plan.outputType n))
    ((List.range plan.nodeCount).filter fun n =>
      (if (plan.outputType n).isVoid then none else indices.getD n none) == some k) 0
  have hmem : n ∈ (List.range plan.nodeCount).filter fun n =>
      (if (plan.outputType n).isVoid then none else indices.getD n none) == some k := by
    rw [List.mem_filter, List.mem_range, hvoid, if_neg Bool.false_ne_true, hindex]
    exact ⟨hn, BEq.rfl⟩
  have hle := hbound n hmem
  -- the fold cannot end at its start, since `n` already exceeds that
  rcases hattained with hzero | ⟨m, -, hm⟩
  · omega
  · exact ⟨m, hm ▸ hle, hm⟩

/-- Of two alignments the smaller divides the larger. -/
theorem TypeLayout.alignof_dvd (types : TypeLayout) {t u : CppType}
    (h : types.alignof t ≤ types.alignof u) : types.alignof t ∣ types.alignof u := by
  obtain ⟨a, ha⟩ := types.alignof_pow t
  obtain ⟨b, hb⟩ := types.alignof_pow u
  rw [ha, hb] at h ⊢
  exact Nat.pow_dvd_pow 2 ((Nat.pow_le_pow_iff_right (Nat.lt_succ_self 1)).mp h)

end Maxima

/-! ## §4. Adequacy. -/

/-- `make_physical_slot_policies`, with the nodes taken in some order. -/
def joinPhysicalSlotPolicies (order : List Nat) (indices : List (Option Nat))
    (logical : Nat → SlotLogicalPolicy) (physicalSlotCount : Nat) : List SlotPhysicalPolicy :=
  accumulate (indices.getD · none) (fun policy n => joinSlotPhysicalPolicy policy (logical n))
    .none (List.replicate physicalSlotCount .none) order

/-- The storage of a layout serves every node mapped to it. -/
structure Adequate (types : TypeLayout) (plan : CompiledPlan) (layout : PlanSlotLayout) :
    Prop where
  -- a node with a `void` output has no `sizeof`
  storage : ∀ n < plan.nodeCount, plan.outputStorageMode n = .owned →
    (plan.outputType n).isVoid = false → ∃ k slot, layout.physicalSlotIndex n = some k
      ∧ layout.erasedSlots[k]? = some slot ∧ types.sizeof (plan.outputType n) ≤ slot.size
      ∧ types.alignof (plan.outputType n) ∣ slot.align ∧ ∃ e, slot.align = 2 ^ e
  policy : ∀ k slot, layout.erasedSlots[k]? = some slot →
    (slot.policy = .mustPayload ↔ ∀ n < plan.nodeCount, layout.physicalSlotIndex n = some k →
      plan.slotLogicalPolicy n = .mustPayload)
    ∧ (slot.policy ≠ .mustPayload → slot.policy = .maybePayload)
  order : ∀ order, order.Perm (List.range plan.nodeCount) →
    joinPhysicalSlotPolicies order layout.physicalSlotIndices plan.slotLogicalPolicy
      layout.physicalSlotCount = layout.physicalSlotPolicies

section Adequacy

variable {types : TypeLayout} {plan : CompiledPlan} {indices : List (Option Nat)} {count : Nat}

theorem erasedSlots_getElem? {layout : PlanSlotLayout} {k : Nat} {slot : ErasedSlot} :
    layout.erasedSlots[k]? = some slot ↔ k < layout.physicalSlotCount
      ∧ slot = ⟨layout.physicalSlotSizes.getD k 0, layout.physicalSlotAlignments.getD k 0,
        layout.physicalSlotPolicies.getD k .none⟩ := by
  by_cases hk : k < layout.physicalSlotCount
  · rw [PlanSlotLayout.erasedSlots, table_getElem? _ hk, Option.some.injEq, eq_comm]
    exact ⟨fun h => ⟨hk, h⟩, And.right⟩
  · rw [List.getElem?_eq_none (by simpa [PlanSlotLayout.erasedSlots] using hk)]
    exact ⟨nofun, fun h => absurd h.1 hk⟩

/-- The policy of a slot with owned nodes, joined over these. -/
theorem slotPolicy_iff {k : Nat} (hk : k < count)
    (hmapped : ∀ n < plan.nodeCount, indices.getD n none = some k → plan.payloadNode n)
    (honto : ∃ n < plan.nodeCount, indices.getD n none = some k) :
    let policy := (makePhysicalSlotPolicies plan.toPlanShape indices plan.slotLogicalPolicy
      count).getD k .none
    (policy = .mustPayload ↔ ∀ n < plan.nodeCount, indices.getD n none = some k →
        plan.slotLogicalPolicy n = .mustPayload)
      ∧ (policy ≠ .mustPayload → policy = .maybePayload) := by
  intro policy
  have hmaybe : policy = .maybePayload ↔ ∃ n < plan.nodeCount, indices.getD n none = some k
      ∧ plan.slotLogicalPolicy n = .maybePayload := physicalPolicy_maybe_iff plan.toPlanShape hk
  -- an owned node always contributes, and every slot has one
  have hnone : policy ≠ .none := by
    obtain ⟨n, hn, hindex⟩ := honto
    intro h
    have hfold : policy = _ := (congrArg (·.getD k .none)
      (makePhysicalSlotPolicies_eq plan.toPlanShape indices count)).trans (table_getD _ _ hk)
    have hall := (foldl_join_none_iff.mp (hfold.symm.trans h)).2 n
      (List.mem_filter.mpr ⟨List.mem_range.mpr hn, by simp only [hindex, BEq.rfl]⟩)
    exact CompiledPlan.owned_policy (hmapped n hn hindex) hall
  have hcases : policy = .mustPayload ↔ policy ≠ .maybePayload := by
    cases hp : policy with
    | none => exact absurd hp hnone
    | _ => simp
  refine ⟨?_, fun h => not_not.mp fun hm => h (hcases.mpr hm)⟩
  rw [hcases, ne_eq, hmaybe]
  constructor
  · intro h n hn hindex
    cases hl : plan.slotLogicalPolicy n with
    | none => exact absurd hl (CompiledPlan.owned_policy (hmapped n hn hindex))
    | maybePayload => exact absurd ⟨n, hn, hindex, hl⟩ h
    | mustPayload => rfl
  · rintro h ⟨n, hn, hindex, hl⟩
    rw [h n hn hindex] at hl
    cases hl

/-- A layout that maps the owned nodes onto its slots is adequate. -/
theorem MapsOwned.adequate (h : MapsOwned plan (planSlotLayoutOf types plan indices count)) :
    Adequate types plan (planSlotLayoutOf types plan indices count) := by
  constructor
  case storage =>
    intro n hn ho hvoid
    obtain ⟨k, hk, hindex⟩ : ∃ k < count, indices.getD n none = some k :=
      h.owned n hn (beq_iff_eq.mpr ho)
    refine ⟨k, _, hindex, erasedSlots_getElem?.mpr ⟨hk, rfl⟩, ?_, ?_⟩
    · show _ ≤ (makePhysicalSlotMaxima plan types.sizeof indices count).getD k 0
      -- a size of zero would ask for nothing
      rcases Nat.eq_zero_or_pos (types.sizeof (plan.outputType n)) with hzero | hpos
      · omega
      · obtain ⟨m, hle, hm⟩ := maximum_spec hn hvoid hindex hk hpos
        rwa [hm]
    · obtain ⟨e, he⟩ := types.alignof_pow (plan.outputType n)
      have hpos : 0 < types.alignof (plan.outputType n) := he ▸ Nat.two_pow_pos e
      obtain ⟨m, hle, hm⟩ := maximum_spec hn hvoid hindex hk hpos
      show _ ∣ (makePhysicalSlotMaxima plan types.alignof indices count).getD k 0
        ∧ ∃ e, (makePhysicalSlotMaxima plan types.alignof indices count).getD k 0 = 2 ^ e
      rw [hm]
      exact ⟨types.alignof_dvd hle, types.alignof_pow _⟩
  case policy =>
    intro k slot hslot
    obtain ⟨hk, rfl⟩ := erasedSlots_getElem?.mp hslot
    exact slotPolicy_iff hk (fun n hn => h.mapped n hn k) (h.onto k hk)
  case order =>
    intro order horder
    -- two joins at one slot commute, so the fold does not see the order of the nodes
    show joinPhysicalSlotPolicies order indices plan.slotLogicalPolicy count
      = joinPhysicalSlotPolicies (List.range plan.nodeCount) indices plan.slotLogicalPolicy count
    rw [joinPhysicalSlotPolicies, joinPhysicalSlotPolicies, replicate_eq_table]
    exact accumulate_perm _ (fun policy m n => join_comm policy _ _) horder

/-- The owner search inverts the node-to-slot map. -/
theorem oneToOneOwner_iff {k n : Nat} : oneToOnePhysicalSlotOwnerNode plan k = some n ↔
    n < plan.nodeCount
      ∧ oneToOneIndex plan.toPlanShape plan.outputStorageMode n = some k := by
  have hfound : ∀ {m}, oneToOnePhysicalSlotOwnerNode plan k = some m → m < plan.nodeCount
      ∧ oneToOneIndex plan.toPlanShape plan.outputStorageMode m = some k := by
    intro m h
    have hm := List.find?_some (p := fun n =>
      oneToOneIndex plan.toPlanShape plan.outputStorageMode n == some k) h
    exact ⟨List.mem_range.mp (List.mem_of_find?_eq_some h), beq_iff_eq.mp hm⟩
  constructor
  · exact hfound
  · intro h
    obtain ⟨hn, hindex⟩ := h
    -- the first node with slot `k` is the only one
    cases hfind : oneToOnePhysicalSlotOwnerNode plan k with
    | none =>
        have hno := List.find?_eq_none.mp hfind n (List.mem_range.mpr hn)
        exact absurd (beq_iff_eq.mpr hindex) hno
    | some m =>
        obtain ⟨hm, hmk⟩ := hfound hfind
        rw [oneToOneIndex_inj plan.toPlanShape plan.outputStorageMode hm hn hmk hindex]

/-- **The storage computed for the slots is adequate, in both layouts.** -/
theorem slotLayout_adequate (types : TypeLayout) (plan : CompiledPlan) :
    (∀ policy : SlotLayoutPolicy, Adequate types plan (planSlotLayout types plan policy))
    ∧ (∀ k n, oneToOnePhysicalSlotOwnerNode plan k = some n ↔ n < plan.nodeCount
        ∧ (planSlotLayout types plan .oneToOne).physicalSlotIndex n = some k)
    ∧ (∀ k < (planSlotLayout types plan .oneToOne).physicalSlotCount,
        ∃ n, oneToOnePhysicalSlotOwnerNode plan k = some n)
    ∧ ∀ n < plan.nodeCount, plan.outputStorageMode n = .owned →
        ∃ k, (planSlotLayout types plan .oneToOne).physicalSlotIndex n = some k
          ∧ (planTypedSlots plan)[k]?
            = some (some ⟨plan.outputType n, plan.slotLogicalPolicy n⟩) := by
  have hmaps := oneToOne_mapsOwned types plan
  refine ⟨fun policy => ?_, fun k n => oneToOneOwner_iff, fun k hk => ?_, fun n hn ho => ?_⟩
  · cases policy with
    | oneToOne => exact hmaps.adequate
    | serialDfsCompact => exact (compact_mapsOwned types plan).adequate
  · obtain ⟨n, hn, hindex⟩ := hmaps.onto k hk
    exact ⟨n, oneToOneOwner_iff.mpr ⟨hn, hindex⟩⟩
  · obtain ⟨k, hk, hindex⟩ := hmaps.owned n hn (beq_iff_eq.mpr ho)
    refine ⟨k, hindex, ?_⟩
    rw [planTypedSlots, table_getElem? _ (show k < plan.payloadNodeCount from hk),
      oneToOneOwner_iff.mpr ⟨hn, hindex⟩]
    rfl

end Adequacy

end YOrch
