/-
  YOrch.Slots.Layout — which physical slot each node's payload goes to.

  Two layouts map the nodes with owned storage to physical slots.  The
  one-to-one layout gives each its own; the compact layout reuses a slot for all
  nodes with the same number of owned nodes above them.  Proved here:

    • `payloadDepth_eq` — the compact pass counts the owned nodes on each path,
    • `compactLayout_sound_optimal` — it keeps the owned nodes of every path
      apart and uses no more slots than any assignment that does,
    • `oneToOneIndex_inj` — the one-to-one layout keeps all nodes apart,
    • `physicalPolicy_maybe_iff` — a physical slot carries an engagement flag
      exactly if some node mapped to it may leave it empty.
-/
import YOrch.Plan.Paths
import Mathlib.Data.List.Perm.Subperm

namespace YOrch

open Library

/-! ## §1. Policies. -/

/-- `slot_logical_policy`. -/
inductive SlotLogicalPolicy where
  | none
  | maybePayload
  | mustPayload
  deriving Repr, DecidableEq

/-- `slot_physical_policy`. -/
inductive SlotPhysicalPolicy where
  | none
  | maybePayload
  | mustPayload
  deriving Repr, DecidableEq

/-- `output_storage_mode`. -/
inductive OutputStorageMode where
  | none
  | owned
  | forwardedPrev
  deriving Repr, DecidableEq

/-- `join_slot_physical_policy`. -/
def joinSlotPhysicalPolicy (left : SlotPhysicalPolicy) (right : SlotLogicalPolicy) :
    SlotPhysicalPolicy :=
  if right = .none then
    left
  else if left = .none then
    if right = .mustPayload then .mustPayload else .maybePayload
  else if left = .maybePayload ∨ right = .maybePayload then
    .maybePayload
  else
    .mustPayload

/-! ## §2. Layouts. -/

section Layouts

variable (plan : PlanShape) (mode : Nat → OutputStorageMode)

/-- `payload_node_array_v`. -/
def payloadNode (n : Nat) : Bool := mode n == .owned

/-- `make_one_to_one_physical_slot_indices`: the sentinel `no_physical_slot` is
`none`. -/
def makeOneToOnePhysicalSlotIndices : List (Option Nat) :=
  ((List.range plan.nodeCount).foldl
    (fun (indices, next) node =>
      if payloadNode mode node then (indices.set node (some next), next + 1)
      else (indices, next))
    (List.replicate plan.nodeCount none, 0)).1

/-- `compact_slot_index_layout`. -/
structure CompactSlotIndexLayout where
  physicalSlotIndices : List (Option Nat)
  payloadDepths : List Nat
  physicalSlotCount : Nat
  deriving Repr, DecidableEq

/-- One iteration of `make_serial_dfs_compact_slot_layout`. -/
def compactSlotStep (layout : CompactSlotIndexLayout) (node : Nat) : CompactSlotIndexLayout :=
  let parent := plan.parentIndex node
  let parentDepth := if parent = plan.noParent then 0 else layout.payloadDepths.getD parent 0
  let depth := parentDepth + (if payloadNode mode node then 1 else 0)
  { payloadDepths := layout.payloadDepths.set node depth
    physicalSlotIndices :=
      if payloadNode mode node then layout.physicalSlotIndices.set node (some (depth - 1))
      else layout.physicalSlotIndices
    physicalSlotCount :=
      if payloadNode mode node && layout.physicalSlotCount < depth then depth
      else layout.physicalSlotCount }

/-- `make_serial_dfs_compact_slot_layout`. -/
def makeSerialDfsCompactSlotLayout : CompactSlotIndexLayout :=
  (List.range plan.nodeCount).foldl (compactSlotStep plan mode)
    ⟨List.replicate plan.nodeCount none, List.replicate plan.nodeCount 0, 0⟩

/-- `make_physical_slot_policies`: each node joins its logical policy into the
policy of the slot it is mapped to. -/
def makePhysicalSlotPolicies (indices : List (Option Nat)) (logical : Nat → SlotLogicalPolicy)
    (physicalSlotCount : Nat) : List SlotPhysicalPolicy :=
  (List.range plan.nodeCount).foldl
    (fun policies node =>
      match indices.getD node none with
      | none => policies
      | some k => policies.set k (joinSlotPhysicalPolicy (policies.getD k .none) (logical node)))
    (List.replicate physicalSlotCount .none)

end Layouts

/-! ## §3. The compact layout. -/

section Compact

variable (plan : PlanShape) (mode : Nat → OutputStorageMode)

/-- Number of owned nodes on the path to `n`, `n` included. -/
def ownedOnPath (n : Nat) : Nat := (plan.path n).countP (payloadNode mode)

theorem ownedOnPath_zero : ownedOnPath plan mode 0 = if payloadNode mode 0 then 1 else 0 := by
  simp [ownedOnPath, List.countP_cons]

theorem ownedOnPath_child {p n : Nat} (h : plan.IsParent p n) :
    ownedOnPath plan mode n
      = ownedOnPath plan mode p + if payloadNode mode n then 1 else 0 := by
  rw [ownedOnPath, h.path, List.countP_cons, ownedOnPath]

/-- What the pass has computed once it reaches node `k`. -/
structure CompactUpTo (k : Nat) (layout : CompactSlotIndexLayout) : Prop where
  depths : layout.payloadDepths = table plan.nodeCount fun n =>
    if n < k then ownedOnPath plan mode n else 0
  indices : layout.physicalSlotIndices = table plan.nodeCount fun n =>
    if n < k ∧ payloadNode mode n then some (ownedOnPath plan mode n - 1) else none
  bound : ∀ n < k, ownedOnPath plan mode n ≤ layout.physicalSlotCount
  attained : layout.physicalSlotCount = 0 ∨
    ∃ n < k, ownedOnPath plan mode n = layout.physicalSlotCount

theorem compactUpTo_step {k : Nat} {layout : CompactSlotIndexLayout} (hk : k < plan.nodeCount)
    (h : CompactUpTo plan mode k layout) :
    CompactUpTo plan mode (k + 1) (compactSlotStep plan mode layout k) := by
  obtain ⟨hdepths, hindices, hbound, hattained⟩ := h
  -- the parent comes earlier, so its depth is already in the array
  have hdepth : (if plan.parentIndex k = plan.noParent then 0
        else layout.payloadDepths.getD (plan.parentIndex k) 0)
      + (if payloadNode mode k then 1 else 0) = ownedOnPath plan mode k := by
    rcases Nat.eq_zero_or_pos k with rfl | hpos
    · rw [if_pos plan.parentIndex_zero, ownedOnPath_zero, Nat.zero_add]
    · have hlt := plan.parentIndex_lt hpos hk
      have hne : plan.parentIndex k ≠ plan.noParent := Nat.ne_of_lt (Nat.lt_trans hlt hk)
      rw [if_neg hne, hdepths, table_getD _ _ (by omega), if_pos hlt,
        ownedOnPath_child plan mode ⟨hpos, hk, rfl⟩]
  have hparent : payloadNode mode k = false →
      ownedOnPath plan mode k ≤ layout.physicalSlotCount := by
    intro howned
    rcases Nat.eq_zero_or_pos k with rfl | hpos
    · rw [ownedOnPath_zero, howned]
      exact Nat.zero_le _
    · rw [ownedOnPath_child plan mode ⟨hpos, hk, rfl⟩, howned]
      exact hbound _ (plan.parentIndex_lt hpos hk)
  have hsplit : ∀ n, n < k + 1 ↔ n = k ∨ n < k := fun n => by omega
  -- the count grows to the new depth exactly when that is larger
  obtain ⟨count, hcount⟩ : ∃ count, (if payloadNode mode k
        && layout.physicalSlotCount < ownedOnPath plan mode k then ownedOnPath plan mode k
      else layout.physicalSlotCount) = count := ⟨_, rfl⟩
  have hgrow : layout.physicalSlotCount ≤ count ∧ ownedOnPath plan mode k ≤ count ∧
      (count = ownedOnPath plan mode k ∨ count = layout.physicalSlotCount) := by
    subst hcount
    cases howned : payloadNode mode k with
    | false => simpa using hparent howned
    | true =>
        simp only [Bool.true_and, decide_eq_true_eq]
        split <;> omega
  simp only [compactSlotStep, hdepth, hcount]
  refine ⟨?_, ?_, ?_, ?_⟩
  · rw [hdepths, set_table _ _ hk]
    refine table_congr fun n _ => ?_
    by_cases hn : n = k
    · simp [hn]
    · rw [Function.update_of_ne hn]
      simp [hsplit, hn]
  · cases howned : payloadNode mode k with
    | false =>
        rw [if_neg (by simp), hindices]
        refine table_congr fun n _ => ?_
        by_cases hn : n = k
        · simp [hn, howned]
        · simp [hsplit, hn]
    | true =>
        rw [if_pos rfl, hindices, set_table _ _ hk]
        refine table_congr fun n _ => ?_
        by_cases hn : n = k
        · simp [hn, howned]
        · rw [Function.update_of_ne hn]
          simp [hsplit, hn]
  · intro n hn
    rcases (hsplit n).mp hn with rfl | hn
    · exact hgrow.2.1
    · exact Nat.le_trans (hbound n hn) hgrow.1
  · rcases hgrow.2.2 with h | h
    · exact Or.inr ⟨k, Nat.lt_succ_self k, h.symm⟩
    · rw [← h] at hattained
      exact hattained.imp_right fun ⟨n, hn, h⟩ => ⟨n, Nat.lt_succ_of_lt hn, h⟩

theorem compactUpTo_all :
    CompactUpTo plan mode plan.nodeCount (makeSerialDfsCompactSlotLayout plan mode) := by
  have hloop : ∀ k ≤ plan.nodeCount, CompactUpTo plan mode k
      ((List.range k).foldl (compactSlotStep plan mode)
        ⟨List.replicate plan.nodeCount none, List.replicate plan.nodeCount 0, 0⟩) := by
    intro k
    induction k with
    | zero =>
        intro _
        refine ⟨?_, ?_, fun n hn => absurd hn (Nat.not_lt_zero n), Or.inl rfl⟩
        · simp [replicate_eq_table]
        · simp [replicate_eq_table]
    | succ k ih =>
        intro hk
        rw [List.range_succ, List.foldl_append]
        exact compactUpTo_step plan mode hk (ih (by omega))
  exact hloop plan.nodeCount (Nat.le_refl _)

/-- `physical_slot_index<I>` of the compact layout. -/
def compactIndex (n : Nat) : Option Nat :=
  (makeSerialDfsCompactSlotLayout plan mode).physicalSlotIndices.getD n none

theorem compactIndex_eq {n : Nat} (hn : n < plan.nodeCount) :
    compactIndex plan mode n
      = if payloadNode mode n then some (ownedOnPath plan mode n - 1) else none := by
  rw [compactIndex, (compactUpTo_all plan mode).indices, table_getD _ _ hn]
  simp [hn]

/-- **The pass counts the owned nodes on each path.** -/
theorem payloadDepth_eq {n : Nat} (hn : n < plan.nodeCount) :
    (makeSerialDfsCompactSlotLayout plan mode).payloadDepths.getD n 0
      = ownedOnPath plan mode n := by
  rw [(compactUpTo_all plan mode).depths, table_getD _ _ hn, if_pos hn]

theorem ownedOnPath_pos {n : Nat} (h : payloadNode mode n = true) :
    0 < ownedOnPath plan mode n :=
  List.countP_pos_iff.mpr ⟨n, plan.self_mem_path n, h⟩

/-- Going down a path, every owned node is one deeper. -/
theorem ownedOnPath_lt {l m n : Nat} (hl : l < plan.nodeCount) (hm : m ∈ plan.path l)
    (hn : n ∈ plan.path l) (hmn : m < n) (howned : payloadNode mode n = true) :
    ownedOnPath plan mode m < ownedOnPath plan mode n := by
  have hn' : n < plan.nodeCount := Nat.lt_of_le_of_lt (plan.mem_path_le hl hn) hl
  have hparent : plan.IsParent (plan.parentIndex n) n := ⟨by omega, hn', rfl⟩
  have hmem := plan.mem_path_of_lt hl hm hn hmn
  rw [hparent.path, List.mem_cons] at hmem
  have hsuffix := plan.path_suffix _ (Nat.lt_trans hparent.lt hn') m
    (hmem.resolve_left (Nat.ne_of_lt hmn))
  have hle : ownedOnPath plan mode m ≤ ownedOnPath plan mode (plan.parentIndex n) :=
    List.Sublist.countP_le hsuffix.sublist
  rw [ownedOnPath_child plan mode hparent, howned, if_pos rfl]
  omega

/-- Distinct owned nodes on one path have distinct compact slots. -/
theorem compactIndex_inj {l m n : Nat} (hl : l < plan.nodeCount) (hm : m ∈ plan.path l)
    (hn : n ∈ plan.path l) (hmo : payloadNode mode m = true) (hno : payloadNode mode n = true)
    (h : compactIndex plan mode m = compactIndex plan mode n) : m = n := by
  have hm' : m < plan.nodeCount := Nat.lt_of_le_of_lt (plan.mem_path_le hl hm) hl
  have hn' : n < plan.nodeCount := Nat.lt_of_le_of_lt (plan.mem_path_le hl hn) hl
  rw [compactIndex_eq plan mode hm', compactIndex_eq plan mode hn', if_pos hmo, if_pos hno,
    Option.some.injEq] at h
  have hmpos := ownedOnPath_pos plan mode hmo
  have hnpos := ownedOnPath_pos plan mode hno
  rcases Nat.lt_trichotomy m n with hlt | heq | hlt
  · have := ownedOnPath_lt plan mode hl hm hn hlt hno
    omega
  · exact heq
  · have := ownedOnPath_lt plan mode hl hn hm hlt hmo
    omega

/-- An owned node has one of the layout's slots. -/
theorem compactIndex_lt {n : Nat} (hn : n < plan.nodeCount) (ho : payloadNode mode n = true) :
    ∃ k < (makeSerialDfsCompactSlotLayout plan mode).physicalSlotCount,
      compactIndex plan mode n = some k := by
  have hpos := ownedOnPath_pos plan mode ho
  have hbound : ownedOnPath plan mode n
      ≤ (makeSerialDfsCompactSlotLayout plan mode).physicalSlotCount :=
    (compactUpTo_all plan mode).bound n hn
  refine ⟨ownedOnPath plan mode n - 1, by omega, ?_⟩
  rw [compactIndex_eq plan mode hn, if_pos ho]

/-- An assignment that keeps the owned nodes of every path apart. -/
structure KeepsApart (slot : Nat → Nat) (count : Nat) : Prop where
  bound : ∀ n < plan.nodeCount, payloadNode mode n = true → slot n < count
  apart : ∀ l < plan.nodeCount, ∀ m ∈ plan.path l, ∀ n ∈ plan.path l,
    payloadNode mode m = true → payloadNode mode n = true → slot m = slot n → m = n

/-- The owned nodes of one path need that many slots. -/
theorem KeepsApart.le {slot : Nat → Nat} {count n : Nat}
    (h : KeepsApart plan mode slot count) (hn : n < plan.nodeCount) :
    ownedOnPath plan mode n ≤ count := by
  rw [ownedOnPath, List.countP_eq_length_filter]
  have hmem : ∀ m ∈ (plan.path n).filter (payloadNode mode),
      m ∈ plan.path n ∧ payloadNode mode m = true ∧ m < plan.nodeCount := by
    intro m hm
    obtain ⟨hm, ho⟩ := List.mem_filter.mp hm
    exact ⟨hm, ho, Nat.lt_of_le_of_lt (plan.mem_path_le hn hm) hn⟩
  have hnodup : (((plan.path n).filter (payloadNode mode)).map slot).Nodup := by
    refine List.Nodup.map_on ?_ ((plan.path_nodup hn).filter _)
    intro a ha b hb hab
    exact h.apart n hn a (hmem a ha).1 b (hmem b hb).1 (hmem a ha).2.1 (hmem b hb).2.1 hab
  have hsub : ((plan.path n).filter (payloadNode mode)).map slot ⊆ List.range count := by
    intro k hk
    obtain ⟨m, hm, rfl⟩ := List.mem_map.mp hk
    exact List.mem_range.mpr (h.bound m (hmem m hm).2.2 (hmem m hm).2.1)
  have := (List.subperm_of_subset hnodup hsub).length_le
  rwa [List.length_map, List.length_range] at this

/-- **The compact layout is sound and optimal.** -/
theorem compactLayout_sound_optimal (plan : PlanShape) (mode : Nat → OutputStorageMode) :
    let layout := makeSerialDfsCompactSlotLayout plan mode
    (∀ n < plan.nodeCount, mode n ≠ .owned → compactIndex plan mode n = none) ∧
    (∀ n < plan.nodeCount, mode n = .owned →
      ∃ k < layout.physicalSlotCount, compactIndex plan mode n = some k) ∧
    (∀ l < plan.nodeCount, ∀ m ∈ plan.path l, ∀ n ∈ plan.path l,
      mode m = .owned → mode n = .owned → m ≠ n →
      compactIndex plan mode m ≠ compactIndex plan mode n) ∧
    (∀ n < plan.nodeCount, layout.payloadDepths.getD n 0
      = (plan.path n).countP (mode · == .owned)) ∧
    (∀ n < plan.nodeCount, layout.payloadDepths.getD n 0 ≤ layout.physicalSlotCount) ∧
    (∃ n < plan.nodeCount, layout.payloadDepths.getD n 0 = layout.physicalSlotCount) ∧
    (∀ slot count, KeepsApart plan mode slot count → layout.physicalSlotCount ≤ count) := by
  intro layout
  have hall := compactUpTo_all plan mode
  have howned : ∀ n, mode n = .owned ↔ payloadNode mode n = true := by simp [payloadNode]
  -- the maximum is attained also when no node is owned
  have hmax : ∃ n < plan.nodeCount, ownedOnPath plan mode n = layout.physicalSlotCount := by
    rcases hall.attained with hzero | h
    · refine ⟨0, plan.nodeCount_pos, ?_⟩
      have := hall.bound 0 plan.nodeCount_pos
      show _ = (makeSerialDfsCompactSlotLayout plan mode).physicalSlotCount
      omega
    · exact h
  refine ⟨?_, ?_, ?_, ?_, ?_, ?_, ?_⟩
  · intro n hn hne
    rw [compactIndex_eq plan mode hn, if_neg (by rwa [← howned])]
  · intro n hn ho
    exact compactIndex_lt plan mode hn ((howned n).mp ho)
  · intro l hl m hm n hn hmo hno hne heq
    exact hne (compactIndex_inj plan mode hl hm hn ((howned m).mp hmo) ((howned n).mp hno) heq)
  · intro n hn
    exact payloadDepth_eq plan mode hn
  · intro n hn
    rw [payloadDepth_eq plan mode hn]
    exact hall.bound n hn
  · obtain ⟨n, hn, h⟩ := hmax
    exact ⟨n, hn, by rw [payloadDepth_eq plan mode hn, h]⟩
  · intro slot count hslot
    obtain ⟨n, hn, h⟩ := hmax
    rw [← h]
    exact hslot.le plan mode hn

end Compact

/-! ## §4. The one-to-one layout. -/

section OneToOne

variable (plan : PlanShape) (mode : Nat → OutputStorageMode)

/-- `physical_slot_index<I>` of the one-to-one layout. -/
def oneToOneIndex (n : Nat) : Option Nat :=
  (makeOneToOnePhysicalSlotIndices plan mode).getD n none

/-- Owned nodes are numbered in index order. -/
theorem oneToOneIndex_eq {n : Nat} (hn : n < plan.nodeCount) : oneToOneIndex plan mode n
    = if payloadNode mode n then some ((List.range n).countP (payloadNode mode)) else none := by
  -- after `k` nodes the array numbers the owned ones among them
  have hloop : ∀ k ≤ plan.nodeCount,
      (List.range k).foldl
        (fun (indices, next) node =>
          if payloadNode mode node then (indices.set node (some next), next + 1)
          else (indices, next))
        (List.replicate plan.nodeCount none, 0)
      = (table plan.nodeCount fun m =>
          if m < k ∧ payloadNode mode m then some ((List.range m).countP (payloadNode mode))
          else none, (List.range k).countP (payloadNode mode)) := by
    intro k
    induction k with
    | zero =>
        intro _
        simp [replicate_eq_table]
    | succ k ih =>
        intro hk
        rw [List.range_succ, List.foldl_append, ih (by omega), List.foldl_cons, List.foldl_nil,
          List.countP_append]
        cases howned : payloadNode mode k with
        | true =>
            simp only [if_true]
            rw [set_table _ _ (by omega), Prod.mk.injEq]
            refine ⟨table_congr fun m _ => ?_, by simp [howned]⟩
            by_cases hm : m = k
            · simp [hm, howned]
            · rw [Function.update_of_ne hm]
              simp [show m < k + 1 ↔ m < k by omega]
        | false =>
            simp only [Bool.false_eq_true, if_false, Prod.mk.injEq]
            refine ⟨table_congr fun m _ => ?_, by simp [howned]⟩
            by_cases hm : m = k
            · simp [hm, howned]
            · simp [show m < k + 1 ↔ m < k by omega]
  rw [oneToOneIndex, makeOneToOnePhysicalSlotIndices, hloop _ (Nat.le_refl _), table_getD _ _ hn]
  simp [hn]

/-- The one-to-one layout keeps all owned nodes apart. -/
theorem oneToOneIndex_inj {m n k : Nat} (hm : m < plan.nodeCount) (hn : n < plan.nodeCount)
    (hmk : oneToOneIndex plan mode m = some k) (hnk : oneToOneIndex plan mode n = some k) :
    m = n := by
  rw [oneToOneIndex_eq plan mode hm] at hmk
  rw [oneToOneIndex_eq plan mode hn] at hnk
  split_ifs at hmk hnk with hmo hno
  rw [Option.some.injEq] at hmk hnk
  -- the earlier of the two has the smaller number
  rcases Nat.lt_trichotomy m n with h | h | h
  · have := countP_range_lt h hmo
    omega
  · exact h
  · have := countP_range_lt h hno
    omega

end OneToOne

/-! ## §5. Physical policies. -/

theorem join_maybe_iff {left : SlotPhysicalPolicy} {right : SlotLogicalPolicy} :
    joinSlotPhysicalPolicy left right = .maybePayload
      ↔ left = .maybePayload ∨ right = .maybePayload := by
  cases left <;> cases right <;> decide

theorem join_none_iff {left : SlotPhysicalPolicy} {right : SlotLogicalPolicy} :
    joinSlotPhysicalPolicy left right = .none ↔ left = .none ∧ right = .none := by
  cases left <;> cases right <;> decide

/-- Owners may be joined in any order. -/
theorem join_comm (policy : SlotPhysicalPolicy) (left right : SlotLogicalPolicy) :
    joinSlotPhysicalPolicy (joinSlotPhysicalPolicy policy left) right
      = joinSlotPhysicalPolicy (joinSlotPhysicalPolicy policy right) left := by
  cases policy <;> cases left <;> cases right <;> rfl

section Joins

variable {logical : Nat → SlotLogicalPolicy}

theorem foldl_join_maybe_iff : ∀ {nodes : List Nat} {left : SlotPhysicalPolicy},
    nodes.foldl (fun policy n => joinSlotPhysicalPolicy policy (logical n)) left = .maybePayload
      ↔ left = .maybePayload ∨ ∃ n ∈ nodes, logical n = .maybePayload
  | [], left => by simp
  | n :: nodes, left => by
      rw [List.foldl_cons, foldl_join_maybe_iff, join_maybe_iff, List.exists_mem_cons_iff,
        or_assoc]

theorem foldl_join_none_iff : ∀ {nodes : List Nat} {left : SlotPhysicalPolicy},
    nodes.foldl (fun policy n => joinSlotPhysicalPolicy policy (logical n)) left = .none
      ↔ left = .none ∧ ∀ n ∈ nodes, logical n = .none
  | [], left => by simp
  | n :: nodes, left => by
      rw [List.foldl_cons, foldl_join_none_iff, join_none_iff, List.forall_mem_cons, and_assoc]

/-- Each slot's policy joins the policies of the nodes mapped to it. -/
theorem makePhysicalSlotPolicies_eq (plan : PlanShape) (indices : List (Option Nat))
    (count : Nat) : makePhysicalSlotPolicies plan indices logical count
      = table count fun k => ((List.range plan.nodeCount).filter
          (indices.getD · none == some k)).foldl
        (fun policy n => joinSlotPhysicalPolicy policy (logical n)) .none := by
  rw [← accumulate_table (d := .none), ← replicate_eq_table]
  rfl

end Joins

/-- **A physical slot carries an engagement flag exactly if some node mapped to
it may leave it empty.** -/
theorem physicalPolicy_maybe_iff (plan : PlanShape) {indices : List (Option Nat)}
    {logical : Nat → SlotLogicalPolicy} {count k : Nat} (hk : k < count) :
    (makePhysicalSlotPolicies plan indices logical count).getD k .none = .maybePayload
      ↔ ∃ n < plan.nodeCount, indices.getD n none = some k ∧ logical n = .maybePayload := by
  rw [makePhysicalSlotPolicies_eq, table_getD _ _ hk, foldl_join_maybe_iff]
  simp only [List.mem_filter, List.mem_range, beq_iff_eq, and_assoc, reduceCtorEq, false_or]

end YOrch
