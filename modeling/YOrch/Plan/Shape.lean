/-
  YOrch.Plan.Shape — the tree a compiled plan stands for.

  `PlanShape` is the structural half of a compiled plan: a level sequence the
  builder has accepted, with the index arrays compilation derives from it.
  Everything later results need about those arrays is proved here once:

    • `parentIndex_spec` — a non-root node's parent is earlier, one level up,
      and every node in between is deeper than the parent,
    • `children_eq` — a node's child list is the nodes with that parent, in
      increasing order,
    • `tree_spec` — the tree unfolded from the child lists has preorder
      `0, 1, …, N - 1`, the recorded levels as depths, and the parent array as
      its parent function,
    • `levels_encode_trees` — recording and compiling are inverse to each other.
-/
import YOrch.Plan.Layout
import Mathlib.Logic.Relation

namespace YOrch

open Library

/-- A nonempty level sequence recorded by the builder. -/
structure PlanShape where
  levels : List Nat
  nonempty : levels ≠ []
  accepted : (recordLevels levels).isSome

namespace PlanShape

variable (plan : PlanShape)

/-! ## §1. The compiled arrays. -/

/-- `compiled_plan::node_count`. -/
def nodeCount : Nat := plan.levels.length

/-- `compiled_plan::no_parent`. -/
def noParent : Nat := plan.nodeCount

/-- `compiled_plan::level<I>`. -/
def level (i : Nat) : Nat := plan.levels.getD i 0

/-- `compiled_plan::parent_indices`. -/
def parentIndices : List Nat := makeParentIndexArray plan.levels

/-- `compiled_plan::parent_index<I>`. -/
def parentIndex (i : Nat) : Nat := plan.parentIndices.getD i plan.noParent

/-- `compiled_child_layout_v`.  The default stands for a plan that does not
compile, which `childLayout_eq` rules out. -/
def childLayout : ChildLayout :=
  (makeChildLayout plan.parentIndices).getD ⟨[], [], []⟩

/-- `compiled_plan::child_count<I>`. -/
def childCount (i : Nat) : Nat := plan.childLayout.counts.getD i 0

/-- `compiled_plan::child_offset<I>`. -/
def childOffset (i : Nat) : Nat := plan.childLayout.offsets.getD i 0

/-- `compiled_plan::child_index<I, ChildOrdinal>`. -/
def childIndex (i childOrdinal : Nat) : Nat :=
  plan.childLayout.indices.getD (plan.childOffset i + childOrdinal) 0

/-- The direct children of `i` in the order the executors visit them. -/
def children (i : Nat) : List Nat :=
  (List.range (plan.childCount i)).map (plan.childIndex i)

/-! ## §2. Levels. -/

theorem nodeCount_pos : 0 < plan.nodeCount :=
  List.length_pos_iff.mpr plan.nonempty

/-- The recorded levels are the depths of a rooted tree. -/
theorem exists_levels :
    ∃ rest, plan.levels = 0 :: rest ∧ Forest.DepthSeq 1 rest := by
  obtain ⟨levels, hne, hacc⟩ := plan
  cases levels with
  | nil => exact absurd rfl hne
  | cons level rest =>
      obtain ⟨rfl, h⟩ := (recordLevels_cons_iff level rest).mp hacc
      exact ⟨rest, rfl, h⟩

@[simp] theorem level_zero : plan.level 0 = 0 := by
  obtain ⟨rest, h, -⟩ := plan.exists_levels
  simp [level, h]

theorem levels_getElem? {i : Nat} (hi : i < plan.nodeCount) :
    plan.levels[i]? = some (plan.level i) := by
  simp only [nodeCount] at hi
  simp [level, hi]

/-- No level below the root is zero, so `levels[node] - 1` never wraps. -/
theorem level_pos {i : Nat} (hi : 0 < i) (hin : i < plan.nodeCount) : 0 < plan.level i := by
  obtain ⟨rest, h, hseq⟩ := plan.exists_levels
  obtain ⟨j, rfl⟩ : ∃ j, i = j + 1 := ⟨i - 1, by omega⟩
  have hj : j < rest.length := by simpa [nodeCount, h] using hin
  have : plan.level (j + 1) = rest[j] := by simp [level, h, hj]
  rw [this]
  exact hseq.bound _ (List.getElem_mem hj)

/-- Levels deepen by at most one. -/
theorem level_succ_le {i : Nat} (hi : i + 1 < plan.nodeCount) :
    plan.level (i + 1) ≤ plan.level i + 1 := by
  obtain ⟨rest, h, hseq⟩ := plan.exists_levels
  have hlen : i + 1 < rest.length + 1 := by simpa [nodeCount, h] using hi
  have hnext : plan.level (i + 1) = rest[i] := by simp [level, h, show i < rest.length by omega]
  cases i with
  | zero =>
      have : rest[0] = 1 := hseq.head _ (by
        rw [List.head?_eq_getElem?]
        simp [show 0 < rest.length by omega])
      rw [hnext, this, level_zero]
  | succ i =>
      have hcur : plan.level (i + 1) = rest[i] := by
        simp [level, h, show i < rest.length by omega]
      rw [hnext, hcur]
      exact List.isChain_iff_getElem.mp hseq.chain i (by omega)

/-- Going back from `i`, every level up to its own occurs, and the first
occurrence has only deeper nodes after it. -/
theorem exists_last_level :
    ∀ {i : Nat}, i < plan.nodeCount → ∀ t ≤ plan.level i,
      ∃ j ≤ i, plan.level j = t ∧ ∀ m, j < m → m ≤ i → t < plan.level m
  | 0, _, t, ht => ⟨0, Nat.le_refl 0, by rw [level_zero] at ht ⊢; omega,
      fun m hm hm' => by omega⟩
  | i + 1, hi, t, ht => by
      rcases Nat.eq_or_lt_of_le ht with rfl | hlt
      · exact ⟨i + 1, Nat.le_refl _, rfl, fun m hm hm' => by omega⟩
      · have hstep := plan.level_succ_le hi
        obtain ⟨j, hj, hlevel, hdeep⟩ :=
          exists_last_level (i := i) (by omega) t (by omega)
        refine ⟨j, by omega, hlevel, fun m hm hm' => ?_⟩
        rcases Nat.lt_or_ge i m with h | h
        · obtain rfl : m = i + 1 := by omega
          exact hlt
        · exact hdeep m hm h

/-! ## §3. Parents. -/

theorem parentIndex_eq {i : Nat} (hi : i < plan.nodeCount) :
    plan.parentIndex i = if i = 0 then plan.noParent
      else (scanBack plan.levels (sizePred (plan.level i)) i).getD plan.noParent :=
  table_getD _ _ hi

theorem parentIndices_eq : plan.parentIndices = table plan.nodeCount plan.parentIndex :=
  table_congr fun _ hi => (plan.parentIndex_eq hi).symm

theorem parentIndex_zero : plan.parentIndex 0 = plan.noParent := by
  rw [plan.parentIndex_eq plan.nodeCount_pos, if_pos rfl]

theorem pos_of_parentIndex {i : Nat} (h : plan.parentIndex i ≠ plan.noParent) : 0 < i := by
  rcases Nat.eq_zero_or_pos i with rfl | hpos
  · exact absurd plan.parentIndex_zero h
  · exact hpos

/-- **The parent of a non-root node**: the nearest earlier node one level up. -/
theorem parentIndex_spec {i : Nat} (hi : 0 < i) (hin : i < plan.nodeCount) :
    plan.parentIndex i < i ∧ plan.level i = plan.level (plan.parentIndex i) + 1 ∧
      ∀ m, plan.parentIndex i < m → m < i → plan.level (plan.parentIndex i) < plan.level m := by
  have hpos := plan.level_pos hi hin
  -- the scan starts one node earlier, where the wanted level still occurs
  obtain ⟨prev, rfl⟩ : ∃ prev, i = prev + 1 := ⟨i - 1, by omega⟩
  have hstep := plan.level_succ_le hin
  obtain ⟨p, hp, hlevel, hdeep⟩ := plan.exists_last_level (i := prev) (by omega)
    (plan.level (prev + 1) - 1) (by omega)
  have hscan : scanBack plan.levels (sizePred (plan.level (prev + 1))) (prev + 1) = some p := by
    rw [scanBack_eq_some, sizePred, if_neg (by omega)]
    refine ⟨by omega, by rw [plan.levels_getElem? (by omega), hlevel], fun m hm hm' heq => ?_⟩
    rw [plan.levels_getElem? (by omega), Option.some.injEq] at heq
    have := hdeep m hm (by omega)
    omega
  have hparent : plan.parentIndex (prev + 1) = p := by
    rw [plan.parentIndex_eq hin, if_neg (by omega), hscan]
    rfl
  rw [hparent]
  refine ⟨by omega, by omega, fun m hm hm' => ?_⟩
  rw [hlevel]
  exact hdeep m hm (by omega)

theorem parentIndex_lt {i : Nat} (hi : 0 < i) (hin : i < plan.nodeCount) :
    plan.parentIndex i < i :=
  (plan.parentIndex_spec hi hin).1

theorem pointsBack : PointsBack plan.nodeCount plan.parentIndex :=
  ⟨plan.parentIndex_zero, fun _ => plan.parentIndex_lt⟩

/-- The parent is determined by its level and the deeper nodes after it. -/
theorem parentIndex_unique {i p : Nat} (hin : i < plan.nodeCount) (hp : p < i)
    (hlevel : plan.level i = plan.level p + 1)
    (hdeep : ∀ m, p < m → m < i → plan.level p < plan.level m) : plan.parentIndex i = p := by
  obtain ⟨hlt, hl, hd⟩ := plan.parentIndex_spec (by omega) hin
  rcases Nat.lt_trichotomy (plan.parentIndex i) p with h | h | h
  · have := hd p h hp
    omega
  · exact h
  · have := hdeep _ h hlt
    omega

/-- `p` is the parent of `i`. -/
def IsParent (p i : Nat) : Prop := 0 < i ∧ i < plan.nodeCount ∧ plan.parentIndex i = p

/-- `q` is a proper ancestor of `i`. -/
def IsAncestor (q i : Nat) : Prop := Relation.TransGen plan.IsParent q i

theorem IsParent.lt {plan : PlanShape} {p i : Nat} (h : plan.IsParent p i) : p < i :=
  h.2.2 ▸ plan.parentIndex_lt h.1 h.2.1

theorem IsAncestor.lt {plan : PlanShape} {q i : Nat} (h : plan.IsAncestor q i) : q < i := by
  induction h with
  | single h => exact h.lt
  | tail _ h ih => exact Nat.lt_trans ih h.lt

/-- Every node after `p` that stays deeper than `p` descends from `p`. -/
theorem isAncestor_of_deeper {p : Nat} :
    ∀ {m : Nat}, p < m → m < plan.nodeCount →
      (∀ k, p < k → k ≤ m → plan.level p < plan.level k) → plan.IsAncestor p m := by
  intro m
  induction m using Nat.strong_induction_on with
  | _ m ih =>
      intro hm hmn hdeep
      obtain ⟨hlt, hlevel, hbetween⟩ := plan.parentIndex_spec (by omega) hmn
      have hlast : plan.IsParent (plan.parentIndex m) m := ⟨by omega, hmn, rfl⟩
      have hmlevel := hdeep m hm (Nat.le_refl m)
      rcases Nat.lt_trichotomy p (plan.parentIndex m) with h | h | h
      · exact (ih _ hlt h (by omega) fun k hk hk' => hdeep k hk (by omega)).tail hlast
      · rw [← h] at hlast
        exact .single hlast
      · -- a parent before `p` would leave `p` below its own level
        have := hbetween p h hm
        omega

/-! ## §4. Child lists. -/

theorem childLayout_eq :
    makeChildLayout plan.parentIndices = some plan.childLayout := by
  obtain ⟨indices, h, -⟩ := makeChildLayout_eq_some plan.pointsBack
  rw [childLayout, parentIndices_eq, h]
  rfl

/-- What the compiled arrays hold. -/
theorem childLayout_spec :
    ∃ indices, plan.childLayout =
        ⟨table plan.nodeCount (bucketSize plan.parentIndex plan.nodeCount),
          table plan.nodeCount (offset (bucketSize plan.parentIndex plan.nodeCount)),
          table (plan.nodeCount - 1) indices⟩ ∧
      HoldsBuckets plan.parentIndex plan.nodeCount plan.nodeCount indices := by
  obtain ⟨indices, h, hholds⟩ := makeChildLayout_eq_some plan.pointsBack
  refine ⟨indices, ?_, hholds⟩
  rw [childLayout, parentIndices_eq, h]
  rfl

theorem childCount_eq {p : Nat} (hp : p < plan.nodeCount) :
    plan.childCount p = (bucket plan.parentIndex p plan.nodeCount).length := by
  obtain ⟨indices, h, -⟩ := plan.childLayout_spec
  rw [childCount, h, table_getD _ _ hp]
  rfl

theorem counts_read {p : Nat} (hp : p < plan.nodeCount) :
    plan.childLayout.counts[p]? = some (plan.childCount p) := by
  obtain ⟨indices, h, -⟩ := plan.childLayout_spec
  rw [plan.childCount_eq hp, h, table_getElem? _ hp]
  rfl

/-- A child's entry lies inside its parent's range. -/
theorem childIndex_entry {p ord : Nat} (hp : p < plan.nodeCount) (ho : ord < plan.childCount p) :
    plan.childLayout.offsets[p]? = some (plan.childOffset p) ∧
      plan.childLayout.indices[plan.childOffset p + ord]? = some (plan.childIndex p ord) ∧
      some (plan.childIndex p ord) = (bucket plan.parentIndex p plan.nodeCount)[ord]? := by
  obtain ⟨indices, h, hholds⟩ := plan.childLayout_spec
  have hlen : ord < bucketSize plan.parentIndex plan.nodeCount p := by
    rwa [plan.childCount_eq hp] at ho
  have hoff : plan.childOffset p = offset (bucketSize plan.parentIndex plan.nodeCount) p := by
    rw [childOffset, h, table_getD _ _ hp]
  have hplace := offset_add_lt hp hlen
  rw [plan.pointsBack.offset_eq plan.nodeCount_pos] at hplace
  have hindex : plan.childIndex p ord
      = indices (offset (bucketSize plan.parentIndex plan.nodeCount) p + ord) := by
    rw [childIndex, hoff, h, table_getD _ _ hplace]
  refine ⟨?_, ?_, ?_⟩
  · rw [hoff, h, table_getElem? _ hp]
  · rw [hindex, hoff, h, table_getElem? _ hplace]
  · rw [hindex, hholds p hp ord hlen]
    exact (List.getElem?_eq_getElem hlen).symm

/-- Both reads of a child's entry are in bounds. -/
theorem childIndex_read {p ord : Nat} (hp : p < plan.nodeCount) (ho : ord < plan.childCount p) :
    plan.childLayout.offsets[p]? = some (plan.childOffset p) ∧
      plan.childLayout.indices[plan.childOffset p + ord]? = some (plan.childIndex p ord) :=
  ⟨(plan.childIndex_entry hp ho).1, (plan.childIndex_entry hp ho).2.1⟩

/-- **The child list of a node**: all nodes with that parent, in order. -/
theorem children_eq {p : Nat} (hp : p < plan.nodeCount) :
    plan.children p = bucket plan.parentIndex p plan.nodeCount := by
  apply List.ext_getElem?
  intro ord
  rw [children, List.getElem?_map]
  by_cases ho : ord < plan.childCount p
  · rw [List.getElem?_range ho, ← (plan.childIndex_entry hp ho).2.2]
    rfl
  · rw [List.getElem?_eq_none (by simpa using Nat.not_lt.mp ho),
      List.getElem?_eq_none (by rw [← plan.childCount_eq hp]; omega)]
    rfl

theorem mem_children {p i : Nat} (hp : p < plan.nodeCount) :
    i ∈ plan.children p ↔ plan.IsParent p i := by
  rw [plan.children_eq hp, mem_bucket]
  constructor
  · rintro ⟨hi, hpar⟩
    refine ⟨?_, hi, hpar⟩
    rcases Nat.eq_zero_or_pos i with rfl | h
    · rw [plan.parentIndex_zero, noParent] at hpar
      omega
    · exact h
  · rintro ⟨-, hi, hpar⟩
    exact ⟨hi, hpar⟩

/-! ## §5. The tree. -/

/-- The tree below the root, unfolded through the compiled child lists. -/
def tree : Forest Nat := Forest.unfold plan.children (plan.nodeCount + 1) [0]

/-- Consecutive indices below a node at the right level are that node's subtree. -/
theorem parented_of_depths :
    ∀ (f : Forest Nat) (q a : Nat), q < a → a + f.size ≤ plan.nodeCount →
      f.preorder = List.range' a f.size →
      (∀ k, k < f.size → (f.depths (plan.level q + 1))[k]? = some (plan.level (a + k))) →
      (∀ m, q < m → m < a → plan.level q < plan.level m) →
      Forest.Parented plan.parentIndex q f
  | .nil, _, _, _, _, _, _, _ => trivial
  | .cons b c s, q, a, hqa, hsize, hpre, hdep, hdeep => by
      simp only [Forest.size] at hsize hdep
      simp only [Forest.preorder_cons, Forest.size, List.range'_succ, List.cons.injEq] at hpre
      obtain ⟨rfl, hpre⟩ := hpre
      have hb : plan.level b = plan.level q + 1 := by
        simpa using (hdep 0 (by omega)).symm
      have hlen : c.preorder.length = c.size := Forest.preorder_length c
      -- the indices after `b` are those below it, then those of its later siblings
      have hsplit : List.range' (b + 1) (c.size + s.size)
          = List.range' (b + 1) c.size ++ List.range' (b + 1 + c.size) s.size := by
        rw [List.range'_append_1]
      rw [hsplit] at hpre
      obtain ⟨hcpre, hspre⟩ := List.append_inj hpre (by rw [hlen, List.length_range'])
      have hclevel : ∀ k, k < c.size →
          (c.depths (plan.level q + 2))[k]? = some (plan.level (b + 1 + k)) := by
        intro k hk
        have := hdep (k + 1) (by omega)
        rw [Forest.depths_cons, List.getElem?_cons_succ, List.getElem?_append_left
          (by rw [Forest.depths_length]; exact hk)] at this
        rw [this]
        congr 2
        omega
      have hslevel : ∀ k, k < s.size →
          (s.depths (plan.level q + 1))[k]? = some (plan.level (b + 1 + c.size + k)) := by
        intro k hk
        have := hdep (c.size + k + 1) (by omega)
        rw [Forest.depths_cons, List.getElem?_cons_succ, List.getElem?_append_right
          (by rw [Forest.depths_length]; omega), Forest.depths_length,
          Nat.add_sub_cancel_left] at this
        rw [this]
        congr 2
        omega
      refine ⟨plan.parentIndex_unique (by omega) hqa hb hdeep, ?_, ?_⟩
      · refine parented_of_depths c b (b + 1) (Nat.lt_succ_self b) (by omega) hcpre ?_ ?_
        · rw [hb]
          exact hclevel
        · intro m hm hm'
          omega
      · refine parented_of_depths s q (b + 1 + c.size) (by omega) (by omega) hspre hslevel ?_
        intro m hm hm'
        rcases Nat.lt_trichotomy m b with h | rfl | h
        · exact hdeep m hm h
        · omega
        · -- inside the first tree every depth is below the one of `b`
          have hk : m - (b + 1) < c.size := by omega
          have hmem := List.mem_of_getElem? (hclevel _ hk)
          rw [show b + 1 + (m - (b + 1)) = m by omega] at hmem
          have := Forest.le_of_mem_depths c hmem
          omega

/-- **The compiled tree.**  Its preorder is `0, 1, …, N - 1`, its depths are the
recorded levels, the parent array is its parent function, and the child lists
are its child lists. -/
theorem tree_spec :
    plan.tree.preorder = List.range plan.nodeCount ∧
      plan.tree.depths 0 = plan.levels ∧
      Forest.Parented plan.parentIndex plan.noParent plan.tree ∧
      Forest.Spanned plan.children plan.tree ∧
      ∃ below, plan.tree = .cons 0 below .nil := by
  obtain ⟨rest, hlevels, hseq⟩ := plan.exists_levels
  have hcount : plan.nodeCount = rest.length + 1 := by simp [nodeCount, hlevels]
  obtain ⟨below, hpre, hdep⟩ := Forest.exists_of_depths rest.length rest
    (List.range' 1 rest.length) 1 rfl (by simp) hseq
  have hsize : below.size = rest.length := by
    rw [← Forest.preorder_length, hpre, List.length_range']
  have hwhole : (Forest.cons 0 below .nil).preorder = List.range plan.nodeCount := by
    rw [hcount, List.range_eq_range', List.range'_succ, Forest.preorder_cons, hpre,
      Forest.preorder_nil, List.append_nil]
  have hparented : Forest.Parented plan.parentIndex plan.noParent (.cons 0 below .nil) := by
    refine ⟨plan.parentIndex_zero, ?_, trivial⟩
    refine plan.parented_of_depths below 0 1 Nat.one_pos (by omega) (by rw [hpre, hsize]) ?_
      (fun m hm hm' => by omega)
    intro k hk
    rw [level_zero, Nat.zero_add, hdep, level, hlevels, Nat.add_comm 1 k]
    simp [show k < rest.length by omega]
  -- the child lists are the nodes with that parent, in preorder
  have hspanned : Forest.Spanned plan.children (.cons 0 below .nil) := by
    have hnodup : (plan.noParent :: (Forest.cons 0 below .nil).preorder).Nodup := by
      rw [hwhole]
      exact List.nodup_cons.mpr ⟨by simp [noParent], List.nodup_range⟩
    have h := Forest.spanned_filter (.cons 0 below .nil) plan.noParent [] []
      hparented hnodup (fun _ _ => rfl) (fun _ _ => rfl)
    rw [List.nil_append, List.append_nil, hwhole] at h
    refine h.congr fun x hx => ?_
    rw [hwhole, List.mem_range] at hx
    exact (plan.children_eq hx).symm
  have htree : plan.tree = .cons 0 below .nil :=
    Forest.unfold_roots _ _ hspanned (by simp only [Forest.size]; omega)
  rw [htree]
  refine ⟨hwhole, ?_, hparented, hspanned, below, rfl⟩
  rw [Forest.depths_cons, hdep, Forest.depths_nil, List.append_nil, hlevels]

end PlanShape

/-! ## §6. Recording and compiling are inverse. -/

/-- **Level sequences encode trees.**  The builder accepts exactly the depth
sequences of rooted ordered trees; on every accepted sequence the compiled
parent array is that tree's parent function, the backward scan neither wraps a
level nor leaves the sentinel on a non-root node, and the child lists unfold to
a tree with the recorded depths whose preorder is `0, 1, …, N - 1`. -/
theorem levels_encode_trees :
    (∀ levels : List Nat, (levels ≠ [] ∧ (recordLevels levels).isSome) ↔
      ∃ children : Forest Unit, levels = (Forest.cons () children .nil).depths 0) ∧
    ∀ plan : PlanShape,
      plan.parentIndex 0 = plan.noParent ∧
      (∀ i, 0 < i → i < plan.nodeCount →
        plan.level i ≠ 0 ∧ sizePred (plan.level i) = plan.level i - 1 ∧
        plan.parentIndex i < i ∧ plan.parentIndex i ≠ plan.noParent ∧
        plan.level i = plan.level (plan.parentIndex i) + 1 ∧
        ∀ m, plan.parentIndex i < m → m < i → plan.IsAncestor (plan.parentIndex i) m) ∧
      makeChildLayout plan.parentIndices = some plan.childLayout ∧
      plan.tree.depths 0 = plan.levels ∧
      Forest.Parented plan.parentIndex plan.noParent plan.tree ∧
      plan.tree.preorder = List.range plan.nodeCount := by
  refine ⟨recordLevels_iff_depths, fun plan => ?_⟩
  obtain ⟨hpre, hdep, hparented, -, -⟩ := plan.tree_spec
  refine ⟨plan.parentIndex_zero, fun i hi hin => ?_, plan.childLayout_eq, hdep, hparented, hpre⟩
  have hpos := plan.level_pos hi hin
  obtain ⟨hlt, hlevel, hdeep⟩ := plan.parentIndex_spec hi hin
  refine ⟨by omega, by rw [sizePred, if_neg (by omega)], hlt, ?_, hlevel, ?_⟩
  · show plan.parentIndex i ≠ plan.nodeCount
    omega
  · intro m hm hmi
    exact plan.isAncestor_of_deeper hm (by omega) fun k hk hk' => hdeep k hk (by omega)

example : makeParentIndexArray [0, 1, 2, 2, 1] = [5, 0, 1, 1, 0] := by decide

/-- A root with two children. -/
def PlanShape.twoChildren : PlanShape where
  levels := [0, 1, 1]
  nonempty := by decide
  accepted := by decide

end YOrch
