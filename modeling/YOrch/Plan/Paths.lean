/-
  YOrch.Plan.Paths — root-to-node paths of a compiled plan.

  `plan.path n` lists `n` and its ancestors, nearest first, by following the
  parent array.  The lemmas relate it to the ancestor relation and to the order
  of indices, and give the induction that a pass over the nodes in index order
  supports.
-/
import YOrch.Plan.Shape

namespace YOrch

/-- `n`, its parent, and so on, for as long as the bound and the root allow. -/
def pathFrom (parent : Nat → Nat) : Nat → Nat → List Nat
  | 0, n => [n]
  | fuel + 1, n => if n = 0 then [n] else n :: pathFrom parent fuel (parent n)

namespace PlanShape

variable (plan : PlanShape)

/-- `n` and its ancestors, nearest first. -/
def path (n : Nat) : List Nat := pathFrom plan.parentIndex n n

@[simp] theorem path_zero : plan.path 0 = [0] := rfl

theorem pathFrom_of_le : ∀ {n fuel : Nat}, n ≤ fuel → n < plan.nodeCount →
    pathFrom plan.parentIndex fuel n = plan.path n := by
  intro n
  induction n using Nat.strong_induction_on with
  | _ n ih =>
      intro fuel hf hn
      rcases Nat.eq_zero_or_pos n with rfl | hpos
      · cases fuel <;> rfl
      obtain ⟨fuel, rfl⟩ : ∃ k, fuel = k + 1 := ⟨fuel - 1, by omega⟩
      obtain ⟨m, rfl⟩ : ∃ m, n = m + 1 := ⟨n - 1, by omega⟩
      have hlt := plan.parentIndex_lt hpos hn
      rw [path, pathFrom, pathFrom, if_neg (by omega), if_neg (by omega),
        ih _ hlt (by omega) (by omega), ih _ hlt (by omega) (by omega)]

/-- The path of a non-root node goes on through its parent. -/
theorem path_of_pos {n : Nat} (hpos : 0 < n) (hn : n < plan.nodeCount) :
    plan.path n = n :: plan.path (plan.parentIndex n) := by
  obtain ⟨m, rfl⟩ : ∃ m, n = m + 1 := ⟨n - 1, by omega⟩
  have hlt := plan.parentIndex_lt hpos hn
  rw [path, pathFrom, if_neg (by omega), plan.pathFrom_of_le (by omega) (by omega)]

theorem IsParent.path {plan : PlanShape} {p n : Nat} (h : plan.IsParent p n) :
    plan.path n = n :: plan.path p := by
  rw [plan.path_of_pos h.1 h.2.1, h.2.2]

/-- Induction over the nodes of a plan: the root, then every node from its
parent. -/
theorem node_induction {motive : Nat → Prop} (root : motive 0)
    (child : ∀ p n, plan.IsParent p n → motive p → motive n) :
    ∀ n, n < plan.nodeCount → motive n := by
  intro n
  induction n using Nat.strong_induction_on with
  | _ n ih =>
      intro hn
      rcases Nat.eq_zero_or_pos n with rfl | hpos
      · exact root
      · have hlt := plan.parentIndex_lt hpos hn
        exact child _ n ⟨hpos, hn, rfl⟩ (ih _ hlt (by omega))

theorem self_mem_path (n : Nat) : n ∈ plan.path n := by
  rw [path]
  cases n <;> simp [pathFrom]

theorem mem_path {m : Nat} : ∀ {n : Nat}, n < plan.nodeCount →
    (m ∈ plan.path n ↔ m = n ∨ plan.IsAncestor m n) := by
  intro n hn
  refine plan.node_induction (motive := fun n => m ∈ plan.path n ↔ m = n ∨ plan.IsAncestor m n)
    ?_ ?_ n hn
  · rw [path_zero, List.mem_singleton]
    refine ⟨Or.inl, fun h => h.resolve_right fun h => ?_⟩
    exact Nat.not_lt_zero _ h.lt
  · intro p n h ih
    rw [h.path, List.mem_cons, ih]
    refine or_congr_right ⟨?_, ?_⟩
    · rintro (rfl | hanc)
      · exact .single h
      · exact hanc.tail h
    · intro hanc
      rcases Relation.TransGen.tail'_iff.mp hanc with ⟨q, hmq, hqn⟩
      obtain rfl : q = p := hqn.2.2.symm.trans h.2.2
      rcases Relation.reflTransGen_iff_eq_or_transGen.mp hmq with rfl | hmq
      · exact Or.inl rfl
      · exact Or.inr hmq

theorem mem_path_le {m n : Nat} (hn : n < plan.nodeCount) (h : m ∈ plan.path n) : m ≤ n := by
  rcases (plan.mem_path hn).mp h with rfl | h
  · exact Nat.le_refl _
  · exact Nat.le_of_lt h.lt

/-- Paths descend strictly. -/
theorem path_sorted : ∀ n, n < plan.nodeCount → (plan.path n).Pairwise (· > ·) := by
  refine plan.node_induction (List.pairwise_singleton _ _) fun p n h ih => ?_
  rw [h.path, List.pairwise_cons]
  refine ⟨fun m hm => ?_, ih⟩
  have := plan.mem_path_le (Nat.lt_trans h.lt h.2.1) hm
  exact Nat.lt_of_le_of_lt this h.lt

theorem path_nodup {n : Nat} (hn : n < plan.nodeCount) : (plan.path n).Nodup :=
  (plan.path_sorted n hn).imp Nat.ne_of_gt

/-- The path of a node on a path is a suffix of it. -/
theorem path_suffix : ∀ n, n < plan.nodeCount → ∀ m ∈ plan.path n, plan.path m <:+ plan.path n := by
  refine plan.node_induction ?_ fun p n h ih m hm => ?_
  · intro m hm
    rw [path_zero, List.mem_singleton] at hm
    subst hm
    exact List.suffix_refl _
  · rw [h.path, List.mem_cons] at hm
    rcases hm with rfl | hm
    · exact List.suffix_refl _
    · rw [h.path]
      exact (ih m hm).trans (List.suffix_cons _ _)

/-- Of two nodes on one path, the earlier one lies on the later one's path. -/
theorem mem_path_of_lt {l m n : Nat} (hl : l < plan.nodeCount) (hm : m ∈ plan.path l)
    (hn : n ∈ plan.path l) (h : m < n) : m ∈ plan.path n := by
  have hn' : n < plan.nodeCount := Nat.lt_of_le_of_lt (plan.mem_path_le hl hn) hl
  obtain ⟨before, hbefore⟩ := plan.path_suffix l hl n hn
  have hsorted := plan.path_sorted l hl
  rw [← hbefore] at hm hsorted
  rcases List.mem_append.mp hm with hm | hm
  · have := (List.pairwise_append.mp hsorted).2.2 m hm n (plan.self_mem_path n)
    omega
  · exact hm

/-- Everything after a node up to one below it is deeper than the node. -/
theorem deeper_of_mem_path {c : Nat} : ∀ j, j < plan.nodeCount → c ∈ plan.path j →
    ∀ k, c < k → k ≤ j → plan.level c < plan.level k := by
  refine plan.node_induction ?_ fun p n h ih hc => ?_
  · intro _ k hck hk
    omega
  · intro k hck hk
    rw [h.path, List.mem_cons] at hc
    rcases hc with rfl | hc
    · omega
    obtain ⟨hlt, hlevel, hbetween⟩ := plan.parentIndex_spec h.1 h.2.1
    rw [h.2.2] at hlt hlevel hbetween
    -- up to the parent by induction, after it because all in between is deeper
    have hp : plan.level c ≤ plan.level p := by
      rcases Nat.eq_or_lt_of_le (plan.mem_path_le (Nat.lt_trans h.lt h.2.1) hc) with rfl | hcp
      · exact Nat.le_refl _
      · exact Nat.le_of_lt (ih hc p hcp (Nat.le_refl p))
    rcases Nat.lt_trichotomy k p with hkp | rfl | hkp
    · exact ih hc k hck (Nat.le_of_lt hkp)
    · exact ih hc k hck (Nat.le_refl k)
    · rcases Nat.eq_or_lt_of_le hk with rfl | hkn
      · omega
      · exact Nat.lt_of_le_of_lt hp (hbetween k hkp hkn)

/-- The nodes below a node are consecutive. -/
theorem mem_path_of_between {c j k : Nat} (hj : j < plan.nodeCount) (hc : c ∈ plan.path j)
    (hck : c ≤ k) (hk : k ≤ j) : c ∈ plan.path k := by
  rcases Nat.eq_or_lt_of_le hck with rfl | hlt
  · exact plan.self_mem_path c
  have hkn : k < plan.nodeCount := by omega
  apply (plan.mem_path hkn).mpr
  refine Or.inr (plan.isAncestor_of_deeper hlt hkn fun l hl hl' => ?_)
  exact plan.deeper_of_mem_path j hj hc l hl (by omega)

/-- A path is as long as its node is deep. -/
theorem length_path : ∀ n, n < plan.nodeCount → (plan.path n).length = plan.level n + 1 := by
  refine plan.node_induction ?_ fun p n h ih => ?_
  · rw [path_zero, level_zero]
    rfl
  · obtain ⟨-, hlevel, -⟩ := plan.parentIndex_spec h.1 h.2.1
    rw [h.2.2] at hlevel
    rw [h.path, List.length_cons, ih, hlevel]

/-! ## Children. -/

theorem isParent_childIndex {p ord : Nat} (ho : ord < plan.childCount p) :
    p < plan.nodeCount ∧ plan.IsParent p (plan.childIndex p ord) := by
  have hp : p < plan.nodeCount := by
    rcases Nat.lt_or_ge p plan.nodeCount with h | h
    · exact h
    · obtain ⟨indices, hl, -⟩ := plan.childLayout_spec
      have : plan.childCount p = 0 := by
        simp [childCount, hl, List.getD_eq_getElem?_getD, h]
      omega
  have hmem : plan.childIndex p ord ∈ plan.children p :=
    List.mem_map.mpr ⟨ord, List.mem_range.mpr ho, rfl⟩
  exact ⟨hp, (plan.mem_children hp).mp hmem⟩

/-- Siblings come in index order. -/
theorem childIndex_lt_of_lt {p ord k : Nat} (hord : ord < k) (hk : k < plan.childCount p) :
    plan.childIndex p ord < plan.childIndex p k := by
  have ho : ord < plan.childCount p := Nat.lt_trans hord hk
  obtain ⟨hp, -⟩ := plan.isParent_childIndex ho
  have hsorted : (plan.children p).Pairwise (· < ·) := by
    rw [plan.children_eq hp]
    exact List.pairwise_lt_range.filter _
  rw [children, List.pairwise_map] at hsorted
  have hpair := List.pairwise_iff_getElem.mp hsorted ord k (by simpa using ho) (by simpa using hk)
    hord
  simpa using hpair

/-- A later sibling comes after everything below an earlier one. -/
theorem below_lt_sibling {p ord k j : Nat} (hj : j < plan.nodeCount)
    (hbelow : plan.childIndex p ord ∈ plan.path j) (hord : ord < k)
    (hk : k < plan.childCount p) : j < plan.childIndex p k := by
  have hlt := plan.childIndex_lt_of_lt hord hk
  obtain ⟨hp, hparent⟩ := plan.isParent_childIndex (Nat.lt_trans hord hk)
  obtain ⟨-, hparent'⟩ := plan.isParent_childIndex hk
  by_contra hge
  -- else the later sibling would lie below the earlier one
  have hmem := plan.mem_path_of_between hj hbelow (Nat.le_of_lt hlt) (Nat.not_lt.mp hge)
  rw [hparent'.path, List.mem_cons] at hmem
  rcases hmem with heq | hmem
  · omega
  · have hle := plan.mem_path_le hp hmem
    have := hparent.lt
    omega

end PlanShape

/-! ## The deepest level. -/

/-- `max_level`. -/
def maxLevel : List Nat → Nat
  | [] => 0
  | [level] => level
  | level :: next :: rest =>
      if level > maxLevel (next :: rest) then level else maxLevel (next :: rest)

theorem le_maxLevel : ∀ {levels : List Nat} {level : Nat}, level ∈ levels →
    level ≤ maxLevel levels
  | [head], level, h => by
      rw [List.mem_singleton.mp h]
      exact Nat.le_refl _
  | head :: next :: rest, level, h => by
      rw [maxLevel]
      rcases List.mem_cons.mp h with rfl | h
      · split <;> omega
      · have := le_maxLevel h
        split <;> omega

/-- `compiled_plan::max_level`. -/
def PlanShape.maxLevel (plan : PlanShape) : Nat := YOrch.maxLevel plan.levels

theorem PlanShape.level_le_maxLevel (plan : PlanShape) {i : Nat} (hi : i < plan.nodeCount) :
    plan.level i ≤ plan.maxLevel :=
  le_maxLevel (List.mem_of_getElem? (plan.levels_getElem? hi))

end YOrch
