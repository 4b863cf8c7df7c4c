/-
  YOrch.Plan.Layout — from recorded levels to parents and child lists.

  A task tree is recorded as a sequence of node levels, and compilation turns
  that sequence into index arrays.  This file models the three pieces of code
  and says what each computes:

    • `recordLevels` — the builder appending nodes one at a time; it accepts
      exactly the depth sequences of rooted trees (`recordLevels_iff_depths`),
    • `makeParentIndexArray` — the backward scan for the nearest earlier node
      one level up; `scanBack_eq_some` characterises it,
    • `makeChildLayout` — the flattened child lists; for every parents array
      that points backward, `makeChildLayout_eq_some` gives its three arrays
      and `makeChildLayout_adjacency` says that they are the adjacency.
-/
import YOrch.Library.Buckets
import YOrch.Library.Forest
import Mathlib.Algebra.Group.Nat.Defs
import Mathlib.Data.List.Induction

namespace YOrch

open Library

/-! ## §1. Recording levels. -/

/-- `append_level_valid_v<Level, Nodes...>` over the recorded levels. -/
def appendLevelValid (level : Nat) (levels : List Nat) : Bool :=
  match levels.getLast? with
  | none => level == 0
  | some prevLevel => level != 0 && level ≤ prevLevel + 1

/-- Record one more node, if the builder's constraint admits it. -/
def appendLevel (levels : List Nat) (level : Nat) : Option (List Nat) :=
  if appendLevelValid level levels then some (levels ++ [level]) else none

/-- Record a whole sequence, node by node, from the empty builder. -/
def recordLevels (levels : List Nat) : Option (List Nat) :=
  levels.foldlM appendLevel []

/-! ## §2. Parents. -/

/-- `level - 1` in `std::size_t`: it wraps at zero. -/
def sizePred (level : Nat) : Nat :=
  if level = 0 then 2 ^ 64 - 1 else level - 1

/-- The inner loop of `make_parent_index_array`: the first candidate below
`cursor`, going down, whose level is `targetLevel`. -/
def scanBack (levels : List Nat) (targetLevel : Nat) : Nat → Option Nat
  | 0 => none
  | cursor + 1 =>
      if levels[cursor]? = some targetLevel then some cursor
      else scanBack levels targetLevel cursor

/-- `make_parent_index_array`: every entry starts as the sentinel `N`, and the
scan replaces it if it finds a candidate. -/
def makeParentIndexArray (levels : List Nat) : List Nat :=
  table levels.length fun node =>
    if node = 0 then levels.length
    else (scanBack levels (sizePred (levels.getD node 0)) node).getD levels.length

/-! ## §3. Child lists. -/

/-- `child_layout`: the children of `node` are the `counts[node]` entries of
`indices` from `offsets[node]` on. -/
structure ChildLayout where
  counts : List Nat
  offsets : List Nat
  indices : List Nat
  deriving Repr, DecidableEq

/-- `++layout.counts[parents[node]]` for every non-root node. -/
def countChildren (parents : List Nat) : Option (List Nat) :=
  (List.range' 1 (parents.length - 1)).foldlM
    (fun counts node => do
      let parent ← parents[node]?
      let count ← counts[parent]?
      write counts parent (count + 1))
    (List.replicate parents.length 0)

/-- The running `offset` over all nodes. -/
def placeChildren (counts : List Nat) : Option (List Nat) :=
  Prod.fst <$> (List.range counts.length).foldlM
    (fun (offsets, offset) node => do
      let count ← counts[node]?
      let offsets ← write offsets node offset
      pure (offsets, offset + count))
    (List.replicate counts.length 0, 0)

/-- `layout.indices[next_offsets[parent]++] = node` for every non-root node. -/
def fillChildren (parents offsets : List Nat) : Option (List Nat) :=
  Prod.fst <$> (List.range' 1 (parents.length - 1)).foldlM
    (fun (indices, nextOffsets) node => do
      let parent ← parents[node]?
      let next ← nextOffsets[parent]?
      let indices ← write indices next node
      let nextOffsets ← write nextOffsets parent (next + 1)
      pure (indices, nextOffsets))
    (List.replicate (parents.length - 1) 0, offsets)

/-- `make_child_layout`.  It is evaluated by the compiler, so an access out of
bounds is an error there: `none`. -/
def makeChildLayout (parents : List Nat) : Option ChildLayout := do
  let counts ← countChildren parents
  let offsets ← placeChildren counts
  let indices ← fillChildren parents offsets
  pure ⟨counts, offsets, indices⟩

/-! ## §4. The builder accepts exactly the depth sequences. -/

theorem recordLevels_append (levels : List Nat) (level : Nat) :
    recordLevels (levels ++ [level]) = (recordLevels levels).bind (appendLevel · level) := by
  simp [recordLevels, List.foldlM_append]

/-- The builder stores what it is given. -/
theorem recordLevels_eq {levels recorded : List Nat} (h : recordLevels levels = some recorded) :
    recorded = levels := by
  induction levels using List.reverseRecOn generalizing recorded with
  | nil => simpa [recordLevels] using h.symm
  | append_singleton levels level ih =>
      rw [recordLevels_append] at h
      obtain ⟨before, hbefore, happ⟩ := Option.bind_eq_some_iff.mp h
      obtain rfl := ih hbefore
      simp only [appendLevel, Option.ite_none_right_eq_some, Option.some.injEq] at happ
      exact happ.2.symm

theorem recordLevels_append_iff (levels : List Nat) (level : Nat) :
    (recordLevels (levels ++ [level])).isSome ↔
      (recordLevels levels).isSome ∧ appendLevelValid level levels := by
  rw [recordLevels_append]
  cases h : recordLevels levels with
  | none => simp
  | some recorded =>
      obtain rfl := recordLevels_eq h
      simp only [Option.bind_some, appendLevel, Option.isSome_some, true_and]
      split <;> simp_all

/-- The tail of an accepted sequence is a depth sequence at depth one. -/
theorem recordLevels_cons_iff (level : Nat) (rest : List Nat) :
    (recordLevels (level :: rest)).isSome ↔ level = 0 ∧ Forest.DepthSeq 1 rest := by
  induction rest using List.reverseRecOn with
  | nil =>
      have hempty : Forest.DepthSeq 1 [] := ⟨by simp, by simp, List.isChain_nil⟩
      have := recordLevels_append_iff [] level
      rw [List.nil_append] at this
      simpa [recordLevels, appendLevelValid, hempty] using this
  | append_singleton rest last ih =>
      rw [← List.cons_append, recordLevels_append_iff, ih]
      cases rest using List.reverseRecOn with
      | nil =>
          simp only [appendLevelValid, List.getLast?_singleton, List.nil_append,
            Bool.and_eq_true, bne_iff_ne, decide_eq_true_eq]
          constructor
          · -- after the root only a child of the root can come
            rintro ⟨⟨rfl, -⟩, hne, hle⟩
            obtain rfl : last = 1 := by omega
            exact ⟨rfl, by simp, by simp, List.isChain_singleton _⟩
          · rintro ⟨rfl, h⟩
            obtain rfl : last = 1 := h.head last (by simp)
            exact ⟨⟨rfl, by simp, by simp, List.isChain_nil⟩, by omega, by omega⟩
      | append_singleton rest prev =>
          simp only [appendLevelValid, ← List.cons_append, List.getLast?_concat,
            Bool.and_eq_true, bne_iff_ne, decide_eq_true_eq]
          constructor
          · -- a new last level keeps the head; the bound and the chain grow by one entry
            rintro ⟨⟨rfl, h⟩, hne, hle⟩
            refine ⟨rfl, ?_, ?_, ?_⟩
            · intro l hl
              exact h.head l (by simpa [List.head?_append] using hl)
            · intro l hl
              rcases List.mem_append.mp hl with hl | hl
              · exact h.bound l hl
              · have : l = last := by simpa using hl
                omega
            · rw [List.isChain_append]
              refine ⟨h.chain, List.isChain_singleton _, ?_⟩
              simpa using hle
          · rintro ⟨rfl, h⟩
            have hchain := List.isChain_append.mp h.chain
            have hlast := h.bound last (by simp)
            have hle : last ≤ prev + 1 := by simpa using hchain.2.2
            refine ⟨⟨rfl, ?_, ?_, hchain.1⟩, by omega, hle⟩
            · intro l hl
              exact h.head l (by simpa [List.head?_append] using hl)
            · intro l hl
              exact h.bound l (List.mem_append_left _ hl)

/-- **The builder accepts exactly the depth sequences of rooted ordered trees.** -/
theorem recordLevels_iff_depths (levels : List Nat) :
    (levels ≠ [] ∧ (recordLevels levels).isSome) ↔
      ∃ children : Forest Unit, levels = (Forest.cons () children .nil).depths 0 := by
  constructor
  · rintro ⟨hne, h⟩
    cases levels with
    | nil => exact absurd rfl hne
    | cons level rest =>
        obtain ⟨rfl, hseq⟩ := (recordLevels_cons_iff level rest).mp h
        obtain ⟨children, -, hd⟩ := Forest.exists_of_depths rest.length rest
          (List.replicate rest.length ()) 1 rfl (by simp) hseq
        exact ⟨children, by simp [hd]⟩
  · rintro ⟨children, rfl⟩
    refine ⟨by simp, ?_⟩
    rw [Forest.depths_cons, recordLevels_cons_iff]
    simpa using Forest.depthSeq_depths children 1

/-! ## §5. The backward scan. -/

/-- The scan finds the last entry below `cursor` at the wanted level. -/
theorem scanBack_eq_some {levels : List Nat} {targetLevel p : Nat} :
    ∀ {cursor : Nat}, scanBack levels targetLevel cursor = some p ↔
      p < cursor ∧ levels[p]? = some targetLevel ∧
        ∀ m, p < m → m < cursor → levels[m]? ≠ some targetLevel
  | 0 => by simp [scanBack]
  | cursor + 1 => by
      rw [scanBack]
      by_cases hc : levels[cursor]? = some targetLevel
      · rw [if_pos hc, Option.some.injEq]
        constructor
        · rintro rfl
          exact ⟨Nat.lt_succ_self _, hc, fun m hm hm' => by omega⟩
        · rintro ⟨hp, -, hlast⟩
          rcases Nat.lt_or_ge p cursor with h | h
          · exact absurd hc (hlast cursor h (Nat.lt_succ_self _))
          · omega
      · rw [if_neg hc, scanBack_eq_some]
        constructor
        · rintro ⟨hp, hlevel, hlast⟩
          refine ⟨Nat.lt_succ_of_lt hp, hlevel, fun m hm hm' => ?_⟩
          rcases Nat.lt_or_ge m cursor with h | h
          · exact hlast m hm h
          · obtain rfl : m = cursor := by omega
            exact hc
        · rintro ⟨hp, hlevel, hlast⟩
          have hne : p ≠ cursor := fun h => hc (h ▸ hlevel)
          exact ⟨by omega, hlevel, fun m hm hm' => hlast m hm (Nat.lt_succ_of_lt hm')⟩

/-! ## §6. The flattened child lists. -/

section ChildLists

variable {n : Nat} {key : Nat → Nat}

/-- A parents array that points backward: the sentinel at the root and an
earlier node everywhere else. -/
structure PointsBack (n : Nat) (key : Nat → Nat) : Prop where
  root : key 0 = n
  lt : ∀ i, 0 < i → i < n → key i < i

/-- Number of children of `p`. -/
def bucketSize (key : Nat → Nat) (n p : Nat) : Nat := (bucket key p n).length

theorem PointsBack.bucket_one (h : PointsBack n key) {p : Nat} (hp : p < n) :
    bucket key p 1 = [] := by
  rw [bucket_succ_of_ne key (by rw [h.root]; omega)]
  rfl

/-- The child ranges cover the `n - 1` entries. -/
theorem PointsBack.offset_eq (h : PointsBack n key) (hn : 0 < n) :
    offset (bucketSize key n) n = n - 1 := by
  obtain ⟨m, rfl⟩ : ∃ m, n = m + 1 := ⟨n - 1, by omega⟩
  show offset (fun p => (bucket key p (m + 1)).length) (m + 1) = m
  rw [offset_bucket, List.range_succ_eq_map,
    List.filter_cons_of_neg (by simp [h.root]), List.filter_eq_self.mpr]
  · simp
  · intro i hi
    obtain ⟨j, hj, rfl⟩ := List.mem_map.mp hi
    have hj : j < m := List.mem_range.mp hj
    have := h.lt (j + 1) (by omega) (by omega)
    simp only [Nat.succ_eq_add_one, decide_eq_true_eq]
    omega

theorem countChildren_eq (h : PointsBack n key) :
    countChildren (table n key) = some (table n (bucketSize key n)) := by
  rcases Nat.eq_zero_or_pos n with rfl | hn
  · rfl
  -- after the nodes `1, …, k` each count is the size of the bucket so far
  have hloop : ∀ k, k < n → (List.range' 1 k).foldlM
      (fun counts node => do
        let parent ← (table n key)[node]?
        let count ← counts[parent]?
        write counts parent (count + 1))
      (List.replicate n 0) = some (table n (bucketSize key (k + 1))) := by
    intro k
    induction k with
    | zero =>
        intro hk
        rw [replicate_eq_table]
        refine congrArg some (table_congr fun p hp => ?_)
        show 0 = (bucket key p 1).length
        rw [h.bucket_one hp, List.length_nil]
    | succ k ih =>
        intro hk
        have hpar : key (1 + k) < n := Nat.lt_trans (h.lt (1 + k) (by omega) (by omega)) (by omega)
        rw [List.range'_1_concat, List.foldlM_append, ih (by omega)]
        simp only [List.foldlM_cons, List.foldlM_nil, Option.bind_eq_bind, Option.bind_some,
          table_getElem? _ (show 1 + k < n by omega), table_getElem? _ hpar,
          write_table _ _ hpar, Option.pure_def, Option.some.injEq]
        refine table_congr fun p _ => ?_
        rw [Nat.add_comm k 1]
        by_cases hp : key (1 + k) = p
        · subst hp
          simp [bucketSize, bucket_succ_self]
        · rw [Function.update_of_ne (Ne.symm hp), bucketSize, bucketSize,
            bucket_succ_of_ne key hp]
  have := hloop (n - 1) (by omega)
  rw [countChildren, length_table]
  rwa [show n - 1 + 1 = n by omega] at this

theorem placeChildren_eq (size : Nat → Nat) :
    placeChildren (table n size) = some (table n (offset size)) := by
  -- after `k` nodes the first `k` offsets are in place, the others still zero
  have hloop : ∀ k, k ≤ n → (List.range k).foldlM
      (fun (s : List Nat × Nat) node => do
        let count ← (table n size)[node]?
        let offsets ← write s.1 node s.2
        pure (offsets, s.2 + count))
      (List.replicate n 0, 0)
        = some (table n (fun p => if p < k then offset size p else 0), offset size k) := by
    intro k
    induction k with
    | zero =>
        intro _
        rw [replicate_eq_table]
        simp [offset]
    | succ k ih =>
        intro hk
        rw [List.range_succ, List.foldlM_append, ih (by omega)]
        simp only [List.foldlM_cons, List.foldlM_nil, Option.bind_eq_bind, Option.bind_some,
          table_getElem? _ (show k < n by omega), write_table _ _ (show k < n by omega),
          Option.pure_def, Option.some.injEq, Prod.mk.injEq]
        refine ⟨table_congr fun p _ => ?_, rfl⟩
        by_cases hp : p = k
        · subst hp
          simp
        · rw [Function.update_of_ne hp]
          by_cases hlt : p < k
          · simp [hlt, Nat.lt_succ_of_lt hlt]
          · rw [if_neg hlt, if_neg (by omega)]
  have hall := hloop n (Nat.le_refl n)
  rw [placeChildren, length_table]
  simp only [hall, Option.map_eq_map, Option.map_some, Option.some.injEq]
  exact table_congr fun p hp => by rw [if_pos hp]

/-- What the filled array holds: bucket `p` from its offset on. -/
def HoldsBuckets (key : Nat → Nat) (n k : Nat) (indices : Nat → Nat) : Prop :=
  ∀ p < n, ∀ r (hr : r < (bucket key p k).length),
    indices (offset (bucketSize key n) p + r) = (bucket key p k)[r]

theorem fillChildren_eq (h : PointsBack n key) :
    ∃ indices, fillChildren (table n key) (table n (offset (bucketSize key n)))
        = some (table (n - 1) indices) ∧ HoldsBuckets key n n indices := by
  rcases Nat.eq_zero_or_pos n with rfl | hn
  · exact ⟨fun _ => 0, rfl, fun p hp => absurd hp (Nat.not_lt_zero p)⟩
  have hloop : ∀ k, k < n → ∃ indices, (List.range' 1 k).foldlM
      (fun (s : List Nat × List Nat) node => do
        let parent ← (table n key)[node]?
        let next ← s.2[parent]?
        let indices ← write s.1 next node
        let nextOffsets ← write s.2 parent (next + 1)
        pure (indices, nextOffsets))
      (List.replicate (n - 1) 0, table n (offset (bucketSize key n)))
        = some (table (n - 1) indices, table n fun p =>
            offset (bucketSize key n) p + (bucket key p (k + 1)).length) ∧
      HoldsBuckets key n (k + 1) indices := by
    intro k
    induction k with
    | zero =>
        intro hk
        refine ⟨fun _ => 0, ?_, ?_⟩
        · rw [replicate_eq_table]
          simp only [List.range'_zero, List.foldlM_nil, Option.pure_def, Option.some.injEq,
            Prod.mk.injEq, true_and]
          exact table_congr fun p hp => by rw [h.bucket_one hp]; rfl
        · intro p hp r hr
          rw [h.bucket_one hp] at hr
          exact absurd hr (Nat.not_lt_zero r)
    | succ k ih =>
        intro hk
        obtain ⟨indices, hrun, hholds⟩ := ih (by omega)
        have hpar : key (1 + k) < n := Nat.lt_trans (h.lt (1 + k) (by omega) (by omega)) (by omega)
        -- the next free place of the parent's bucket is in bounds
        have hlen : (bucket key (key (1 + k)) (1 + k)).length < bucketSize key n (key (1 + k)) := by
          have := (bucket_mono key (key (1 + k)) (show 1 + k + 1 ≤ n by omega)).length_le
          rw [bucket_succ_self, List.length_append] at this
          exact this
        have hplace :
            offset (bucketSize key n) (key (1 + k)) + (bucket key (key (1 + k)) (1 + k)).length
              < offset (bucketSize key n) n := offset_add_lt hpar hlen
        rw [h.offset_eq hn] at hplace
        refine ⟨Function.update indices (offset (bucketSize key n) (key (1 + k))
            + (bucket key (key (1 + k)) (1 + k)).length) (1 + k), ?_, ?_⟩
        · rw [List.range'_1_concat, List.foldlM_append, hrun]
          rw [Nat.add_comm k 1]
          simp only [List.foldlM_cons, List.foldlM_nil, Option.bind_eq_bind, Option.bind_some,
            table_getElem? _ (show 1 + k < n by omega), table_getElem? _ hpar,
            write_table _ _ hplace, write_table _ _ hpar, Option.pure_def, Option.some.injEq,
            Prod.mk.injEq, true_and]
          refine table_congr fun p _ => ?_
          by_cases hp : key (1 + k) = p
          · subst hp
            rw [Function.update_self, bucket_succ_self, List.length_append,
              List.length_singleton, Nat.add_assoc]
          · rw [Function.update_of_ne (Ne.symm hp), bucket_succ_of_ne key hp]
        · intro p hp r hr
          rw [Nat.add_comm k 1] at hholds
          -- an old entry of some bucket keeps its value; the new place holds the node
          have hold : ∀ (hr' : r < (bucket key p (1 + k)).length),
              (p = key (1 + k) → r ≠ (bucket key (key (1 + k)) (1 + k)).length) →
              Function.update indices (offset (bucketSize key n) (key (1 + k))
                  + (bucket key (key (1 + k)) (1 + k)).length) (1 + k)
                (offset (bucketSize key n) p + r) = (bucket key p (1 + k))[r] := by
            intro hr' hne
            rw [Function.update_of_ne]
            · exact hholds p hp r hr'
            · intro heq
              have hr'' : r < bucketSize key n p := Nat.lt_of_lt_of_le hr'
                (bucket_mono key p (by omega)).length_le
              obtain ⟨hpk, hrk⟩ := offset_inj hr'' hlen heq
              exact hne hpk hrk
          by_cases hpk : key (1 + k) = p
          · subst hpk
            simp only [Nat.add_comm k 1, bucket_succ_self, List.length_append,
              List.length_singleton] at hr ⊢
            rcases Nat.lt_or_eq_of_le (Nat.lt_succ_iff.mp hr) with hlt | rfl
            · rw [List.getElem_append_left hlt]
              exact hold hlt fun _ => Nat.ne_of_lt hlt
            · simp
          · simp only [Nat.add_comm k 1, bucket_succ_of_ne key hpk] at hr ⊢
            exact hold hr fun heq => absurd heq.symm hpk
  obtain ⟨indices, hrun, hholds⟩ := hloop (n - 1) (by omega)
  refine ⟨indices, ?_, by rwa [show n - 1 + 1 = n by omega] at hholds⟩
  rw [fillChildren, length_table]
  simp only [hrun, Option.map_eq_map, Option.map_some]

/-- **`make_child_layout` groups the nodes by parent.**  On a parents array that
points backward no access is out of bounds, and the children of each node are
stored back to back, in increasing order. -/
theorem makeChildLayout_eq_some (h : PointsBack n key) :
    ∃ indices, makeChildLayout (table n key) = some
        ⟨table n (bucketSize key n), table n (offset (bucketSize key n)),
          table (n - 1) indices⟩ ∧
      HoldsBuckets key n n indices := by
  obtain ⟨indices, hfill, hholds⟩ := fillChildren_eq h
  refine ⟨indices, ?_, hholds⟩
  simp [makeChildLayout, countChildren_eq h, placeChildren_eq, hfill]

end ChildLists

/-! ## §7. The adjacency. -/

/-- Entry `k` of `indices` belongs to node `p`. -/
def ChildLayout.InRange (layout : ChildLayout) (p k : Nat) : Prop :=
  layout.offsets.getD p 0 ≤ k ∧ k < layout.offsets.getD p 0 + layout.counts.getD p 0

/-- `layout` is the flattened adjacency of the tree with these parents. -/
structure ChildLayout.Adjacency (parents : List Nat) (layout : ChildLayout) : Prop where
  sizes : layout.counts.length = parents.length ∧ layout.offsets.length = parents.length
    ∧ layout.indices.length = parents.length - 1
  counts : ∀ p < parents.length, layout.counts.getD p 0 = parents.count p
  -- the ranges lie back to back, from the first entry to the last
  first : layout.offsets.getD 0 0 = 0
  next : ∀ p, p + 1 < parents.length →
    layout.offsets.getD (p + 1) 0 = layout.offsets.getD p 0 + layout.counts.getD p 0
  last : ∀ p, p + 1 = parents.length →
    layout.offsets.getD p 0 + layout.counts.getD p 0 = parents.length - 1
  cover : ∀ k < parents.length - 1, ∃ p < parents.length, layout.InRange p k
  disjoint : ∀ p < parents.length, ∀ q < parents.length, ∀ k,
    layout.InRange p k → layout.InRange q k → p = q
  -- the entries are the non-root nodes, each once and in its parent's range
  entries : ∀ i ∈ layout.indices, 0 < i ∧ i < parents.length
  once : ∀ i, 0 < i → i < parents.length → ∃ k, layout.indices[k]? = some i
    ∧ layout.InRange (parents.getD i 0) k ∧ ∀ l, layout.indices[l]? = some i → l = k
  increasing : ∀ p < parents.length, ∀ k l, layout.InRange p k → layout.InRange p l → k < l →
    layout.indices.getD k 0 < layout.indices.getD l 0

section Adjacency

variable {n : Nat} {key indices : Nat → Nat}

/-- The layout `makeChildLayout_eq_some` describes. -/
def bucketLayout (key : Nat → Nat) (n : Nat) (indices : Nat → Nat) : ChildLayout :=
  ⟨table n (bucketSize key n), table n (offset (bucketSize key n)), table (n - 1) indices⟩

/-- A node's range holds the places of its bucket. -/
theorem inRange_bucketLayout {p k : Nat} (hp : p < n) :
    (bucketLayout key n indices).InRange p k
      ↔ ∃ r < bucketSize key n p, k = offset (bucketSize key n) p + r := by
  simp only [ChildLayout.InRange, bucketLayout, table_getD _ _ hp]
  constructor
  · rintro ⟨hle, hlt⟩
    exact ⟨k - offset (bucketSize key n) p, by omega, by omega⟩
  · rintro ⟨r, hr, rfl⟩
    omega

theorem bucketSize_eq_count (key : Nat → Nat) (n p : Nat) :
    bucketSize key n p = (table n key).count p := by
  rw [bucketSize, bucket, ← List.countP_eq_length_filter, table, List.count, List.countP_map]
  refine List.countP_congr fun i _ => ?_
  simp

theorem PointsBack.place_lt (h : PointsBack n key) {p r : Nat} (hp : p < n)
    (hr : r < bucketSize key n p) : offset (bucketSize key n) p + r < n - 1 := by
  have hlt := offset_add_lt hp hr
  rwa [h.offset_eq (Nat.zero_lt_of_lt hp)] at hlt

/-- Every entry lies in the bucket of some node. -/
theorem PointsBack.exists_place (h : PointsBack n key) {k : Nat} (hk : k < n - 1) :
    ∃ p < n, ∃ r < bucketSize key n p, k = offset (bucketSize key n) p + r := by
  rw [← h.offset_eq (by omega)] at hk
  exact exists_bucket_of_lt hk

theorem HoldsBuckets.adjacency (h : PointsBack n key) (hholds : HoldsBuckets key n n indices) :
    (bucketLayout key n indices).Adjacency (table n key) := by
  -- a range holds its bucket, place by place
  have hrange : ∀ p < n, ∀ k, (bucketLayout key n indices).InRange p k →
      ∃ r, ∃ hr : r < (bucket key p n).length, k = offset (bucketSize key n) p + r
        ∧ k < n - 1 ∧ indices k = (bucket key p n)[r] := by
    intro p hp k hk
    obtain ⟨r, hr, rfl⟩ := (inRange_bucketLayout hp).mp hk
    exact ⟨r, hr, rfl, h.place_lt hp hr, hholds p hp r hr⟩
  -- what stands at an entry, and whose bucket it is from
  have hentry : ∀ k i, (table (n - 1) indices)[k]? = some i → ∃ p < n, ∃ r,
      ∃ hr : r < (bucket key p n).length,
        k = offset (bucketSize key n) p + r ∧ i = (bucket key p n)[r] := by
    intro k i hi
    have hk : k < n - 1 := by
      have := (List.getElem?_eq_some_iff.mp hi).1
      rwa [length_table] at this
    obtain ⟨p, hp, r, hr, rfl⟩ := h.exists_place hk
    rw [table_getElem? _ hk, hholds p hp r hr, Option.some.injEq] at hi
    exact ⟨p, hp, r, hr, rfl, hi.symm⟩
  have hsorted := fun p => List.pairwise_iff_getElem.mp (bucket_sorted key p n)
  simp only [bucketLayout] at *
  constructor
  case sizes => simp
  case counts =>
    intro p hp
    rw [length_table] at hp
    rw [table_getD _ _ hp, bucketSize_eq_count]
  case first =>
    rcases Nat.eq_zero_or_pos n with rfl | hn
    · rfl
    · rw [table_getD _ _ hn]
      rfl
  case next =>
    intro p hp
    rw [length_table] at hp
    rw [table_getD _ _ hp, table_getD _ _ (by omega), table_getD _ _ (by omega)]
    rfl
  case last =>
    intro p hp
    rw [length_table] at hp ⊢
    rw [table_getD _ _ (by omega), table_getD _ _ (by omega), ← h.offset_eq (by omega), ← hp]
    rfl
  case cover =>
    intro k hk
    rw [length_table] at hk ⊢
    obtain ⟨p, hp, r, hr, hplace⟩ := h.exists_place hk
    exact ⟨p, hp, (inRange_bucketLayout hp).mpr ⟨r, hr, hplace⟩⟩
  case disjoint =>
    intro p hp q hq k hpk hqk
    rw [length_table] at hp hq
    obtain ⟨r, hr, hk, -⟩ := hrange p hp k hpk
    obtain ⟨t, ht, hk', -⟩ := hrange q hq k hqk
    exact (offset_inj hr ht (hk.symm.trans hk')).1
  case entries =>
    intro i hi
    rw [length_table]
    obtain ⟨k, hk⟩ := List.getElem?_of_mem hi
    obtain ⟨p, hp, r, hr, -, rfl⟩ := hentry k i hk
    obtain ⟨hlt, hkey⟩ := (mem_bucket key).mp (List.getElem_mem hr)
    refine ⟨Nat.pos_of_ne_zero fun hzero => ?_, hlt⟩
    -- the root's entry is the sentinel, which is no node
    rw [hzero, h.root] at hkey
    omega
  case once =>
    intro i hpos hi
    rw [length_table] at hi
    have hparent : key i < n := Nat.lt_trans (h.lt i hpos hi) hi
    obtain ⟨r, hr, hri⟩ := List.mem_iff_getElem.mp ((mem_bucket key).mpr ⟨hi, rfl⟩)
    have hplace := h.place_lt hparent hr
    refine ⟨offset (bucketSize key n) (key i) + r, ?_, ?_, fun l hl => ?_⟩
    · rw [table_getElem? _ hplace, hholds _ hparent r hr, hri]
    · rw [table_getD _ _ hi]
      exact (inRange_bucketLayout hparent).mpr ⟨r, hr, rfl⟩
    · obtain ⟨p, hp, t, ht, rfl, hti⟩ := hentry l i hl
      -- the same node stands in one bucket only, and there once
      obtain rfl : key i = p := hti ▸ ((mem_bucket key).mp (List.getElem_mem ht)).2
      have hnodup : (bucket key (key i) n).Nodup := (bucket_sorted key _ n).imp Nat.ne_of_lt
      rw [hnodup.getElem_inj_iff.mp (hti.symm.trans hri.symm)]
  case increasing =>
    intro p hp k l hk hl hkl
    rw [length_table] at hp
    obtain ⟨r, hr, hkr, hk', hik⟩ := hrange p hp k hk
    obtain ⟨t, ht, hlt, hl', hil⟩ := hrange p hp l hl
    rw [table_getD _ _ hk', table_getD _ _ hl', hik, hil]
    exact hsorted p r t hr ht (by omega)

end Adjacency

/-- **`make_child_layout` returns the adjacency of every parents array that
points backward**, and no access on the way is out of bounds. -/
theorem makeChildLayout_adjacency (parents : List Nat)
    (hroot : ∀ h : 0 < parents.length, parents[0] = parents.length)
    (hlt : ∀ i, ∀ h : i < parents.length, 0 < i → parents[i] < i) :
    ∃ layout, makeChildLayout parents = some layout ∧ layout.Adjacency parents := by
  have hpoints : PointsBack parents.length (parents.getD · 0) := by
    constructor
    · cases parents with
      | nil => rfl
      | cons p ps => exact hroot (Nat.succ_pos _)
    · intro i hpos hi
      rw [List.getD_eq_getElem?_getD, List.getElem?_eq_getElem hi]
      exact hlt i hi hpos
  -- the three passes read the array only through its entries
  have htable : parents = table parents.length (parents.getD · 0) := by
    apply List.ext_getElem?
    intro i
    rcases Nat.lt_or_ge i parents.length with hi | hi
    · rw [table_getElem? _ hi, List.getD_eq_getElem?_getD, List.getElem?_eq_getElem hi]
      rfl
    · rw [List.getElem?_eq_none hi, List.getElem?_eq_none (by simpa using hi)]
  obtain ⟨indices, hmake, hholds⟩ := makeChildLayout_eq_some hpoints
  rw [← htable] at hmake
  refine ⟨_, hmake, ?_⟩
  have hadjacency := HoldsBuckets.adjacency hpoints hholds
  rwa [← htable] at hadjacency

/-- Five nodes: the root has two children, and the first of them has two. -/
theorem makeChildLayout_adjacency_five : ∃ layout,
    makeChildLayout [5, 0, 0, 1, 1] = some layout
      ∧ layout.Adjacency [5, 0, 0, 1, 1] :=
  makeChildLayout_adjacency [5, 0, 0, 1, 1] (by decide) (by decide)

end YOrch
