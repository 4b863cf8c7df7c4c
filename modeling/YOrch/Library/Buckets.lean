/-
  YOrch.Library.Buckets — checked arrays and the stable bucket pass.

  `table n g` is the array of the first `n` values of `g`; `write` is a checked
  store, and on a table it updates `g` at one point.  `bucket key p k` collects
  the indices below `k` with key `p`, in increasing order, and `offset size p`
  is where bucket `p` starts when buckets of the given sizes lie back to back:

    • `offset_add_lt` — a place inside a bucket lies before the next bucket, so
      no two buckets share a place (`offset_inj`),
    • `offset_bucket` — the offsets count the indices with a smaller key,
    • `accumulate_table` — a pass that joins items into cells gives each cell its
      own items, so commuting joins do not depend on the order
      (`accumulate_perm`).
-/
import Mathlib.Data.List.Basic
import Mathlib.Logic.Function.Basic
import Mathlib.Tactic.Common

namespace YOrch.Library

variable {α : Type}

/-! ## §1. Checked arrays. -/

/-- The array of the first `n` values of `g`. -/
def table (n : Nat) (g : Nat → α) : List α := (List.range n).map g

/-- Store `v` at `i`, if `i` is in bounds. -/
def write (xs : List α) (i : Nat) (v : α) : Option (List α) :=
  if i < xs.length then some (xs.set i v) else none

@[simp] theorem length_table (n : Nat) (g : Nat → α) : (table n g).length = n := by
  simp [table]

theorem table_getElem? {n i : Nat} (g : Nat → α) (h : i < n) :
    (table n g)[i]? = some (g i) := by
  simp [table, h]

theorem table_getD {n i : Nat} (g : Nat → α) (d : α) (h : i < n) :
    (table n g).getD i d = g i := by
  rw [List.getD_eq_getElem?_getD, table_getElem? g h]
  rfl

theorem table_congr {n : Nat} {g h : Nat → α} (hgh : ∀ i < n, g i = h i) :
    table n g = table n h :=
  List.map_congr_left fun i hi => hgh i (List.mem_range.mp hi)

theorem replicate_eq_table (n : Nat) (a : α) : List.replicate n a = table n fun _ => a := by
  simp [table, List.map_const']

theorem set_table {n i : Nat} (g : Nat → α) (v : α) (h : i < n) :
    (table n g).set i v = table n (Function.update g i v) := by
  apply List.ext_getElem?
  intro j
  rw [List.getElem?_set]
  by_cases hj : j < n
  · rw [table_getElem? _ hj, table_getElem? _ hj]
    by_cases hij : i = j
    · subst hij
      simp [h]
    · simp [hij, Function.update_of_ne (Ne.symm hij)]
  · have hij : i ≠ j := by omega
    have hj : n ≤ j := by omega
    simp [table, hij, hj]

theorem write_table {n i : Nat} (g : Nat → α) (v : α) (h : i < n) :
    write (table n g) i v = some (table n (Function.update g i v)) := by
  rw [write, if_pos (by simpa using h), set_table g v h]

/-! ## §2. Buckets. -/

/-- The indices below `k` with key `p`, in increasing order. -/
def bucket (key : Nat → Nat) (p k : Nat) : List Nat :=
  (List.range k).filter (key · = p)

variable (key : Nat → Nat)

@[simp] theorem bucket_zero (p : Nat) : bucket key p 0 = [] := rfl

theorem bucket_succ_self (k : Nat) :
    bucket key (key k) (k + 1) = bucket key (key k) k ++ [k] := by
  simp [bucket, List.range_succ]

theorem bucket_succ_of_ne {p k : Nat} (h : key k ≠ p) :
    bucket key p (k + 1) = bucket key p k := by
  simp [bucket, List.range_succ, h]

theorem bucket_mono {k n : Nat} (p : Nat) (h : k ≤ n) :
    bucket key p k <+: bucket key p n := by
  induction h with
  | refl => exact List.prefix_refl _
  | @step n _ ih =>
      by_cases hn : key n = p
      · subst hn
        rw [bucket_succ_self]
        exact ih.trans (List.prefix_append _ _)
      · rwa [bucket_succ_of_ne key hn]

theorem mem_bucket {p k i : Nat} : i ∈ bucket key p k ↔ i < k ∧ key i = p := by
  simp [bucket]

theorem bucket_sorted (p k : Nat) : (bucket key p k).Pairwise (· < ·) :=
  List.pairwise_lt_range.filter _

/-- A bucket is sorted: its indices up to `q` come first. -/
theorem takeWhile_bucket (p q k : Nat) :
    (bucket key p k).takeWhile (· ≤ q)
      = (List.range k).filter fun i => decide (key i = p) && decide (i ≤ q) := by
  have hsorted : ∀ l : List Nat, l.Pairwise (· < ·) →
      (l.filter (key · = p)).takeWhile (· ≤ q)
        = l.filter fun i => decide (key i = p) && decide (i ≤ q) := by
    intro l hl
    induction l with
    | nil => rfl
    | cons a l ih =>
        obtain ⟨hhead, htail⟩ := List.pairwise_cons.mp hl
        by_cases hkey : key a = p
        · rw [List.filter_cons_of_pos (by simpa using hkey)]
          by_cases ha : a ≤ q
          · rw [List.takeWhile_cons_of_pos (by simpa using ha), ih htail,
              List.filter_cons_of_pos (by simp [hkey, ha])]
          · rw [List.takeWhile_cons_of_neg (by simpa using ha),
              List.filter_cons_of_neg (by simp [ha]), List.filter_eq_nil_iff.mpr]
            intro b hb
            have hlt := hhead b hb
            simp
            omega
        · rw [List.filter_cons_of_neg (by simpa using hkey), ih htail,
            List.filter_cons_of_neg (by simp [hkey])]
  exact hsorted _ List.pairwise_lt_range

/-! ## §3. Back-to-back places. -/

/-- Where bucket `p` starts. -/
def offset (size : Nat → Nat) : Nat → Nat
  | 0 => 0
  | p + 1 => offset size p + size p

variable {size : Nat → Nat}

theorem offset_mono {p q : Nat} (h : p ≤ q) : offset size p ≤ offset size q := by
  induction h with
  | refl => exact Nat.le_refl _
  | step _ ih => exact Nat.le_trans ih (Nat.le_add_right _ _)

/-- A place inside bucket `p` lies before every later bucket. -/
theorem offset_add_lt {p q r : Nat} (h : p < q) (hr : r < size p) :
    offset size p + r < offset size q := by
  have hnext : offset size (p + 1) ≤ offset size q := offset_mono h
  simp only [offset] at hnext
  omega

/-- Distinct buckets share no place. -/
theorem offset_inj {p q r t : Nat} (hr : r < size p) (ht : t < size q)
    (h : offset size p + r = offset size q + t) : p = q ∧ r = t := by
  rcases Nat.lt_trichotomy p q with hpq | rfl | hpq
  · have := offset_add_lt hpq hr
    omega
  · exact ⟨rfl, by omega⟩
  · have := offset_add_lt hpq ht
    omega

/-- Every place before bucket `m` lies in some bucket. -/
theorem exists_bucket_of_lt {k : Nat} :
    ∀ {m : Nat}, k < offset size m → ∃ p < m, ∃ r < size p, k = offset size p + r
  | 0, h => absurd h (Nat.not_lt_zero k)
  | m + 1, h => by
      rcases Nat.lt_or_ge k (offset size m) with hlt | hge
      · obtain ⟨p, hp, r, hr, hk⟩ := exists_bucket_of_lt hlt
        exact ⟨p, Nat.lt_succ_of_lt hp, r, hr, hk⟩
      · rw [offset] at h
        exact ⟨m, Nat.lt_succ_self m, k - offset size m, by omega, by omega⟩

/-- The buckets below `m` hold the indices with a key below `m`. -/
theorem offset_bucket (k m : Nat) :
    offset (fun p => (bucket key p k).length) m
      = ((List.range k).filter (key · < m)).length := by
  induction m with
  | zero => simp [offset]
  | succ m ih =>
      rw [offset, ih, bucket]
      simp only [← List.countP_eq_length_filter]
      induction List.range k with
      | nil => rfl
      | cons i is ihis =>
          simp only [List.countP_cons]
          have hsplit : (if decide (key i < m + 1) then 1 else 0)
              = (if decide (key i < m) then 1 else 0)
                + (if decide (key i = m) then 1 else 0) := by
            rcases Nat.lt_trichotomy (key i) m with h | h | h
            · simp [h, Nat.lt_succ_of_lt h, Nat.ne_of_lt h]
            · simp [h]
            · simp [Nat.not_lt.mpr (Nat.le_of_lt h), Nat.ne_of_gt h,
                Nat.not_lt.mpr (Nat.succ_le_of_lt h)]
          omega

/-! ## §4. Folding into cells. -/

section Accumulate

variable {ι β : Type}

/-- Join every item into the cell it belongs to, if any.  A cell out of bounds
is not stored to. -/
def accumulate (slot : ι → Option Nat) (join : β → ι → β) (d : β) (cells : List β)
    (items : List ι) : List β :=
  items.foldl
    (fun cells item =>
      match slot item with
      | none => cells
      | some k => cells.set k (join (cells.getD k d) item))
    cells

variable {slot : ι → Option Nat} {join : β → ι → β} {d : β}

/-- Each cell joins its own items, in the order of the pass. -/
theorem accumulate_table {n : Nat} : ∀ (items : List ι) (g : Nat → β),
    accumulate slot join d (table n g) items
      = table n fun k => (items.filter (slot · == some k)).foldl join (g k)
  | [], _ => rfl
  | item :: items, g => by
      have ih := accumulate_table (n := n) items
      show accumulate slot join d (match slot item with
        | none => table n g
        | some k => (table n g).set k (join ((table n g).getD k d) item)) items = _
      cases hslot : slot item with
      | none =>
          rw [ih]
          refine table_congr fun k _ => ?_
          rw [List.filter_cons_of_neg (by simp [hslot])]
      | some j =>
          by_cases hj : j < n
          · simp only [table_getD g d hj]
            rw [set_table g _ hj, ih]
            refine table_congr fun k _ => ?_
            by_cases hkj : k = j
            · subst hkj
              rw [Function.update_self, List.filter_cons_of_pos (by simp [hslot]),
                List.foldl_cons]
            · rw [Function.update_of_ne hkj,
                List.filter_cons_of_neg (by simp [hslot, Ne.symm hkj])]
          · have hout : (table n g).set j (join ((table n g).getD j d) item) = table n g :=
              List.set_eq_of_length_le (by simpa using hj)
            simp only [hout]
            rw [ih]
            refine table_congr fun k hk => ?_
            rw [List.filter_cons_of_neg (by simp [hslot, show j ≠ k by omega])]

/-- Cells whose joins commute do not depend on the order of the pass. -/
theorem accumulate_perm {n : Nat} {items items' : List ι} (g : Nat → β)
    (hcomm : ∀ b x y, join (join b x) y = join (join b y) x) (h : items.Perm items') :
    accumulate slot join d (table n g) items = accumulate slot join d (table n g) items' := by
  rw [accumulate_table, accumulate_table]
  refine table_congr fun k _ => ?_
  exact (h.filter _).foldl_eq' (fun x _ y _ b => hcomm b x y) _

/-- A running maximum bounds what it has seen and is the start or one of those. -/
theorem foldl_max_spec (f : ι → Nat) : ∀ (items : List ι) (v : Nat),
    let r := items.foldl (fun v item => if v < f item then f item else v) v
    v ≤ r ∧ (∀ item ∈ items, f item ≤ r) ∧ (r = v ∨ ∃ item ∈ items, r = f item)
  | [], v => ⟨Nat.le_refl v, nofun, Or.inl rfl⟩
  | item :: items, v => by
      obtain ⟨hstart, hbound, hattained⟩ :=
        foldl_max_spec f items (if v < f item then f item else v)
      have hstep : v ≤ (if v < f item then f item else v)
          ∧ f item ≤ (if v < f item then f item else v) := by
        split <;> omega
      refine ⟨Nat.le_trans hstep.1 hstart, fun x hx => ?_, ?_⟩
      · rcases List.mem_cons.mp hx with rfl | hx
        · exact Nat.le_trans hstep.2 hstart
        · exact hbound x hx
      · rcases hattained with hr | ⟨x, hx, hr⟩
        · by_cases hlt : v < f item
          · rw [if_pos hlt] at hr
            exact Or.inr ⟨item, List.mem_cons_self, by rw [List.foldl_cons, if_pos hlt]; exact hr⟩
          · rw [if_neg hlt] at hr
            exact Or.inl (by rw [List.foldl_cons, if_neg hlt]; exact hr)
        · exact Or.inr ⟨x, List.mem_cons_of_mem _ hx, hr⟩

end Accumulate

/-! ## §5. Counting up to an index. -/

/-- The counted indices are numbered without gaps. -/
theorem exists_countP_range {p : Nat → Bool} {k : Nat} :
    ∀ {n : Nat}, k < (List.range n).countP p → ∃ i < n, p i ∧ (List.range i).countP p = k
  | 0, h => absurd h (Nat.not_lt_zero k)
  | n + 1, h => by
      rcases Nat.lt_or_ge k ((List.range n).countP p) with hlt | hge
      · obtain ⟨i, hi, hp, hk⟩ := exists_countP_range hlt
        exact ⟨i, Nat.lt_succ_of_lt hi, hp, hk⟩
      · rw [List.range_succ, List.countP_append, List.countP_singleton] at h
        cases hp : p n with
        | false =>
            rw [hp, if_neg Bool.false_ne_true] at h
            omega
        | true =>
            rw [hp, if_pos rfl] at h
            exact ⟨n, Nat.lt_succ_self n, hp, by omega⟩

/-- A counted index has a smaller number than the count. -/
theorem countP_range_lt {p : Nat → Bool} {i n : Nat} (hi : i < n) (hp : p i) :
    (List.range i).countP p < (List.range n).countP p := by
  have hsub : List.Sublist (List.range (i + 1)) (List.range n) := List.range_sublist.mpr hi
  have hle := hsub.countP_le (p := p)
  rw [List.range_succ, List.countP_append, List.countP_singleton, if_pos hp] at hle
  omega

end YOrch.Library
