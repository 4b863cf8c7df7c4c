/-
  YOrch.Library.Forest — ordered forests and their preorder depth sequences.

  A forest is empty, or a first tree (a root label with a forest of children)
  followed by the remaining trees, so one structural recursion walks children
  and siblings alike.  Nothing here mentions task trees:

    • `depths` lists the depth of every node in preorder; `exists_of_depths`
      says which lists arise that way, `depths_inj` that no two shapes share one,
    • `Parented par q f` says a parent function agrees with `f` hung below `q`,
      `Spanned ch f` that a child-list function does,
    • `spanned_filter` turns the first into the second: collecting, in preorder,
      the nodes with a given parent yields exactly that node's children,
    • `unfold_roots` rebuilds a spanned forest from its child lists,
    • `SameWhile keep f g` says two forests agree up to the first node outside
      `keep`.
-/
import Mathlib.Data.List.Basic
import Mathlib.Data.List.Nodup
import Mathlib.Data.List.Chain
import Mathlib.Data.List.TakeWhile
import Mathlib.Tactic.Common

namespace YOrch.Library

/-- An ordered forest with labels in `α`. -/
inductive Forest (α : Type) where
  | nil : Forest α
  /-- A first tree rooted at `a`, then the remaining trees `siblings`. -/
  | cons (a : α) (children siblings : Forest α) : Forest α
  deriving Repr, DecidableEq

namespace Forest

variable {α : Type}

/-! ## §1. Traversals. -/

/-- Number of nodes. -/
def size : Forest α → Nat
  | nil => 0
  | cons _ c s => size c + size s + 1

/-- The labels of the top-level trees, left to right. -/
def roots : Forest α → List α
  | nil => []
  | cons a _ s => a :: roots s

/-- All labels, parents before children, left to right. -/
def preorder : Forest α → List α
  | nil => []
  | cons a c s => a :: (preorder c ++ preorder s)

/-- The depth of every node in preorder, the top-level trees being at depth `d`. -/
def depths : Nat → Forest α → List Nat
  | _, nil => []
  | d, cons _ c s => d :: (depths (d + 1) c ++ depths d s)

/-- The same forest with other labels. -/
def map {β : Type} (g : α → β) : Forest α → Forest β
  | nil => nil
  | cons a c s => cons (g a) (map g c) (map g s)

@[simp] theorem preorder_nil : preorder (nil : Forest α) = [] := rfl
@[simp] theorem preorder_cons (a : α) (c s : Forest α) :
    preorder (cons a c s) = a :: (preorder c ++ preorder s) := rfl
@[simp] theorem depths_nil (d : Nat) : depths d (nil : Forest α) = [] := rfl
@[simp] theorem depths_cons (d : Nat) (a : α) (c s : Forest α) :
    depths d (cons a c s) = d :: (depths (d + 1) c ++ depths d s) := rfl
@[simp] theorem roots_nil : roots (nil : Forest α) = [] := rfl
@[simp] theorem roots_cons (a : α) (c s : Forest α) :
    roots (cons a c s) = a :: roots s := rfl

/-- What holds of every label holds of the root's and of those on either side. -/
theorem forall_preorder_cons {P : α → Prop} {a : α} {c s : Forest α} :
    (∀ b ∈ (cons a c s).preorder, P b)
      ↔ P a ∧ (∀ b ∈ c.preorder, P b) ∧ ∀ b ∈ s.preorder, P b := by
  rw [preorder_cons, List.forall_mem_cons, List.forall_mem_append]

theorem preorder_map {β : Type} (g : α → β) (f : Forest α) :
    (f.map g).preorder = f.preorder.map g := by
  induction f with
  | nil => rfl
  | cons a c s ihc ihs => simp [map, ihc, ihs]

theorem depths_map {β : Type} (g : α → β) (f : Forest α) :
    ∀ d, (f.map g).depths d = f.depths d := by
  induction f with
  | nil => intro d; rfl
  | cons a c s ihc ihs => intro d; simp [map, ihc, ihs]

theorem preorder_length (f : Forest α) : f.preorder.length = f.size := by
  induction f with
  | nil => rfl
  | cons a c s ihc ihs => simp [size, ihc, ihs]

theorem depths_length (f : Forest α) : ∀ d, (f.depths d).length = f.size := by
  induction f with
  | nil => intro d; rfl
  | cons a c s ihc ihs => intro d; simp [size, ihc, ihs]

theorem le_of_mem_depths (f : Forest α) :
    ∀ {d l : Nat}, l ∈ f.depths d → d ≤ l := by
  induction f with
  | nil => intro d l h; cases h
  | cons a c s ihc ihs =>
      intro d l h
      rcases List.mem_cons.mp h with rfl | h
      · exact Nat.le_refl _
      rcases List.mem_append.mp h with h | h
      · exact Nat.le_of_succ_le (ihc h)
      · exact ihs h

/-! ## §2. Which lists are depth sequences. -/

/-- The lists that read off a forest at depth `d`: they start at `d`, never go
below it, and never deepen by more than one. -/
structure DepthSeq (d : Nat) (ls : List Nat) : Prop where
  head : ∀ l ∈ ls.head?, l = d
  bound : ∀ l ∈ ls, d ≤ l
  chain : ls.IsChain (fun a b => b ≤ a + 1)

theorem depths_head? (f : Forest α) (d : Nat) : ∀ l ∈ (f.depths d).head?, l = d := by
  cases f with
  | nil => intro l h; cases h
  | cons a c s => intro l h; simpa using h.symm

/-- The last depth of a nonempty forest is at least that of its top level. -/
theorem depths_isChain (f : Forest α) :
    ∀ d, (f.depths d).IsChain (fun a b => b ≤ a + 1) := by
  induction f with
  | nil => intro d; exact List.isChain_nil
  | cons a c s ihc ihs =>
      intro d
      rw [depths_cons, List.isChain_cons]
      refine ⟨?_, ?_⟩
      · intro l hl
        cases c with
        | nil =>
            have := depths_head? s d l (by simpa using hl)
            omega
        | cons b c' s' =>
            have : l = d + 1 := by simpa using hl.symm
            omega
      · rw [List.isChain_append]
        refine ⟨ihc (d + 1), ihs d, ?_⟩
        intro x hx y hy
        have hx' : d + 1 ≤ x := le_of_mem_depths c (List.mem_of_getLast? hx)
        have hy' : y = d := depths_head? s d y hy
        omega

theorem depthSeq_depths (f : Forest α) (d : Nat) : DepthSeq d (f.depths d) :=
  ⟨depths_head? f d, fun _ h => le_of_mem_depths f h, depths_isChain f d⟩

/-- The children of the first node: everything up to the next entry at its own
depth. -/
theorem DepthSeq.takeWhile {d : Nat} {ls : List Nat} (h : DepthSeq d (d :: ls)) :
    DepthSeq (d + 1) (ls.takeWhile (d < ·)) := by
  have hchain := List.isChain_cons.mp h.chain
  refine ⟨?_, ?_, ?_⟩
  · intro l hl
    cases ls with
    | nil => cases hl
    | cons b rest =>
        by_cases hb : d < b
        · have hbl : b = l := by simpa [List.takeWhile, hb] using hl
          have hstep : b ≤ d + 1 := hchain.1 b (by simp)
          omega
        · simp [List.takeWhile, hb] at hl
  · intro l hl
    have := List.mem_takeWhile_imp hl
    have hdl : d < l := by simpa using this
    omega
  · exact List.IsChain.prefix hchain.2 (List.takeWhile_prefix _)

/-- The siblings of the first node: everything from the next entry at its own
depth. -/
theorem DepthSeq.dropWhile {d : Nat} {ls : List Nat} (h : DepthSeq d (d :: ls)) :
    DepthSeq d (ls.dropWhile (d < ·)) := by
  have hsuffix : ls.dropWhile (d < ·) <:+ ls := List.dropWhile_suffix _
  refine ⟨?_, ?_, ?_⟩
  · intro l hl
    have hnot := List.head?_dropWhile_not (d < ·) ls
    have hmem : l ∈ ls := hsuffix.mem (List.mem_of_head? hl)
    have hge : d ≤ l := h.bound l (List.mem_cons_of_mem _ hmem)
    rw [Option.mem_def.mp hl] at hnot
    have hle : l ≤ d := by simpa using hnot
    omega
  · intro l hl
    exact h.bound l (List.mem_cons_of_mem _ (hsuffix.mem hl))
  · exact (List.isChain_cons.mp h.chain).2.suffix hsuffix

/-- **Every depth sequence is read off a forest**, carrying any labels given in
preorder. -/
theorem exists_of_depths :
    ∀ (n : Nat) (ls : List Nat) (as : List α) (d : Nat),
      ls.length = n → as.length = n → DepthSeq d ls →
      ∃ f : Forest α, f.preorder = as ∧ f.depths d = ls := by
  intro n
  induction n using Nat.strong_induction_on with
  | _ n ih =>
      intro ls as d hls has h
      match ls, as with
      | [], [] => exact ⟨nil, rfl, rfl⟩
      | [], _ :: _ => simp at hls has; omega
      | _ :: _, [] => simp at hls has; omega
      | l :: ls, a :: as =>
          obtain rfl : l = d := h.head l (by simp)
          have hsplit := List.takeWhile_append_dropWhile (p := (l < ·)) (l := ls)
          have hlen : (ls.takeWhile (l < ·)).length + (ls.dropWhile (l < ·)).length
              = ls.length := by
            rw [← List.length_append, hsplit]
          simp only [List.length_cons] at hls has
          set m := (ls.takeWhile (l < ·)).length with hm
          obtain ⟨c, hcp, hcd⟩ := ih m (by omega) _ (as.take m) (l + 1) hm.symm
            (by rw [List.length_take]; omega) h.takeWhile
          obtain ⟨s, hsp, hsd⟩ := ih (ls.dropWhile (l < ·)).length (by omega) _
            (as.drop m) l rfl (by rw [List.length_drop]; omega) h.dropWhile
          refine ⟨cons a c s, ?_, ?_⟩
          · rw [preorder_cons, hcp, hsp, List.take_append_drop]
          · rw [depths_cons, hcd, hsd, hsplit]

/-- **A shape is determined by its depth sequence**: two forests with the same
labels in preorder and the same depths are equal. -/
theorem depths_inj :
    ∀ (f g : Forest α) (d : Nat),
      f.depths d = g.depths d → f.preorder = g.preorder → f = g
  | nil, nil, _, _, _ => rfl
  | nil, cons _ _ _, _, h, _ => by simp at h
  | cons _ _ _, nil, _, h, _ => by simp at h
  | cons a c s, cons b c' s', d, h, hp => by
      simp only [depths_cons, List.cons.injEq, true_and, preorder_cons] at h hp
      -- the children are the longest prefix deeper than `d`
      have hpre : ∀ (c s : Forest α),
          (depths (d + 1) c ++ depths d s).takeWhile (d < ·) = depths (d + 1) c := by
        intro c s
        rw [List.takeWhile_append_of_pos]
        · cases s <;> simp
        · intro l hl
          have hl' : d < l := le_of_mem_depths c hl
          simpa using hl'
      have hc : depths (d + 1) c = depths (d + 1) c' := by
        rw [← hpre c s, h, hpre c' s']
      have hs : depths d s = depths d s' := by
        rw [hc] at h
        exact List.append_cancel_left h
      have hlen : c.preorder.length = c'.preorder.length := by
        rw [preorder_length, preorder_length, ← depths_length c (d + 1), hc, depths_length]
      obtain ⟨hcp, hsp⟩ := List.append_inj hp.2 hlen
      rw [hp.1, depths_inj c c' (d + 1) hc hcp, depths_inj s s' d hs hsp]

/-! ## §3. Parent functions and child lists. -/

/-- `par` is the parent function of `f` hung below `q`. -/
def Parented (par : α → α) : α → Forest α → Prop
  | _, nil => True
  | q, cons a c s => par a = q ∧ Parented par a c ∧ Parented par q s

/-- `ch` lists the children of every node of `f`, left to right. -/
def Spanned (ch : α → List α) : Forest α → Prop
  | nil => True
  | cons a c s => ch a = roots c ∧ Spanned ch c ∧ Spanned ch s

/-- A parent is `q` or lies in the forest. -/
theorem Parented.mem {par : α → α} :
    ∀ {f : Forest α} {q : α}, Parented par q f →
      ∀ x ∈ f.preorder, par x = q ∨ par x ∈ f.preorder
  | nil, _, _, _, hx => by cases hx
  | cons a c s, q, h, x, hx => by
      obtain ⟨ha, hc, hs⟩ := h
      simp only [preorder_cons, List.mem_cons, List.mem_append] at hx ⊢
      rcases hx with rfl | hx | hx
      · exact Or.inl ha
      · rcases hc.mem x hx with h | h
        · exact Or.inr (Or.inl h)
        · exact Or.inr (Or.inr (Or.inl h))
      · rcases hs.mem x hx with h | h
        · exact Or.inl h
        · exact Or.inr (Or.inr (Or.inr h))

theorem Spanned.congr {ch ch' : α → List α} :
    ∀ {f : Forest α}, Spanned ch f → (∀ x ∈ f.preorder, ch x = ch' x) → Spanned ch' f
  | nil, _, _ => trivial
  | cons a c s, h, hch => by
      obtain ⟨ha, hc, hs⟩ := h
      refine ⟨?_, ?_, ?_⟩
      · rw [← hch a List.mem_cons_self, ha]
      · exact hc.congr fun x hx =>
          hch x (List.mem_cons_of_mem _ (List.mem_append_left _ hx))
      · exact hs.congr fun x hx =>
          hch x (List.mem_cons_of_mem _ (List.mem_append_right _ hx))

/-- The forest below a list of nodes, unfolded through child lists to the given
number of steps. -/
def unfold (ch : α → List α) : Nat → List α → Forest α
  | 0, _ => nil
  | _ + 1, [] => nil
  | n + 1, a :: as => cons a (unfold ch n (ch a)) (unfold ch n as)

/-- **A spanned forest is the unfolding of its roots.** -/
theorem unfold_roots {ch : α → List α} :
    ∀ (f : Forest α) (n : Nat), Spanned ch f → f.size < n → unfold ch n f.roots = f
  | nil, n + 1, _, _ => rfl
  | cons a c s, n + 1, h, hn => by
      obtain ⟨ha, hc, hs⟩ := h
      simp only [size] at hn
      rw [roots_cons, unfold, ha, unfold_roots c n hc (by omega),
        unfold_roots s n hs (by omega)]

/-- The forests are the same, in preorder, up to the first label `keep` rejects. -/
def SameWhile (keep : α → Bool) : Forest α → Forest α → Prop
  | nil, nil => True
  | nil, cons b _ _ => keep b = false
  | cons a _ _, nil => keep a = false
  | cons a c s, cons b d t =>
      keep a = false ∨ keep b = false ∨ a = b ∧ SameWhile keep c d ∧ SameWhile keep s t

/-- Unfolding child lists that are the same so far. -/
theorem SameWhile.unfold {keep : α → Bool} {ch ch' : α → List α}
    (hch : ∀ a, keep a → (ch a).takeWhile keep = (ch' a).takeWhile keep) :
    ∀ (n : Nat) (as bs : List α), as.takeWhile keep = bs.takeWhile keep →
      SameWhile keep (unfold ch n as) (unfold ch' n bs)
  | 0, _, _, _ => trivial
  | _ + 1, [], [], _ => trivial
  | _ + 1, [], b :: _, h => by
      show keep b = false
      by_contra hb
      rw [List.takeWhile_cons_of_pos (by simpa using hb)] at h
      cases h
  | _ + 1, a :: _, [], h => by
      show keep a = false
      by_contra ha
      rw [List.takeWhile_cons_of_pos (by simpa using ha)] at h
      cases h
  | n + 1, a :: as, b :: bs, h => by
      cases ha : keep a with
      | false => exact Or.inl ha
      | true =>
          cases hb : keep b with
          | false => exact Or.inr (Or.inl hb)
          | true =>
              rw [List.takeWhile_cons_of_pos ha, List.takeWhile_cons_of_pos hb,
                List.cons.injEq] at h
              obtain ⟨rfl, h⟩ := h
              exact Or.inr (Or.inr ⟨rfl, SameWhile.unfold hch n _ _ (hch a ha),
                SameWhile.unfold hch n as bs h⟩)

/-! ## §4. Collecting nodes by their parent. -/

variable [DecidableEq α]

/-- Nodes outside a forest have no children in it. -/
theorem Parented.filter_eq_nil {par : α → α} {f : Forest α} {q x : α}
    (h : Parented par q f) (hq : x ≠ q) (hx : x ∉ f.preorder) :
    f.preorder.filter (par · = x) = [] := by
  rw [List.filter_eq_nil_iff]
  intro y hy hxy
  have hxy : par y = x := by simpa using hxy
  rcases h.mem y hy with h' | h'
  · exact hq (hxy.symm.trans h')
  · exact hx (hxy ▸ h')

/-- The nodes hung directly below `q` are the roots. -/
theorem Parented.filter_top {par : α → α} :
    ∀ {f : Forest α} {q : α}, Parented par q f → (q :: f.preorder).Nodup →
      f.preorder.filter (par · = q) = f.roots
  | nil, _, _, _ => rfl
  | cons a c s, q, h, hnd => by
      obtain ⟨ha, hc, hs⟩ := h
      simp only [preorder_cons, List.nodup_cons, List.nodup_append, List.mem_cons,
        List.mem_append, not_or] at hnd
      obtain ⟨⟨hqa, hqc, hqs⟩, -, -, hnds, -⟩ := hnd
      rw [preorder_cons, List.filter_cons_of_pos (by simpa using ha), List.filter_append,
        hc.filter_eq_nil hqa hqc, hs.filter_top (List.nodup_cons.mpr ⟨hqs, hnds⟩)]
      rfl

/-- **Collecting nodes by parent recovers the child lists.**  `pre` and `post`
are the parts of the whole preorder around `f`; no node there may have its
parent inside `f`. -/
theorem spanned_filter {par : α → α} :
    ∀ (f : Forest α) (q : α) (pre post : List α),
      Parented par q f → (q :: f.preorder).Nodup →
      (∀ x ∈ f.preorder, pre.filter (par · = x) = []) →
      (∀ x ∈ f.preorder, post.filter (par · = x) = []) →
      Spanned (fun x => (pre ++ f.preorder ++ post).filter (par · = x)) f
  | nil, _, _, _, _, _, _, _ => trivial
  | cons a c s, q, pre, post, h, hnd, hpre, hpost => by
      obtain ⟨ha, hc, hs⟩ := h
      simp only [preorder_cons, List.nodup_cons, List.nodup_append, List.mem_cons,
        List.mem_append, not_or] at hnd
      obtain ⟨⟨hqa, hqc, hqs⟩, ⟨hac, has⟩, hndc, hnds, hcs⟩ := hnd
      have hmem : ∀ {x}, x ∈ c.preorder ∨ x ∈ s.preorder →
          x ∈ (cons a c s).preorder := by
        intro x hx
        exact List.mem_cons_of_mem _ (List.mem_append.mpr hx)
      have hca : ∀ x ∈ c.preorder, x ∉ s.preorder := fun x hx hx' => hcs x hx x hx' rfl
      refine ⟨?_, ?_, ?_⟩
      · -- the children of `a` all lie in `c`
        show (pre ++ (a :: (c.preorder ++ s.preorder)) ++ post).filter (par · = a) = c.roots
        have hqa' : ¬ (par a = a) := fun hp => hqa (ha.symm.trans hp)
        rw [List.filter_append, List.filter_append, hpre a List.mem_cons_self,
          hpost a List.mem_cons_self, List.filter_cons_of_neg (by simpa using hqa'),
          List.filter_append, hc.filter_top (List.nodup_cons.mpr ⟨hac, hndc⟩),
          hs.filter_eq_nil (fun h => hqa h.symm) has]
        simp
      · -- below `a`, whose later siblings are part of what follows
        have key := spanned_filter c a (pre ++ [a]) (s.preorder ++ post) hc
          (List.nodup_cons.mpr ⟨hac, hndc⟩)
          (by
            intro x hx
            have hne : ¬ (par a = x) := fun hp => hqc (ha.symm.trans hp ▸ hx)
            rw [List.filter_append, hpre x (hmem (Or.inl hx)),
              List.filter_cons_of_neg (by simpa using hne)]
            rfl)
          (by
            intro x hx
            have hne : x ≠ q := fun he => hqc (he ▸ hx)
            rw [List.filter_append, hpost x (hmem (Or.inl hx)),
              hs.filter_eq_nil hne (hca x hx)]
            rfl)
        simpa [List.append_assoc] using key
      · -- beside `a`, whose subtree is part of what came before
        have key := spanned_filter s q (pre ++ a :: c.preorder) post hs
          (List.nodup_cons.mpr ⟨hqs, hnds⟩)
          (by
            intro x hx
            have hne : ¬ (par a = x) := fun hp => hqs (ha.symm.trans hp ▸ hx)
            have hxa : x ≠ a := fun he => has (he ▸ hx)
            rw [List.filter_append, hpre x (hmem (Or.inr hx)),
              List.filter_cons_of_neg (by simpa using hne),
              hc.filter_eq_nil hxa (fun hx' => hca x hx' hx)]
            rfl)
          (fun x hx => hpost x (hmem (Or.inr hx)))
        simpa [List.append_assoc] using key

end Forest

end YOrch.Library
