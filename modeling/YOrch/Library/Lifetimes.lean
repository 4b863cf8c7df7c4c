/-
  YOrch.Library.Lifetimes — logs of constructions and destructions.

  An event constructs an object in storage that may still hold one, or destroys
  what storage holds.  `stackAfter` replays a log, the latest event first, as a
  stack: a construction must find its storage empty, a destruction must end the
  lifetime of the object constructed last.  Where it succeeds, it yields the
  objects left, and:

    • `stackAfter_fresh` — nothing was constructed over a live object,
    • `stackAfter_suffix` — it succeeds at every earlier moment, too,
    • `stackAfter_count` — every object was destroyed as often as constructed,
      up to what is left of it.

  `Proper` asks for less: lifetimes of one object alternate, those of different
  objects may end in any order.
-/
import Mathlib.Tactic.Common

namespace YOrch.Library

/-- `std::construct_at` for an object, and `std::destroy_at`. -/
inductive Lifetime (α : Type) where
  | constructed (object : α) (onto : Option α)
  | destroyed (object : α) (held : Option α)
  deriving Repr, DecidableEq

namespace Lifetime

variable {α : Type}

/-- An event about an object finds that object or nothing in its storage. -/
def Own : Lifetime α → Prop
  | .constructed object onto => onto = none ∨ onto = some object
  | .destroyed object held => held = some object

variable [DecidableEq α]

/-- What an event makes of the live objects, the latest first. -/
def actOn : Lifetime α → List α → Option (List α)
  | .constructed object onto, stack => if onto = none then some (object :: stack) else none
  | .destroyed _ _, [] => none
  | .destroyed object held, top :: below =>
      if top = object ∧ held = some object then some below else none

/-- The objects a log leaves, if it treats them as a stack. -/
def stackAfter : List (Lifetime α) → Option (List α)
  | [] => some []
  | event :: log => (stackAfter log).bind event.actOn

/-- How often an object is constructed. -/
def constructions (a : α) (log : List (Lifetime α)) : Nat :=
  log.countP fun
    | .constructed object _ => object = a
    | .destroyed .. => false

/-- How often an object is destroyed. -/
def destructions (a : α) (log : List (Lifetime α)) : Nat :=
  log.countP fun
    | .constructed .. => false
    | .destroyed object _ => object = a

theorem constructions_cons_constructed (a object : α) (onto : Option α) (log : List (Lifetime α)) :
    constructions a (.constructed object onto :: log)
      = constructions a log + if object = a then 1 else 0 := by
  unfold constructions
  rw [List.countP_cons]
  simp only [decide_eq_true_eq]

theorem constructions_cons_destroyed (a object : α) (held : Option α) (log : List (Lifetime α)) :
    constructions a (.destroyed object held :: log) = constructions a log := by
  unfold constructions
  rw [List.countP_cons]
  rfl

variable {log : List (Lifetime α)} {stack : List α} {object : α}

theorem stackAfter_constructed (h : stackAfter log = some stack) :
    stackAfter (.constructed object none :: log) = some (object :: stack) := by
  rw [stackAfter, h]
  rfl

theorem stackAfter_destroyed (h : stackAfter log = some (object :: stack)) :
    stackAfter (.destroyed object (some object) :: log) = some stack := by
  rw [stackAfter, h]
  exact if_pos ⟨rfl, rfl⟩

/-- One event back. -/
theorem stackAfter_cons {event : Lifetime α} (h : stackAfter (event :: log) = some stack) :
    ∃ before, stackAfter log = some before ∧ event.actOn before = some stack :=
  Option.bind_eq_some_iff.mp h

/-- The two ways an event can act. -/
theorem actOn_cases {event : Lifetime α} {before : List α} (h : event.actOn before = some stack) :
    (∃ object, event = .constructed object none ∧ stack = object :: before)
      ∨ ∃ object, event = .destroyed object (some object) ∧ before = object :: stack := by
  cases event with
  | constructed object onto =>
      simp only [actOn] at h
      split_ifs at h with hover
      subst hover
      exact Or.inl ⟨object, rfl, (Option.some.inj h).symm⟩
  | destroyed object held =>
      cases before with
      | nil => cases h
      | cons top below =>
          simp only [actOn] at h
          split_ifs at h with htop
          obtain ⟨rfl, rfl⟩ := htop
          exact Or.inr ⟨top, rfl, by rw [Option.some.inj h]⟩

theorem stackAfter_fresh : ∀ {log : List (Lifetime α)} {stack : List α},
    stackAfter log = some stack → ∀ object onto, .constructed object onto ∈ log → onto = none
  | event :: log, stack, h, object, onto, hmem => by
      obtain ⟨before, hbefore, hact⟩ := stackAfter_cons h
      rcases List.mem_cons.mp hmem with rfl | hmem
      · rcases actOn_cases hact with ⟨_, heq, -⟩ | ⟨_, heq, -⟩
        · exact (Lifetime.constructed.inj heq).2
        · cases heq
      · exact stackAfter_fresh hbefore object onto hmem

theorem stackAfter_suffix : ∀ {log earlier : List (Lifetime α)} {stack : List α},
    earlier <:+ log → stackAfter log = some stack → ∃ before, stackAfter earlier = some before
  | [], _, stack, hsuffix, h => by
      rw [List.suffix_nil.mp hsuffix]
      exact ⟨stack, h⟩
  | event :: log, _, stack, hsuffix, h => by
      rcases List.suffix_cons_iff.mp hsuffix with rfl | hsuffix
      · exact ⟨stack, h⟩
      · obtain ⟨before, hbefore, -⟩ := stackAfter_cons h
        exact stackAfter_suffix hsuffix hbefore

theorem stackAfter_count (a : α) : ∀ {log : List (Lifetime α)} {stack : List α},
    stackAfter log = some stack → constructions a log = destructions a log + stack.count a
  | [], stack, h => by
      obtain rfl := Option.some.inj h
      rfl
  | event :: log, stack, h => by
      obtain ⟨before, hbefore, hact⟩ := stackAfter_cons h
      have ih := stackAfter_count a hbefore
      unfold constructions destructions at ih ⊢
      rw [List.countP_cons, List.countP_cons]
      -- a construction pushes its object, a destruction pops it
      rcases actOn_cases hact with ⟨object, rfl, rfl⟩ | ⟨object, rfl, rfl⟩
      · rw [List.count_cons]
        simp only [beq_iff_eq, decide_eq_true_eq, Bool.false_eq_true, if_false]
        omega
      · rw [List.count_cons] at ih
        simp only [beq_iff_eq, decide_eq_true_eq, Bool.false_eq_true, if_false] at ih ⊢
        omega

/-! ## Lifetimes that end in any order. -/

/-- Whether a log leaves an object live. -/
def isLive (a : α) : List (Lifetime α) → Bool
  | [] => false
  | .constructed object _ :: log => decide (object = a) || isLive a log
  | .destroyed object _ :: log => !decide (object = a) && isLive a log

/-- Every construction is of a dead object in empty storage, every destruction
of the live object its storage holds. -/
def Proper : List (Lifetime α) → Prop
  | [] => True
  | .constructed object onto :: log => (onto = none ∧ isLive object log = false) ∧ Proper log
  | .destroyed object held :: log => (held = some object ∧ isLive object log = true) ∧ Proper log

/-- An object was destroyed as often as constructed, unless it is still live. -/
theorem Proper.count (a : α) : ∀ {log : List (Lifetime α)}, Proper log →
    constructions a log = destructions a log + (isLive a log).toNat
  | [], _ => rfl
  | .constructed object onto :: log, h => by
      have ih := Proper.count a h.2
      unfold constructions destructions at ih ⊢
      rw [List.countP_cons, List.countP_cons, isLive]
      by_cases ho : object = a
      · have hdead := h.1.2
        rw [ho] at hdead
        simp only [ho, hdead, decide_true, Bool.true_or, Bool.toNat_true, Bool.toNat_false] at ih ⊢
        simp only [Bool.false_eq_true, if_true, if_false]
        omega
      · simp only [ho, decide_false, Bool.false_or, Bool.false_eq_true, if_false]
        omega
  | .destroyed object held :: log, h => by
      have ih := Proper.count a h.2
      unfold constructions destructions at ih ⊢
      rw [List.countP_cons, List.countP_cons, isLive]
      by_cases ho : object = a
      · have hlive := h.1.2
        rw [ho] at hlive
        simp only [ho, hlive, decide_true, Bool.not_true, Bool.false_and, Bool.toNat_true,
          Bool.toNat_false] at ih ⊢
        simp only [Bool.false_eq_true, if_true, if_false]
        omega
      · simp only [ho, decide_false, Bool.not_false, Bool.true_and, Bool.false_eq_true, if_false]
        omega

/-- An event that ends a lifetime. -/
def IsDestruction : Lifetime α → Prop
  | .constructed _ _ => False
  | .destroyed _ _ => True

theorem constructions_append (a : α) (later log : List (Lifetime α)) :
    constructions a (later ++ log) = constructions a later + constructions a log :=
  List.countP_append

/-- Destructions construct nothing. -/
theorem constructions_of_destructions {log : List (Lifetime α)} (h : ∀ e ∈ log, e.IsDestruction)
    (a : α) : constructions a log = 0 := by
  apply List.countP_eq_zero.mpr
  intro event hmem
  have hevent := h event hmem
  cases event with
  | constructed object onto => exact absurd hevent id
  | destroyed object held => simp

/-- What was never constructed is not live. -/
theorem isLive_of_constructions {a : α} : ∀ {log : List (Lifetime α)},
    constructions a log = 0 → isLive a log = false
  | [], _ => rfl
  | .constructed object onto :: log, h => by
      unfold constructions at h
      rw [List.countP_cons] at h
      have ho : ¬ object = a := by
        intro ho
        simp [ho] at h
      have hrest : constructions a log = 0 := by
        unfold constructions
        omega
      rw [isLive, isLive_of_constructions hrest]
      simp [ho]
  | .destroyed object held :: log, h => by
      unfold constructions at h
      rw [List.countP_cons] at h
      have hrest : constructions a log = 0 := by
        unfold constructions
        omega
      rw [isLive, isLive_of_constructions hrest, Bool.and_false]

end Lifetime

end YOrch.Library
