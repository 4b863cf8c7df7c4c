/-
  YOrch.Storage.Memory — storages and the objects in them.

  Storages have addresses.  Beside `engaged_`, which the code keeps, each has the
  object that is really live in its bytes; only `std::construct_at` and
  `std::destroy_at` change that, and they are logged.  Every object is told apart
  from all others by a serial number.

    • `Memory.Valid` — objects are accounted for and flags are the truth,
    • `Valid.emplaced`, `Valid.destroyed` — so they are after an object was
      constructed in empty storage or destroyed, once the flag is set.
-/
import Mathlib.Logic.Function.Basic
import YOrch.Library.Lifetimes

namespace YOrch

open Library

variable {V : Type}

/-! ## §1. Memory. -/

/-- The object constructed as number `serial`, in the storage at `address`. -/
structure StoredObject where
  address : Nat
  serial : Nat
  deriving Repr, DecidableEq

/-- A `maybe_storage`: the serial number and value of the object in its bytes, and
`engaged_`. -/
structure MaybeStorage (V : Type) where
  held : Option (Nat × V) := none
  engaged : Bool := false

/-- The storages there are, the number of objects constructed, their lifetimes,
and whether nothing undefined has happened. -/
structure Memory (V : Type) where
  storages : Nat → Option (MaybeStorage V) := fun _ => none
  serial : Nat := 0
  log : List (Lifetime StoredObject) := []
  defined : Bool := true

namespace Memory

variable (m : Memory V)

/-- What the storage at `a` holds. -/
def heldAt (a : Nat) : Option (Nat × V) := (m.storages a).bind (·.held)

/-- `has_value` of the storage at `a`. -/
def engagedAt (a : Nat) : Bool := (m.storages a).any (·.engaged)

/-- The value of the object in the storage at `a`. -/
def valueAt (a : Nat) : Option V := (m.heldAt a).map (·.2)

/-- The object in the storage at `a`. -/
def objectAt (a : Nat) : Option StoredObject := (m.heldAt a).map fun held => ⟨a, held.1⟩

/-- Change the storage at `a`. -/
def alter (a : Nat) (f : MaybeStorage V → MaybeStorage V) : Memory V :=
  { m with storages := Function.update m.storages a ((m.storages a).map f) }

/-- A new value of the object in the storage at `a`. -/
def setValue (a : Nat) (v : V) : Memory V :=
  m.alter a fun st => { st with held := st.held.map fun held => (held.1, v) }

/-- `engaged_ = …`. -/
def setEngaged (a : Nat) (engaged : Bool) : Memory V := m.alter a fun st => { st with engaged }

/-- `std::construct_at`, once the constructor has returned. -/
def constructAt (a : Nat) (v : V) : Memory V :=
  { m.alter a fun st => { st with held := some (m.serial, v) } with
    serial := m.serial + 1
    log := .constructed ⟨a, m.serial⟩ (m.objectAt a) :: m.log }

/-- `std::destroy_at`, once the destructor has returned. -/
def destroyAt (a : Nat) : Memory V :=
  match m.objectAt a with
  | none => { m with defined := false }
  | some object =>
      { m.alter a fun st => { st with held := none } with
        log := .destroyed object (some object) :: m.log }

/-- A storage comes to be, empty. -/
def create (a : Nat) : Memory V := { m with storages := Function.update m.storages a (some {}) }

/-- A storage ceases to be. -/
def remove (a : Nat) : Memory V := { m with storages := Function.update m.storages a none }

variable {m}

/-- There is no object where there is no storage. -/
theorem heldAt_none {a : Nat} (h : m.storages a = none) : m.heldAt a = none := by
  unfold heldAt
  rw [h]
  rfl

/-- An object is in a storage. -/
theorem exists_of_objectAt {a : Nat} {object : StoredObject} (h : m.objectAt a = some object) :
    m.storages a ≠ none := by
  intro hnone
  unfold objectAt at h
  rw [heldAt_none hnone] at h
  cases h

theorem valueAt_some {a : Nat} {held : Nat × V} (h : m.heldAt a = some held) :
    m.valueAt a = some held.2 := by
  unfold valueAt
  rw [h]
  rfl

theorem objectAt_some {a : Nat} {held : Nat × V} (h : m.heldAt a = some held) :
    m.objectAt a = some ⟨a, held.1⟩ := by
  unfold objectAt
  rw [h]
  rfl

theorem objectAt_none {a : Nat} (h : m.heldAt a = none) : m.objectAt a = none := by
  unfold objectAt
  rw [h]
  rfl

/-- An object is in its own storage. -/
theorem objectAt_address {a : Nat} {object : StoredObject} (h : m.objectAt a = some object) :
    object.address = a := by
  unfold objectAt at h
  obtain ⟨held, -, rfl⟩ := Option.map_eq_some_iff.mp h
  rfl

/-- No change makes or ends a storage. -/
theorem exists_alter (a a' : Nat) (f : MaybeStorage V → MaybeStorage V) :
    (m.alter a f).storages a' = none ↔ m.storages a' = none := by
  show Function.update m.storages a ((m.storages a).map f) a' = none ↔ _
  by_cases h : a' = a
  · rw [h, Function.update_self, Option.map_eq_none_iff]
  · rw [Function.update_of_ne h]

/-- A new storage is there. -/
theorem exists_create (a : Nat) : (m.create a).storages a ≠ none := by
  show Function.update m.storages a (some {}) a ≠ none
  rw [Function.update_self]
  nofun

/-- A removed one is gone. -/
theorem not_exists_remove (a : Nat) : (m.remove a).storages a = none := by
  show Function.update m.storages a none a = none
  rw [Function.update_self]

/-- One storage replaced. -/
theorem heldAt_update {m' : Memory V} {a : Nat} {st : Option (MaybeStorage V)}
    (h : m'.storages = Function.update m.storages a st) :
    m'.heldAt = Function.update m.heldAt a (st.bind (·.held)) := by
  funext a'
  unfold heldAt
  rw [h]
  by_cases ha : a' = a
  · subst ha
    rw [Function.update_self, Function.update_self]
  · rw [Function.update_of_ne ha, Function.update_of_ne ha]

/-- Flags, after one storage was replaced. -/
theorem engagedAt_update {m' : Memory V} {a : Nat} {st : Option (MaybeStorage V)}
    (h : m'.storages = Function.update m.storages a st) :
    m'.engagedAt = Function.update m.engagedAt a (st.any (·.engaged)) := by
  funext a'
  unfold engagedAt
  rw [h]
  by_cases ha : a' = a
  · subst ha
    rw [Function.update_self, Function.update_self]
  · rw [Function.update_of_ne ha, Function.update_of_ne ha]

/-- A change that leaves `engaged_`. -/
theorem engagedAt_same {m' : Memory V} {a : Nat} {f : MaybeStorage V → MaybeStorage V}
    (h : m'.storages = Function.update m.storages a ((m.storages a).map f))
    (hf : ∀ st, (f st).engaged = st.engaged) : m'.engagedAt = m.engagedAt := by
  rw [engagedAt_update h]
  have hsame : ((m.storages a).map f).any (·.engaged) = m.engagedAt a := by
    unfold engagedAt
    cases m.storages a with
    | none => rfl
    | some st => exact hf st
  rw [hsame, Function.update_eq_self]

/-- An assignment keeps the object, with another value. -/
@[simp] theorem heldAt_setValue (a : Nat) (v : V) :
    (m.setValue a v).heldAt
      = Function.update m.heldAt a ((m.heldAt a).map fun held => (held.1, v)) := by
  rw [heldAt_update (a := a) rfl]
  unfold heldAt
  cases m.storages a <;> rfl

/-- And it does not touch the flag. -/
@[simp] theorem engagedAt_setValue (a : Nat) (v : V) :
    (m.setValue a v).engagedAt = m.engagedAt :=
  engagedAt_same rfl fun _ => rfl

/-- The flag says nothing about what is held. -/
@[simp] theorem heldAt_setEngaged (a : Nat) (engaged : Bool) :
    (m.setEngaged a engaged).heldAt = m.heldAt := by
  rw [heldAt_update (a := a) rfl]
  have hsame : ((m.storages a).map fun st => { st with engaged }).bind (·.held) = m.heldAt a := by
    unfold heldAt
    cases m.storages a <;> rfl
  rw [hsame, Function.update_eq_self]

/-- The flag is set where there is a storage. -/
theorem engagedAt_setEngaged {a : Nat} (h : m.storages a ≠ none) (engaged : Bool) :
    (m.setEngaged a engaged).engagedAt = Function.update m.engagedAt a engaged := by
  obtain ⟨st, hst⟩ := Option.ne_none_iff_exists'.mp h
  rw [engagedAt_update (a := a) rfl, hst]
  rfl

/-- A constructed object has the next serial number. -/
theorem heldAt_constructAt {a : Nat} (h : m.storages a ≠ none) (v : V) :
    (m.constructAt a v).heldAt = Function.update m.heldAt a (some (m.serial, v)) := by
  obtain ⟨st, hst⟩ := Option.ne_none_iff_exists'.mp h
  rw [heldAt_update (a := a) rfl, hst]
  rfl

/-- Construction leaves the flag to whoever constructs. -/
@[simp] theorem engagedAt_constructAt (a : Nat) (v : V) :
    (m.constructAt a v).engagedAt = m.engagedAt :=
  engagedAt_same rfl fun _ => rfl

/-- Destruction of an object that is there. -/
theorem destroyAt_eq {a : Nat} {object : StoredObject} (h : m.objectAt a = some object) :
    m.destroyAt a = { m.alter a fun st => { st with held := none } with
      log := .destroyed object (some object) :: m.log } := by
  unfold destroyAt
  rw [h]

/-- The storage outlives its object. -/
theorem exists_destroyAt (a a' : Nat) :
    (m.destroyAt a).storages a' = none ↔ m.storages a' = none := by
  unfold destroyAt
  cases m.objectAt a with
  | none => exact Iff.rfl
  | some object => exact exists_alter a a' _

/-- The object is gone, and the others are not. -/
theorem heldAt_destroyAt {a : Nat} {object : StoredObject} (h : m.objectAt a = some object) :
    (m.destroyAt a).heldAt = Function.update m.heldAt a none := by
  rw [destroyAt_eq h, heldAt_update (a := a) rfl]
  cases m.storages a <;> rfl

/-- Destruction leaves the flag as well. -/
theorem engagedAt_destroyAt {a : Nat} {object : StoredObject} (h : m.objectAt a = some object) :
    (m.destroyAt a).engagedAt = m.engagedAt := by
  rw [destroyAt_eq h]
  exact engagedAt_same rfl fun _ => rfl

/-- A new storage is empty. -/
@[simp] theorem heldAt_create (a : Nat) :
    (m.create a).heldAt = Function.update m.heldAt a none := by
  rw [heldAt_update (a := a) rfl]
  rfl

/-- And it says so. -/
@[simp] theorem engagedAt_create (a : Nat) :
    (m.create a).engagedAt = Function.update m.engagedAt a false := by
  rw [engagedAt_update (a := a) rfl]
  rfl

@[simp] theorem heldAt_remove (a : Nat) :
    (m.remove a).heldAt = Function.update m.heldAt a none := by
  rw [heldAt_update (a := a) rfl]
  rfl

@[simp] theorem engagedAt_remove (a : Nat) :
    (m.remove a).engagedAt = Function.update m.engagedAt a false := by
  rw [engagedAt_update (a := a) rfl]
  rfl

/-! ## §2. Valid memory. -/

/-- The objects are accounted for: those live according to the log are those in
the storages, and each was constructed once. -/
structure Tracked (m : Memory V) : Prop where
  defined : m.defined = true
  proper : Lifetime.Proper m.log
  live : ∀ object,
    Lifetime.isLive object m.log = true ↔ m.objectAt object.address = some object
  fresh : ∀ object, m.serial ≤ object.serial → Lifetime.constructions object m.log = 0
  once : ∀ object, Lifetime.constructions object m.log ≤ 1

/-- And each flag is the truth. -/
structure Valid (m : Memory V) : Prop extends Tracked m where
  engaged : ∀ a, m.engagedAt a = (m.heldAt a).isSome

/-- Memory without storages. -/
theorem Valid.empty : ({} : Memory V).Valid := by
  constructor
  · constructor
    · rfl
    · trivial
    · intro object
      exact ⟨nofun, nofun⟩
    · exact fun _ _ => rfl
    · exact fun _ => Nat.zero_le 1
  · exact fun _ => rfl

/-- A valid flag tells whether there is a value. -/
theorem Valid.engaged_value (h : m.Valid) (a : Nat) : m.engagedAt a = (m.valueAt a).isSome := by
  unfold valueAt
  rw [h.engaged, Option.isSome_map]

/-- The objects a change of what is held leaves. -/
theorem objectAt_update {m' : Memory V} {a : Nat} {held : Option (Nat × V)}
    (h : m'.heldAt = Function.update m.heldAt a held) :
    m'.objectAt = Function.update m.objectAt a (held.map fun held => ⟨a, held.1⟩) := by
  funext a'
  unfold objectAt
  rw [h]
  by_cases ha : a' = a
  · subst ha
    rw [Function.update_self, Function.update_self]
  · rw [Function.update_of_ne ha, Function.update_of_ne ha]

/-- A change of no object's identity. -/
theorem Tracked.same {m' : Memory V} (h : m.Tracked) (hobjects : m'.objectAt = m.objectAt)
    (hserial : m'.serial = m.serial) (hlog : m'.log = m.log) (hdefined : m'.defined = m.defined) :
    m'.Tracked where
  defined := by rw [hdefined]; exact h.defined
  proper := by rw [hlog]; exact h.proper
  live := by rw [hlog, hobjects]; exact h.live
  fresh := by rw [hlog, hserial]; exact h.fresh
  once := by rw [hlog]; exact h.once

/-- Objects are accounted for whatever the flags say. -/
theorem Tracked.setEngaged (h : m.Tracked) (a : Nat) (engaged : Bool) :
    (m.setEngaged a engaged).Tracked := by
  refine h.same ?_ rfl rfl rfl
  unfold objectAt
  rw [heldAt_setEngaged]

/-- `operator=` of the object in place. -/
theorem Valid.setValue (h : m.Valid) (a : Nat) (v : V) : (m.setValue a v).Valid where
  toTracked := by
    refine h.toTracked.same ?_ rfl rfl rfl
    rw [objectAt_update (heldAt_setValue a v), Option.map_map]
    exact Function.update_eq_self a m.objectAt
  engaged := by
    intro a'
    rw [engagedAt_setValue, h.engaged, heldAt_setValue]
    by_cases ha : a' = a
    · rw [ha, Function.update_self, Option.isSome_map]
    · rw [Function.update_of_ne ha]

/-- A storage that comes or goes without an object. -/
theorem Valid.vacant {m' : Memory V} {a : Nat} (h : m.Valid) (hvacant : m.heldAt a = none)
    (hheld : m'.heldAt = Function.update m.heldAt a none)
    (hengaged : m'.engagedAt = Function.update m.engagedAt a false)
    (hserial : m'.serial = m.serial) (hlog : m'.log = m.log) (hdefined : m'.defined = m.defined) :
    m'.Valid where
  toTracked := by
    refine h.toTracked.same ?_ hserial hlog hdefined
    rw [objectAt_update hheld]
    show Function.update m.objectAt a none = m.objectAt
    rw [← objectAt_none hvacant, Function.update_eq_self]
  engaged := by
    intro a'
    rw [hengaged, hheld]
    by_cases ha : a' = a
    · rw [ha, Function.update_self, Function.update_self]
      rfl
    · rw [Function.update_of_ne ha, Function.update_of_ne ha, h.engaged]

/-- A storage is empty when it comes to be. -/
theorem Valid.create (h : m.Valid) {a : Nat} (ha : m.storages a = none) : (m.create a).Valid :=
  h.vacant (heldAt_none ha) (heldAt_create a) (engagedAt_create a) rfl rfl rfl

/-- A storage may go once it is empty. -/
theorem Valid.remove (h : m.Valid) {a : Nat} (ha : m.heldAt a = none) : (m.remove a).Valid :=
  h.vacant ha (heldAt_remove a) (engagedAt_remove a) rfl rfl rfl

/-- `construct_at` in empty storage. -/
theorem Tracked.constructAt (h : m.Tracked) {a : Nat} (ha : m.storages a ≠ none)
    (hempty : m.heldAt a = none) (v : V) : (m.constructAt a v).Tracked := by
  have hdead : Lifetime.isLive ⟨a, m.serial⟩ m.log = false :=
    Lifetime.isLive_of_constructions (h.fresh ⟨a, m.serial⟩ (Nat.le_refl _))
  have hlog : (m.constructAt a v).log = .constructed ⟨a, m.serial⟩ none :: m.log := by
    show _ :: _ = _
    rw [objectAt_none hempty]
  have hobjects := objectAt_update (heldAt_constructAt ha v)
  constructor
  · exact h.defined
  · rw [hlog]
    exact ⟨⟨rfl, hdead⟩, h.proper⟩
  · -- in `a`, the new object is live and there was none before; elsewhere nothing changes
    intro object
    rw [hlog, hobjects, Lifetime.isLive, Bool.or_eq_true, decide_eq_true_eq, h.live]
    by_cases haddress : object.address = a
    · rw [haddress, Function.update_self, objectAt_none hempty]
      simp
    · rw [Function.update_of_ne haddress]
      constructor
      · rintro (rfl | hobject)
        · exact absurd rfl haddress
        · exact hobject
      · exact Or.inr
  · intro object hserial
    have hserial : m.serial + 1 ≤ object.serial := hserial
    rw [hlog, Lifetime.constructions_cons_constructed, h.fresh object (by omega), if_neg]
    rintro rfl
    exact absurd hserial (Nat.not_succ_le_self _)
  · intro object
    rw [hlog, Lifetime.constructions_cons_constructed]
    by_cases hobject : (⟨a, m.serial⟩ : StoredObject) = object
    · -- the serial number is fresh
      have hnone := h.fresh ⟨a, m.serial⟩ (Nat.le_refl _)
      rw [if_pos hobject, ← hobject]
      omega
    · rw [if_neg hobject]
      exact h.once object

/-- `destroy_at` of a live object. -/
theorem Tracked.destroyAt (h : m.Tracked) {a : Nat} {object : StoredObject}
    (hobject : m.objectAt a = some object) : (m.destroyAt a).Tracked := by
  have haddress := objectAt_address hobject
  have hlive : Lifetime.isLive object m.log = true := by
    rw [h.live, haddress]
    exact hobject
  have hlog : (m.destroyAt a).log = .destroyed object (some object) :: m.log := by
    rw [destroyAt_eq hobject]
  have hobjects := objectAt_update (heldAt_destroyAt hobject)
  constructor
  · rw [destroyAt_eq hobject]
    exact h.defined
  · rw [hlog]
    exact ⟨⟨rfl, hlive⟩, h.proper⟩
  · -- `object` was the only one in `a`
    intro object'
    rw [hlog, hobjects, Lifetime.isLive, Bool.and_eq_true, Bool.not_eq_true',
      decide_eq_false_iff_not, h.live]
    by_cases ha : object'.address = a
    · rw [ha, Function.update_self, hobject]
      simp
    · rw [Function.update_of_ne ha]
      constructor
      · exact And.right
      · intro hobject'
        refine ⟨?_, hobject'⟩
        rintro rfl
        exact ha haddress
  · intro object' hserial
    rw [hlog, Lifetime.constructions_cons_destroyed]
    apply h.fresh
    rw [destroyAt_eq hobject] at hserial
    exact hserial
  · intro object'
    rw [hlog, Lifetime.constructions_cons_destroyed]
    exact h.once object'

/-- `emplace` into empty storage. -/
theorem Valid.emplaced (h : m.Valid) {a : Nat} (ha : m.storages a ≠ none)
    (hempty : m.heldAt a = none) (v : V) : ((m.constructAt a v).setEngaged a true).Valid where
  toTracked := (h.toTracked.constructAt ha hempty v).setEngaged a true
  engaged := by
    intro a'
    have hexists : (m.constructAt a v).storages a ≠ none := mt (exists_alter a a _).mp ha
    rw [engagedAt_setEngaged hexists, engagedAt_constructAt, heldAt_setEngaged,
      heldAt_constructAt ha]
    by_cases ha' : a' = a
    · rw [ha', Function.update_self, Function.update_self]
      rfl
    · rw [Function.update_of_ne ha', Function.update_of_ne ha', h.engaged]

/-- `destroy` of a live object. -/
theorem Valid.destroyed (h : m.Valid) {a : Nat} {object : StoredObject}
    (hobject : m.objectAt a = some object) : ((m.destroyAt a).setEngaged a false).Valid where
  toTracked := (h.toTracked.destroyAt hobject).setEngaged a false
  engaged := by
    intro a'
    have hexists := mt (exists_destroyAt a a).mp (exists_of_objectAt hobject)
    rw [engagedAt_setEngaged hexists, engagedAt_destroyAt hobject, heldAt_setEngaged,
      heldAt_destroyAt hobject]
    by_cases ha' : a' = a
    · rw [ha', Function.update_self, Function.update_self]
      rfl
    · rw [Function.update_of_ne ha', Function.update_of_ne ha', h.engaged]

/-! ## §3. Frames. -/

/-- At most one storage has come, gone or changed its flag. -/
structure SameElsewhere (a : Nat) (m m' : Memory V) : Prop where
  engaged : ∀ a' ≠ a, m'.engagedAt a' = m.engagedAt a'
  present : ∀ a' ≠ a, m'.storages a' = none ↔ m.storages a' = none

namespace SameElsewhere

variable {a : Nat} {m₁ m₂ : Memory V}

theorem refl (a : Nat) (m : Memory V) : SameElsewhere a m m :=
  ⟨fun _ _ => rfl, fun _ _ => Iff.rfl⟩

/-- Changes at one address compose. -/
theorem trans (h : SameElsewhere a m m₁) (h' : SameElsewhere a m₁ m₂) : SameElsewhere a m m₂ :=
  ⟨fun a' ha => (h'.engaged a' ha).trans (h.engaged a' ha),
    fun a' ha => (h'.present a' ha).trans (h.present a' ha)⟩

/-- A replaced storage is one change. -/
theorem of_update {st : Option (MaybeStorage V)}
    (h : m₁.storages = Function.update m.storages a st) : SameElsewhere a m m₁ := by
  constructor
  · intro a' ha
    rw [engagedAt_update h, Function.update_of_ne ha]
  · intro a' ha
    rw [h, Function.update_of_ne ha]

theorem setEngaged (h : SameElsewhere a m m₁) (engaged : Bool) :
    SameElsewhere a m (m₁.setEngaged a engaged) :=
  h.trans (of_update rfl)

theorem constructAt (h : SameElsewhere a m m₁) (v : V) : SameElsewhere a m (m₁.constructAt a v) :=
  h.trans (of_update rfl)

/-- Destruction is a change at its address, if it happens at all. -/
theorem destroyAt (h : SameElsewhere a m m₁) : SameElsewhere a m (m₁.destroyAt a) := by
  unfold Memory.destroyAt
  cases m₁.objectAt a with
  | none => exact ⟨h.engaged, h.present⟩
  | some object => exact h.trans (of_update rfl)

theorem create (h : SameElsewhere a m m₁) : SameElsewhere a m (m₁.create a) :=
  h.trans (of_update rfl)

theorem remove (h : SameElsewhere a m m₁) : SameElsewhere a m (m₁.remove a) :=
  h.trans (of_update rfl)

/-- A new value changes no flag. -/
theorem setValue (h : SameElsewhere a m m₁) (b : Nat) (v : V) :
    SameElsewhere a m (m₁.setValue b v) := by
  constructor
  · intro a' ha
    rw [engagedAt_setValue, h.engaged a' ha]
  · intro a' ha
    exact (exists_alter b a' _).trans (h.present a' ha)

end SameElsewhere

end Memory

end YOrch
