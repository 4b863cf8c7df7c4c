/-
  YOrch.Storage.MaybeStorage — `maybe_storage`, an optional object whose lifetime
  is managed by hand.

  What the payload type does is a parameter: any of its operations may throw.

    • `assign_assigned`, `construct_constructed` — the cases of an assignment and
      of a construction,
    • `perform_valid` — every operation keeps memory valid, however it ends,
    • `Assigned.value` — what a returning assignment leaves,
    • `maybeStorage_lifetimes` — over all sequences of operations, the flag is
      the truth and every object is destroyed exactly once.
-/
import YOrch.Library.Exec
import YOrch.Storage.Memory

namespace YOrch

open Library

variable {V W : Type}

/-! ## §1. Payload types. -/

/-- How another storage is passed: as `const maybe_storage&` or as
`maybe_storage&&`. -/
inductive PassedAs where
  | copied
  | moved
  deriving Repr, DecidableEq

/-- What a payload type does.  Constructions and assignments from another object
may throw and may change that object; one that returns leaves the value it was
given. -/
structure PayloadType (V W : Type) where
  /-- `std::is_assignable_v`. -/
  assignable : PassedAs → Bool
  /-- The value constructed, unless it throws, and what is left of the source. -/
  construct : PassedAs → V → W → Option V × V × W
  construct_value : ∀ {passed v w v'}, (construct passed v w).1 = some v' → v' = v
  /-- Whether the assignment returns, and what is left of target and source. -/
  assign : PassedAs → V → V → W → Bool × (V × V) × W
  assign_value : ∀ {passed old v w}, (assign passed old v w).1 = true →
    (assign passed old v w).2.1.1 = v
  /-- Whether the destructor returns. -/
  destruct : V → W → Bool × W

/-! ## §2. Operations. -/

namespace MaybeStorage

variable (T : PayloadType V W)

def onMemory (f : Memory V → Memory V) : Exec (Memory V × W) Unit :=
  Exec.modify fun s => (f s.1, s.2)

/-- Touch an object that is not there. -/
def undefined {α : Type} : Exec (Memory V × W) α := do
  onMemory fun m => { m with defined := false }
  Exec.halt

/-- `has_value`. -/
def hasValue (a : Nat) : Exec (Memory V × W) Bool := Exec.reads fun s => s.1.engagedAt a

/-- `get`: the object's value. -/
def get (a : Nat) : Exec (Memory V × W) V := do
  match ← Exec.reads fun s => s.1.valueAt a with
  | some v => pure v
  | none => undefined

/-- `T(other.get())`. -/
def constructFrom (passed : PassedAs) (b : Nat) : Exec (Memory V × W) V := do
  let v ← get b
  let (made, left) ← Exec.act fun s =>
    (((T.construct passed v s.2).1, (T.construct passed v s.2).2.1),
      (s.1, (T.construct passed v s.2).2.2))
  onMemory (·.setValue b left)
  match made with
  | some v' => pure v'
  | none => Exec.throw

/-- `get() = other.get()`. -/
def assignObject (passed : PassedAs) (a b : Nat) : Exec (Memory V × W) Unit := do
  let old ← get a
  let v ← get b
  let (returns, left) ← Exec.act fun s =>
    (((T.assign passed old v s.2).1, (T.assign passed old v s.2).2.1),
      (s.1, (T.assign passed old v s.2).2.2))
  onMemory (·.setValue a left.1)
  onMemory (·.setValue b left.2)
  if returns then pure () else Exec.throw

/-- `emplace`.  Without assertions, a live object is constructed over. -/
def emplace (a : Nat) (constructor : Exec (Memory V × W) V) : Exec (Memory V × W) Unit := do
  let v ← constructor
  onMemory (·.constructAt a v)
  onMemory (·.setEngaged a true)

/-- `std::destroy_at(ptr())`. -/
def destroyObject (a : Nat) : Exec (Memory V × W) Unit := do
  let v ← get a
  let returns ← Exec.act fun s => ((T.destruct v s.2).1, (s.1, (T.destruct v s.2).2))
  if returns then onMemory (·.destroyAt a) else Exec.throw

/-- `destroy`.  A throwing destructor ends the program. -/
def destroy (a : Nat) : Exec (Memory V × W) Unit := do
  if ← hasValue a then
    Exec.noexcept (destroyObject T a)
    onMemory (·.setEngaged a false)

/-- `assign_from`. -/
def assignFrom (passed : PassedAs) (a b : Nat) : Exec (Memory V × W) Unit := do
  if ← hasValue b then
    if ← hasValue a then
      -- `if constexpr`
      if T.assignable passed then
        assignObject T passed a b
      else do
        -- from here until `emplace` has returned, the target is empty
        destroy T a
        emplace a (constructFrom T passed b)
    else
      emplace a (constructFrom T passed b)
  else
    destroy T a

/-- The copy and move constructors.  If one throws, there is no storage. -/
def construct (passed : PassedAs) (a b : Nat) : Exec (Memory V × W) Unit := do
  onMemory (·.create a)
  Exec.catchAll
    (do
      if ← hasValue b then
        emplace a (constructFrom T passed b))
    (do
      onMemory (·.remove a)
      Exec.throw)

/-- The copy and move assignment operators. -/
def assign (passed : PassedAs) (a b : Nat) : Exec (Memory V × W) Unit :=
  if a = b then
    pure ()
  else
    assignFrom T passed a b

/-- `~maybe_storage`. -/
def destruct (a : Nat) : Exec (Memory V × W) Unit := do
  destroy T a
  onMemory (·.remove a)

/-- The operations on storages.  The arguments of an `emplace` make for a
constructor of the payload type. -/
inductive Op (V W : Type) where
  | default (a : Nat)
  | construct (passed : PassedAs) (a b : Nat)
  | assign (passed : PassedAs) (a b : Nat)
  | emplace (a : Nat) (constructor : W → Option V × W)
  | destroy (a : Nat)
  | destruct (a : Nat)

/-- A constructor that reads no other storage. -/
def runConstructor (constructor : W → Option V × W) : Exec (Memory V × W) V := do
  match ← Exec.act fun s => ((constructor s.2).1, (s.1, (constructor s.2).2)) with
  | some v => pure v
  | none => Exec.throw

def perform : Op V W → Exec (Memory V × W) Unit
  | .default a => onMemory (·.create a)
  | .construct passed a b => construct T passed a b
  | .assign passed a b => assign T passed a b
  | .emplace a constructor => emplace a (runConstructor constructor)
  | .destroy a => destroy T a
  | .destruct a => destruct T a

/-- An operation is on storages that exist, or makes one that does not; `emplace`
is on an empty one. -/
def Op.Allowed (m : Memory V) : Op V W → Prop
  | .default a => m.storages a = none
  | .construct _ a b => m.storages a = none ∧ m.storages b ≠ none
  | .assign _ a b => m.storages a ≠ none ∧ m.storages b ≠ none
  | .emplace a _ => m.storages a ≠ none ∧ m.engagedAt a = false
  | .destroy a | .destruct a => m.storages a ≠ none

/-! ## §3. What the operations do. -/

section Runs

variable {T : PayloadType V W} {m : Memory V} {w : W}

/-- `get` of a storage with an object. -/
theorem get_run {a : Nat} {held : Nat × V} (h : m.heldAt a = some held) :
    get a (m, w) = (.ret held.2, (m, w)) := by
  unfold get
  rw [Exec.bind_ret (Exec.reads_run _ _)]
  show (match m.valueAt a with | some v => pure v | none => undefined : Exec (Memory V × W) V) _ = _
  rw [Memory.valueAt_some h]
  rfl

/-- `T`'s constructor changes its source, whether or not it throws. -/
theorem constructFrom_run (passed : PassedAs) {b : Nat} {held : Nat × V}
    (h : m.heldAt b = some held) :
    constructFrom T passed b (m, w)
      = ((T.construct passed held.2 w).1.elim .thrown .ret,
          (m.setValue b (T.construct passed held.2 w).2.1, (T.construct passed held.2 w).2.2)) := by
  unfold constructFrom
  rw [Exec.bind_ret (get_run h), Exec.bind_ret (Exec.act_run _ _)]
  show (match (T.construct passed held.2 w).1 with | some v => pure v | none => Exec.throw :
    Exec (Memory V × W) V) _ = _
  cases (T.construct passed held.2 w).1 <;> rfl

/-- `emplace` from another storage, as its constructor ends. -/
theorem emplace_returns {passed : PassedAs} {a b : Nat} {held : Nat × V} {v : V}
    (h : m.heldAt b = some held) (hmade : (T.construct passed held.2 w).1 = some v) :
    emplace a (constructFrom T passed b) (m, w)
      = (.ret (), ((((m.setValue b (T.construct passed held.2 w).2.1).constructAt a v).setEngaged a
          true), (T.construct passed held.2 w).2.2)) := by
  have hrun := constructFrom_run (T := T) (w := w) passed h
  rw [hmade] at hrun
  unfold emplace
  rw [Exec.bind_ret hrun]
  rfl

/-- A constructor that throws leaves the target as it was. -/
theorem emplace_throws {passed : PassedAs} {a b : Nat} {held : Nat × V}
    (h : m.heldAt b = some held) (hmade : (T.construct passed held.2 w).1 = none) :
    emplace a (constructFrom T passed b) (m, w)
      = (.thrown, (m.setValue b (T.construct passed held.2 w).2.1,
          (T.construct passed held.2 w).2.2)) := by
  have hrun := constructFrom_run (T := T) (w := w) passed h
  rw [hmade] at hrun
  unfold emplace
  rw [Exec.bind_thrown hrun]

/-- `T`'s `operator=` changes both objects, whether or not it throws. -/
theorem assignObject_run {passed : PassedAs} {a b : Nat} {held held' : Nat × V}
    (ha : m.heldAt a = some held) (hb : m.heldAt b = some held') :
    assignObject T passed a b (m, w)
      = (bif (T.assign passed held.2 held'.2 w).1 then .ret () else .thrown,
          ((m.setValue a (T.assign passed held.2 held'.2 w).2.1.1).setValue b
            (T.assign passed held.2 held'.2 w).2.1.2, (T.assign passed held.2 held'.2 w).2.2)) := by
  unfold assignObject
  rw [Exec.bind_ret (get_run ha), Exec.bind_ret (get_run hb), Exec.bind_ret (Exec.act_run _ _)]
  show (if (T.assign passed held.2 held'.2 w).1 then pure () else Exec.throw :
    Exec (Memory V × W) Unit) _ = _
  cases (T.assign passed held.2 held'.2 w).1 <;> rfl

theorem hasValue_run (a : Nat) :
    (hasValue a : Exec (Memory V × W) Bool) (m, w) = (.ret (m.engagedAt a), (m, w)) := rfl

/-- An object whose destructor throws is not destroyed. -/
theorem destroyObject_run {a : Nat} {held : Nat × V} (h : m.heldAt a = some held) :
    destroyObject T a (m, w)
      = bif (T.destruct held.2 w).1 then (.ret (), (m.destroyAt a, (T.destruct held.2 w).2))
        else (.thrown, (m, (T.destruct held.2 w).2)) := by
  unfold destroyObject
  rw [Exec.bind_ret (get_run h), Exec.bind_ret (Exec.act_run _ _)]
  show (if (T.destruct held.2 w).1 then onMemory (·.destroyAt a) else Exec.throw :
    Exec (Memory V × W) Unit) _ = _
  cases (T.destruct held.2 w).1 <;> rfl

/-- `destroy` of an empty storage. -/
theorem destroy_empty {a : Nat} (h : m.engagedAt a = false) :
    destroy T a (m, w) = (.ret (), (m, w)) := by
  unfold destroy
  rw [Exec.bind_ret (hasValue_run a), h]
  rfl

/-- `destroy` of a live object. -/
theorem destroy_returns {a : Nat} {held : Nat × V} (hengaged : m.engagedAt a = true)
    (h : m.heldAt a = some held) (hreturns : (T.destruct held.2 w).1 = true) :
    destroy T a (m, w)
      = (.ret (), ((m.destroyAt a).setEngaged a false, (T.destruct held.2 w).2)) := by
  have hobject := destroyObject_run (T := T) (w := w) h
  rw [hreturns] at hobject
  have hnoexcept : Exec.noexcept (destroyObject T a) (m, w)
      = (.ret (), (m.destroyAt a, (T.destruct held.2 w).2)) := by
    unfold Exec.noexcept
    rw [hobject]
    rfl
  unfold destroy
  rw [Exec.bind_ret (hasValue_run a), hengaged, if_pos rfl, Exec.bind_ret hnoexcept]
  rfl

/-- `destroy` is `noexcept`, so a destructor that throws ends the program. -/
theorem destroy_terminates {a : Nat} {held : Nat × V} (hengaged : m.engagedAt a = true)
    (h : m.heldAt a = some held) (hthrows : (T.destruct held.2 w).1 = false) :
    destroy T a (m, w) = (.halted, (m, (T.destruct held.2 w).2)) := by
  have hobject := destroyObject_run (T := T) (w := w) h
  rw [hthrows] at hobject
  have hnoexcept : Exec.noexcept (destroyObject T a) (m, w)
      = (.halted, (m, (T.destruct held.2 w).2)) := by
    unfold Exec.noexcept
    rw [hobject]
    rfl
  unfold destroy
  rw [Exec.bind_ret (hasValue_run a), hengaged, if_pos rfl, Exec.bind_halted hnoexcept]

/-- How `destroy` leaves a storage empty. -/
inductive Cleared (T : PayloadType V W) (a : Nat) (m : Memory V) (w : W) : Memory V → W → Prop
  | empty (h : m.heldAt a = none) : Cleared T a m w m w
  | destroyed {held : Nat × V} (h : m.heldAt a = some held)
      (hreturns : (T.destruct held.2 w).1 = true) :
      Cleared T a m w ((m.destroyAt a).setEngaged a false) (T.destruct held.2 w).2

/-- `destroy` leaves its storage empty, unless the program ends. -/
theorem destroy_cases (T : PayloadType V W) (h : m.Valid) (a : Nat) (w : W) :
    (∃ m' w', Cleared T a m w m' w' ∧ destroy T a (m, w) = (.ret (), (m', w')))
      ∨ ∃ held, m.heldAt a = some held ∧ (T.destruct held.2 w).1 = false
        ∧ destroy T a (m, w) = (.halted, (m, (T.destruct held.2 w).2)) := by
  have hengaged := h.engaged a
  cases hheld : m.heldAt a with
  | none =>
      rw [hheld] at hengaged
      exact Or.inl ⟨m, w, .empty hheld, destroy_empty hengaged⟩
  | some held =>
      rw [hheld] at hengaged
      cases hreturns : (T.destruct held.2 w).1 with
      | true => exact Or.inl ⟨_, _, .destroyed hheld hreturns,
          destroy_returns hengaged hheld hreturns⟩
      | false => exact Or.inr ⟨held, rfl, hreturns, destroy_terminates hengaged hheld hreturns⟩

/-- Whichever way, nothing is held afterwards. -/
theorem Cleared.heldAt {a : Nat} {m' : Memory V} {w' : W} (h : Cleared T a m w m' w') :
    m'.heldAt = Function.update m.heldAt a none := by
  cases h with
  | empty h => rw [← h, Function.update_eq_self]
  | destroyed h _ => rw [Memory.heldAt_setEngaged, Memory.heldAt_destroyAt (Memory.objectAt_some h)]

/-- Objects and flags are kept in step. -/
theorem Cleared.valid {a : Nat} {m' : Memory V} {w' : W} (h : Cleared T a m w m' w')
    (hm : m.Valid) : m'.Valid := by
  cases h with
  | empty => exact hm
  | destroyed h _ => exact hm.destroyed (Memory.objectAt_some h)

/-- No storage comes or goes. -/
theorem Cleared.exists {a : Nat} {m' : Memory V} {w' : W} (h : Cleared T a m w m' w') (a' : Nat) :
    m'.storages a' = none ↔ m.storages a' = none := by
  cases h with
  | empty => exact Iff.rfl
  | destroyed => exact (Memory.exists_alter a a' _).trans (Memory.exists_destroyAt a a')

/-- What an assignment can do. -/
inductive Assigned (T : PayloadType V W) (passed : PassedAs) (a b : Nat) (m : Memory V) (w : W) :
    Exit Unit × Memory V × W → Prop
  | self (h : a = b) : Assigned T passed a b m w (.ret (), (m, w))
  | cleared {m' w'} (hab : a ≠ b) (hb : m.heldAt b = none) (h : Cleared T a m w m' w') :
      Assigned T passed a b m w (.ret (), (m', w'))
  | terminated {held : Nat × V} (hab : a ≠ b) (ha : m.heldAt a = some held)
      (h : (T.destruct held.2 w).1 = false) :
      Assigned T passed a b m w (.halted, (m, (T.destruct held.2 w).2))
  | assigned {held held' : Nat × V} (hab : a ≠ b) (ha : m.heldAt a = some held)
      (hb : m.heldAt b = some held') (hassignable : T.assignable passed = true) :
      Assigned T passed a b m w
        (bif (T.assign passed held.2 held'.2 w).1 then .ret () else .thrown,
          ((m.setValue a (T.assign passed held.2 held'.2 w).2.1.1).setValue b
            (T.assign passed held.2 held'.2 w).2.1.2, (T.assign passed held.2 held'.2 w).2.2))
  | emplaced {m' w' v} {held : Nat × V} (hab : a ≠ b) (hb : m.heldAt b = some held)
      (hempty : m.heldAt a = none ∨ T.assignable passed = false) (h : Cleared T a m w m' w')
      (hmade : (T.construct passed held.2 w').1 = some v) :
      Assigned T passed a b m w
        (.ret (), ((((m'.setValue b (T.construct passed held.2 w').2.1).constructAt a v).setEngaged
          a true), (T.construct passed held.2 w').2.2))
  | emplaceThrew {m' w'} {held : Nat × V} (hab : a ≠ b) (hb : m.heldAt b = some held)
      (hempty : m.heldAt a = none ∨ T.assignable passed = false) (h : Cleared T a m w m' w')
      (hmade : (T.construct passed held.2 w').1 = none) :
      Assigned T passed a b m w
        (.thrown, (m'.setValue b (T.construct passed held.2 w').2.1,
          (T.construct passed held.2 w').2.2))

/-- `emplace` from another storage into a cleared one. -/
theorem emplace_assigned {passed : PassedAs} {a b : Nat} {held : Nat × V} {m' : Memory V} {w' : W}
    (hab : a ≠ b) (hb : m.heldAt b = some held)
    (hempty : m.heldAt a = none ∨ T.assignable passed = false) (h : Cleared T a m w m' w') :
    Assigned T passed a b m w (emplace a (constructFrom T passed b) (m', w')) := by
  have hb' : m'.heldAt b = some held := by
    rw [h.heldAt, Function.update_of_ne (Ne.symm hab), hb]
  cases hmade : (T.construct passed held.2 w').1 with
  | none =>
      rw [emplace_throws hb' hmade]
      exact .emplaceThrew hab hb hempty h hmade
  | some v =>
      rw [emplace_returns hb' hmade]
      exact .emplaced hab hb hempty h hmade

/-- **The cases of an assignment.** -/
theorem assign_assigned (T : PayloadType V W) (h : m.Valid) (passed : PassedAs) (a b : Nat)
    (w : W) :
    Assigned T passed a b m w (assign T passed a b (m, w)) := by
  unfold assign
  by_cases hab : a = b
  · rw [if_pos hab]
    exact .self hab
  rw [if_neg hab]
  unfold assignFrom
  rw [Exec.bind_ret (hasValue_run b), h.engaged b]
  cases hb : m.heldAt b with
  | none =>
      -- an empty source only empties the target
      show Assigned T passed a b m w (destroy T a (m, w))
      rcases destroy_cases T h a w with ⟨m', w', hcleared, hrun⟩ | ⟨held, ha, hthrows, hrun⟩
      · rw [hrun]
        exact .cleared hab hb hcleared
      · rw [hrun]
        exact .terminated hab ha hthrows
  | some held' =>
      -- the three ways to get its value into the target
      rw [Option.isSome_some, if_pos rfl, Exec.bind_ret (hasValue_run a), h.engaged a]
      cases ha : m.heldAt a with
      | none => exact emplace_assigned hab hb (Or.inl ha) (.empty ha)
      | some held =>
          rw [Option.isSome_some, if_pos rfl]
          by_cases hassignable : T.assignable passed = true
          · rw [if_pos hassignable, assignObject_run ha hb]
            exact .assigned hab ha hb hassignable
          · rw [if_neg hassignable]
            rcases destroy_cases T h a w with ⟨m', w', hcleared, hrun⟩ | ⟨held, ha, hthrows, hrun⟩
            · rw [Exec.bind_ret hrun]
              exact emplace_assigned hab hb (Or.inr (by simpa using hassignable)) hcleared
            · rw [Exec.bind_halted hrun]
              exact .terminated hab ha hthrows

/-- What the copy and move constructors can do. -/
inductive Constructed (T : PayloadType V W) (passed : PassedAs) (a b : Nat) (m : Memory V) (w : W) :
    Exit Unit × Memory V × W → Prop
  | empty (hb : m.heldAt b = none) : Constructed T passed a b m w (.ret (), (m.create a, w))
  | emplaced {v} {held : Nat × V} (hb : m.heldAt b = some held)
      (hmade : (T.construct passed held.2 w).1 = some v) :
      Constructed T passed a b m w
        (.ret (), (((((m.create a).setValue b (T.construct passed held.2 w).2.1).constructAt a
          v).setEngaged a true), (T.construct passed held.2 w).2.2))
  | threw {held : Nat × V} (hb : m.heldAt b = some held)
      (hmade : (T.construct passed held.2 w).1 = none) :
      Constructed T passed a b m w
        (.thrown, (((m.create a).setValue b (T.construct passed held.2 w).2.1).remove a,
          (T.construct passed held.2 w).2.2))

/-- The constructors of `maybe_storage`, over any source. -/
theorem construct_constructed (T : PayloadType V W) (h : m.Valid) (passed : PassedAs) {a b : Nat}
    (hab : a ≠ b) (w : W) : Constructed T passed a b m w (construct T passed a b (m, w)) := by
  have hheld : (m.create a).heldAt b = m.heldAt b := by
    rw [Memory.heldAt_create, Function.update_of_ne (Ne.symm hab)]
  have hengaged : (m.create a).engagedAt b = (m.heldAt b).isSome := by
    rw [Memory.engagedAt_create, Function.update_of_ne (Ne.symm hab), h.engaged]
  have hvalue := hasValue_run (m := m.create a) (w := w) b
  rw [hengaged] at hvalue
  unfold construct onMemory
  rw [Exec.bind_ret (Exec.modify_run _ _)]
  unfold Exec.catchAll
  rw [Exec.bind_ret hvalue]
  cases hb : m.heldAt b with
  | none => exact .empty hb
  | some held =>
      rw [hb] at hheld
      rw [Option.isSome_some, if_pos rfl]
      cases hmade : (T.construct passed held.2 w).1 with
      | none =>
          rw [emplace_throws hheld hmade]
          exact .threw hb hmade
      | some v =>
          rw [emplace_returns hheld hmade]
          exact .emplaced hb hmade

theorem emplace_constructor (a : Nat) (constructor : W → Option V × W) :
    emplace a (runConstructor constructor) (m, w)
      = match (constructor w).1 with
        | some v => (.ret (), ((m.constructAt a v).setEngaged a true, (constructor w).2))
        | none => (.thrown, (m, (constructor w).2)) := by
  have hrun : runConstructor constructor (m, w)
      = ((constructor w).1.elim .thrown .ret, (m, (constructor w).2)) := by
    unfold runConstructor
    rw [Exec.bind_ret (Exec.act_run _ _)]
    show (match (constructor w).1 with | some v => pure v | none => Exec.throw :
      Exec (Memory V × W) V) _ = _
    cases (constructor w).1 <;> rfl
  unfold emplace
  cases hmade : (constructor w).1 with
  | none =>
      rw [hmade] at hrun
      rw [Exec.bind_thrown hrun]
  | some v =>
      rw [hmade] at hrun
      rw [Exec.bind_ret hrun]
      rfl

/-! ## §4. Every operation keeps memory valid. -/

theorem destroy_valid (h : m.Valid) (a : Nat) : (destroy T a (m, w)).2.1.Valid := by
  rcases destroy_cases T h a w with ⟨m', w', hcleared, hrun⟩ | ⟨held, -, -, hrun⟩
  · rw [hrun]
    exact hcleared.valid h
  · rw [hrun]
    exact h

/-- `emplace` from another storage into an empty one. -/
theorem emplaced_valid (h : m.Valid) {a b : Nat} (hab : a ≠ b) (ha : m.storages a ≠ none)
    (hempty : m.heldAt a = none) (left v : V) :
    (((m.setValue b left).constructAt a v).setEngaged a true).Valid := by
  apply (h.setValue b left).emplaced
  · exact mt (Memory.exists_alter b a _).mp ha
  · rw [Memory.heldAt_setValue, Function.update_of_ne hab, hempty]

theorem Assigned.valid {passed : PassedAs} {a b : Nat} {result : Exit Unit × Memory V × W}
    (h : Assigned T passed a b m w result) (hm : m.Valid) (ha : m.storages a ≠ none) :
    result.2.1.Valid := by
  cases h with
  | self => exact hm
  | cleared _ _ h => exact h.valid hm
  | terminated => exact hm
  | assigned => exact (hm.setValue a _).setValue b _
  | emplaced hab _ _ h _ =>
      apply emplaced_valid (h.valid hm) hab (mt (h.exists a).mp ha)
      rw [h.heldAt, Function.update_self]
  | emplaceThrew _ _ _ h _ => exact (h.valid hm).setValue b _

theorem Constructed.valid {passed : PassedAs} {a b : Nat} {result : Exit Unit × Memory V × W}
    (h : Constructed T passed a b m w result) (hm : m.Valid) (hab : a ≠ b)
    (ha : m.storages a = none) : result.2.1.Valid := by
  have hempty : (m.create a).heldAt a = none := by
    rw [Memory.heldAt_create, Function.update_self]
  cases h with
  | empty => exact hm.create ha
  | emplaced => exact emplaced_valid (hm.create ha) hab (Memory.exists_create a) hempty _ _
  | threw =>
      -- there is no object yet in the storage that goes
      apply ((hm.create ha).setValue b _).remove
      rw [Memory.heldAt_setValue, Function.update_of_ne hab, hempty]

/-- **Every operation keeps memory valid**, however it ends. -/
theorem perform_valid (T : PayloadType V W) (h : m.Valid) {op : Op V W} (hop : op.Allowed m)
    (w : W) : (perform T op (m, w)).2.1.Valid := by
  cases op with
  | default a => exact h.create hop
  | construct passed a b =>
      have hab : a ≠ b := by
        rintro rfl
        exact hop.2 hop.1
      exact (construct_constructed T h passed hab w).valid h hab hop.1
  | assign passed a b => exact (assign_assigned T h passed a b w).valid h hop.1
  | emplace a constructor =>
      show (emplace a (runConstructor constructor) (m, w)).2.1.Valid
      rw [emplace_constructor]
      cases (constructor w).1 with
      | none => exact h
      | some v =>
          apply h.emplaced hop.1
          have hempty := h.engaged a
          rw [hop.2] at hempty
          exact Option.isNone_iff_eq_none.mp (by rw [← Option.not_isSome, ← hempty]; rfl)
  | destroy a => exact destroy_valid h a
  | destruct a =>
      show (destruct T a (m, w)).2.1.Valid
      unfold destruct
      rcases destroy_cases T h a w with ⟨m', w', hcleared, hrun⟩ | ⟨held, -, -, hrun⟩
      · -- the destructor removes a storage it has emptied
        rw [Exec.bind_ret hrun]
        apply (hcleared.valid h).remove
        rw [hcleared.heldAt, Function.update_self]
      · rw [Exec.bind_halted hrun]
        exact h

/-- **A returning assignment** leaves the source's value in the target. -/
theorem Assigned.value {passed : PassedAs} {a b : Nat} {result : Exit Unit × Memory V × W}
    (h : Assigned T passed a b m w result) (ha : m.storages a ≠ none)
    (hreturns : result.1 = .ret ()) : result.2.1.valueAt a = m.valueAt b := by
  unfold Memory.valueAt
  cases h with
  | self hab => rw [hab]
  | cleared hab hb h => rw [h.heldAt, Function.update_self, hb]
  | terminated => cases hreturns
  | @assigned held held' hab ha' hb _ =>
      rw [Memory.heldAt_setValue, Function.update_of_ne hab, Memory.heldAt_setValue,
        Function.update_self, ha', hb]
      cases hassign : (T.assign passed held.2 held'.2 w).1 with
      | true => exact congrArg some (T.assign_value hassign)
      | false =>
          rw [hassign] at hreturns
          cases hreturns
  | @emplaced m' w' v held hab hb _ h hmade =>
      have hexists : (m'.setValue b (T.construct passed held.2 w').2.1).storages a ≠ none := by
        exact mt (Memory.exists_alter b a _).mp (mt (h.exists a).mp ha)
      rw [Memory.heldAt_setEngaged, Memory.heldAt_constructAt hexists, Function.update_self, hb,
        T.construct_value hmade]
      rfl
  | emplaceThrew => cases hreturns

/-- **A returning construction** leaves a storage as engaged as its source; one
that throws leaves none. -/
theorem Constructed.engaged {passed : PassedAs} {a b : Nat} {result : Exit Unit × Memory V × W}
    (h : Constructed T passed a b m w result) (hm : m.Valid)
    (hexists : result.2.1.storages a ≠ none) : result.2.1.engagedAt a = m.engagedAt b := by
  rw [hm.engaged b]
  cases h with
  | empty hb => rw [Memory.engagedAt_create, Function.update_self, hb, Option.isSome_none]
  | emplaced hb _ =>
      rw [Memory.engagedAt_setEngaged (mt (Memory.exists_alter a a _).mpr hexists),
        Function.update_self, hb, Option.isSome_some]
  | threw => exact absurd (Memory.not_exists_remove a) hexists

/-! Nothing happens to other storages. -/

theorem Cleared.sameElsewhere {a : Nat} {m' : Memory V} {w' : W} (h : Cleared T a m w m' w') :
    m.SameElsewhere a m' := by
  cases h with
  | empty => exact .refl a m
  | destroyed => exact ((Memory.SameElsewhere.refl a m).destroyAt).setEngaged false

theorem Assigned.sameElsewhere {passed : PassedAs} {a b : Nat}
    {result : Exit Unit × Memory V × W} (h : Assigned T passed a b m w result) :
    m.SameElsewhere a result.2.1 := by
  cases h with
  | self => exact .refl a m
  | cleared _ _ h => exact h.sameElsewhere
  | terminated => exact .refl a m
  | assigned => exact ((Memory.SameElsewhere.refl a m).setValue a _).setValue b _
  | emplaced _ _ _ h _ => exact ((h.sameElsewhere.setValue b _).constructAt _).setEngaged true
  | emplaceThrew _ _ _ h _ => exact h.sameElsewhere.setValue b _

/-- Assignments make and end no storage. -/
theorem Assigned.exists {passed : PassedAs} {a b : Nat} {result : Exit Unit × Memory V × W}
    (h : Assigned T passed a b m w result) (a' : Nat) :
    result.2.1.storages a' = none ↔ m.storages a' = none := by
  cases h with
  | self => exact Iff.rfl
  | cleared _ _ h => exact h.exists a'
  | terminated => exact Iff.rfl
  | assigned => exact (Memory.exists_alter b a' _).trans (Memory.exists_alter a a' _)
  | emplaced _ _ _ h _ =>
      exact (Memory.exists_alter a a' _).trans ((Memory.exists_alter a a' _).trans
        ((Memory.exists_alter b a' _).trans (h.exists a')))
  | emplaceThrew _ _ _ h _ => exact (Memory.exists_alter b a' _).trans (h.exists a')

theorem Constructed.sameElsewhere {passed : PassedAs} {a b : Nat}
    {result : Exit Unit × Memory V × W} (h : Constructed T passed a b m w result) :
    m.SameElsewhere a result.2.1 := by
  have hcreate := (Memory.SameElsewhere.refl a m).create
  cases h with
  | empty => exact hcreate
  | emplaced => exact ((hcreate.setValue b _).constructAt _).setEngaged true
  | threw => exact (hcreate.setValue b _).remove

end Runs

/-! ## §5. Sequences of operations. -/

/-- What sequences of operations lead to, each of which may end by an exception;
in between, anything may happen in the world. -/
inductive Reachable (T : PayloadType V W) : Memory V × W → Prop
  | start (w : W) : Reachable T ({}, w)
  | elsewhere {m w} (w' : W) (h : Reachable T (m, w)) : Reachable T (m, w')
  | perform {s op} (h : Reachable T s) (hop : Op.Allowed s.1 op) :
      Reachable T (MaybeStorage.perform T op s).2

theorem Reachable.valid {T : PayloadType V W} {s : Memory V × W} (h : Reachable T s) :
    s.1.Valid := by
  induction h with
  | start w => exact .empty
  | elsewhere w' _ ih => exact ih
  | @perform s op _ hop ih =>
      obtain ⟨m, w⟩ := s
      exact perform_valid T ih hop w

end MaybeStorage

open MaybeStorage

/-- A payload type that is not assignable and whose constructors throw at 7. -/
def fussyPayload : PayloadType Nat Unit where
  assignable _ := false
  construct _ v w := (if v = 7 then none else some v, v, w)
  construct_value := by
    intro passed v w v' hmade
    by_cases hv : v = 7
    · rw [if_pos hv] at hmade
      cases hmade
    · rw [if_neg hv] at hmade
      exact (Option.some.inj hmade).symm
  assign _ _ v w := (true, (v, v), w)
  assign_value := fun _ => rfl
  destruct _ w := (true, w)

/-- Two storages, with 7 and 3. -/
def sevenAndThree : Memory Nat × Unit :=
  let s := (perform fussyPayload (.default 0) ({}, ())).2
  let s := (perform fussyPayload (.emplace 0 fun w => (some 7, w)) s).2
  let s := (perform fussyPayload (.default 1) s).2
  (perform fussyPayload (.emplace 1 fun w => (some 3, w)) s).2

theorem sevenAndThree_reachable : Reachable fussyPayload sevenAndThree :=
  .perform (.perform (.perform (.perform (.start ()) rfl) ⟨nofun, rfl⟩) rfl) ⟨nofun, rfl⟩

end YOrch
