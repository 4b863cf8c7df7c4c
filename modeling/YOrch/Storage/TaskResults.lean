/-
  YOrch.Storage.TaskResults — `task_result` as a pair of members.

  A `task_result` is a status beside a `maybe_storage`.  Its assignment operators
  are defaulted: they assign the status first, and the storage's assignment may
  throw after that.

    • `Assigned.engaged_iff` — an assignment of storages leaves the target as
      engaged as the source unless it `Tears`,
    • `perform_paired` — an operation keeps status and storage in step exactly
      if it does not tear,
    • `taskResult_paired_iff` — so they are in step in every run without such an
      assignment, and no longer than that.
-/
import YOrch.Result
import YOrch.Storage.MaybeStorage

namespace YOrch

open Library

variable {V W : Type}

/-! ## §1. Assignments that leave the target empty. -/

namespace MaybeStorage

/-- The source holds a value, which has to be constructed in the target, and that
throws. -/
def Tears (T : PayloadType V W) (passed : PassedAs) (a b : Nat) (m : Memory V) (w : W) : Prop :=
  a ≠ b ∧ ∃ v, m.valueAt b = some v
    ∧ ((m.valueAt a = none ∧ (T.construct passed v w).1 = none)
      ∨ ∃ old, m.valueAt a = some old ∧ T.assignable passed = false
        ∧ (T.destruct old w).1 = true ∧ (T.construct passed v (T.destruct old w).2).1 = none)

variable {T : PayloadType V W} {passed : PassedAs} {a b : Nat} {m m' : Memory V} {w w' : W}

/-- Once the target is cleared, the construction decides. -/
theorem Cleared.tears_iff (h : Cleared T a m w m' w') (hab : a ≠ b) {held : Nat × V}
    (hb : m.heldAt b = some held) (hempty : m.heldAt a = none ∨ T.assignable passed = false) :
    Tears T passed a b m w ↔ (T.construct passed held.2 w').1 = none := by
  have hvalue := Memory.valueAt_some hb
  cases h with
  | empty ha =>
      -- nothing was destroyed, so the world is still the first one
      have hnone : m.valueAt a = none := by
        unfold Memory.valueAt
        rw [ha]
        rfl
      constructor
      · rintro ⟨-, v, hv, ⟨-, hthrows⟩ | ⟨old, hold, -⟩⟩
        · rw [hvalue] at hv
          obtain rfl := Option.some.inj hv
          exact hthrows
        · rw [hnone] at hold
          cases hold
      · intro hthrows
        exact ⟨hab, held.2, hvalue, Or.inl ⟨hnone, hthrows⟩⟩
  | @destroyed held' ha hreturns =>
      have hold := Memory.valueAt_some ha
      constructor
      · rintro ⟨-, v, hv, ⟨hnone, -⟩ | ⟨old, hold', -, -, hthrows⟩⟩
        · rw [hold] at hnone
          cases hnone
        · rw [hvalue] at hv
          rw [hold] at hold'
          obtain rfl := Option.some.inj hv
          obtain rfl := Option.some.inj hold'
          exact hthrows
      · intro hthrows
        have hassignable : T.assignable passed = false := by
          rcases hempty with hnone | hassignable
          · rw [ha] at hnone
            cases hnone
          · exact hassignable
        exact ⟨hab, held.2, hvalue, Or.inr ⟨held'.2, hold, hassignable, hreturns, hthrows⟩⟩

/-- **Engaged as the source**, exactly if the assignment does not tear. -/
theorem Assigned.engaged_iff {result : Exit Unit × Memory V × W}
    (h : Assigned T passed a b m w result) (hm : m.Valid) (ha : m.storages a ≠ none)
    (hends : result.1 ≠ .halted) :
    result.2.1.engagedAt a = m.engagedAt b ↔ ¬ Tears T passed a b m w := by
  have hvalid := h.valid hm ha
  rw [hvalid.engaged, hm.engaged b]
  -- the storage cases of an assignment: only one of them leaves a target unlike its source
  cases h with
  | self hab =>
      rw [hab]
      exact ⟨fun _ htears => htears.1 rfl, fun _ => rfl⟩
  | cleared hab hb h =>
      rw [h.heldAt, Function.update_self, hb]
      constructor
      · rintro - ⟨-, v, hv, -⟩
        unfold Memory.valueAt at hv
        rw [hb] at hv
        cases hv
      · exact fun _ => rfl
  | terminated => exact absurd rfl hends
  | assigned hab ha' hb hassignable =>
      rw [Memory.heldAt_setValue, Function.update_of_ne hab, Memory.heldAt_setValue,
        Function.update_self, ha', hb]
      constructor
      · rintro - ⟨-, v, -, ⟨hnone, -⟩ | ⟨old, -, hnot, -⟩⟩
        · rw [Memory.valueAt_some ha'] at hnone
          cases hnone
        · rw [hassignable] at hnot
          cases hnot
      · exact fun _ => rfl
  | @emplaced m' w' v held hab hb hempty h hmade =>
      have hexists : (m'.setValue b (T.construct passed held.2 w').2.1).storages a ≠ none :=
        mt (Memory.exists_alter b a _).mp (mt (h.exists a).mp ha)
      rw [Memory.heldAt_setEngaged, Memory.heldAt_constructAt hexists, Function.update_self, hb,
        h.tears_iff hab hb hempty, hmade]
      exact ⟨fun _ => nofun, fun _ => rfl⟩
  | emplaceThrew hab hb hempty h hmade =>
      rw [Memory.heldAt_setValue, Function.update_of_ne hab, h.heldAt, Function.update_self, hb,
        h.tears_iff hab hb hempty, hmade]
      exact ⟨nofun, fun hnot => absurd rfl hnot⟩

end MaybeStorage

/-! ## §2. Results in memory. -/

/-- The `task_result`s of a program: their values, their statuses, and the rest of
the world.  One exists where its storage does. -/
abbrev Results (V W : Type) : Type := Memory V × (Nat → StepResult) × W

/-- Payloads have no part in statuses. -/
def PayloadType.besideSteps (T : PayloadType V W) : PayloadType V ((Nat → StepResult) × W) where
  assignable := T.assignable
  construct passed v w :=
    ((T.construct passed v w.2).1, (T.construct passed v w.2).2.1,
      (w.1, (T.construct passed v w.2).2.2))
  construct_value := T.construct_value
  assign passed old v w :=
    ((T.assign passed old v w.2).1, (T.assign passed old v w.2).2.1,
      (w.1, (T.assign passed old v w.2).2.2))
  assign_value := T.assign_value
  destruct v w := ((T.destruct v w.2).1, (w.1, (T.destruct v w.2).2))

namespace TaskResults

variable (T : PayloadType V W)

/-- `step` of the result at `a`. -/
def setStep (a : Nat) (step : StepResult) : Exec (Results V W) Unit :=
  Exec.modify fun s => (s.1, Function.update s.2.1 a step, s.2.2)

/-- `step = other.step`. -/
def copyStep (a b : Nat) : Exec (Results V W) Unit :=
  Exec.modify fun s => (s.1, Function.update s.2.1 a (s.2.1 b), s.2.2)

/-- `success`.  If the body of the constructor throws, the members it has are
destroyed. -/
def success (a : Nat) (constructor : W → Option V × W) : Exec (Results V W) Unit := do
  setStep a .success
  MaybeStorage.onMemory (·.create a)
  Exec.catchAll
    (MaybeStorage.emplace a (MaybeStorage.runConstructor fun w =>
      ((constructor w.2).1, (w.1, (constructor w.2).2))))
    (do
      MaybeStorage.destruct T.besideSteps a
      Exec.throw)

/-- `from_step`. -/
def fromStep (a : Nat) (step : StepResult) : Exec (Results V W) Unit := do
  setStep a step
  MaybeStorage.onMemory (·.create a)

/-- The defaulted copy and move constructors. -/
def construct (passed : PassedAs) (a b : Nat) : Exec (Results V W) Unit := do
  copyStep a b
  MaybeStorage.construct T.besideSteps passed a b

/-- The defaulted assignment operators, which go through the members in order. -/
def assign (passed : PassedAs) (a b : Nat) : Exec (Results V W) Unit := do
  -- `step` is declared before `value_`
  copyStep a b
  MaybeStorage.assign T.besideSteps passed a b

/-- The operations on results. -/
inductive Op (V W : Type) where
  | success (a : Nat) (constructor : W → Option V × W)
  | fromStep (a : Nat) (step : StepResult)
  | construct (passed : PassedAs) (a b : Nat)
  | assign (passed : PassedAs) (a b : Nat)
  | destruct (a : Nat)

/-- The other factories. -/
def Op.failure (a : Nat) : Op V W := .fromStep a .failure
def Op.retry (a : Nat) : Op V W := .fromStep a .retry
def Op.abortBranch (a : Nat) : Op V W := .fromStep a .abortBranch
def Op.abortExecution (a : Nat) : Op V W := .fromStep a .abortExecution

def perform : Op V W → Exec (Results V W) Unit
  | .success a constructor => success T a constructor
  | .fromStep a step => fromStep a step
  | .construct passed a b => construct T passed a b
  | .assign passed a b => assign T passed a b
  | .destruct a => MaybeStorage.destruct T.besideSteps a

/-- An operation is on results that exist, or makes one that does not; `from_step`
takes a status that is not a success. -/
def Op.Allowed (m : Memory V) : Op V W → Prop
  | .success a _ => m.storages a = none
  | .fromStep a step => m.storages a = none ∧ step.ok = false
  | .construct _ a b => m.storages a = none ∧ m.storages b ≠ none
  | .assign _ a b => m.storages a ≠ none ∧ m.storages b ≠ none
  | .destruct a => m.storages a ≠ none

/-- The operation is an assignment that tears. -/
def Op.Tears (s : Results V W) : Op V W → Prop
  | .assign passed a b => MaybeStorage.Tears T passed a b s.1 s.2.2
  | .success .. | .fromStep .. | .construct .. | .destruct _ => False

/-- `step.ok()` exactly if `has_value()`, for every result there is. -/
def Paired (s : Results V W) : Prop :=
  ∀ a, s.1.storages a ≠ none → (s.2.1 a).ok = s.1.engagedAt a

/-! ## §3. What the operations do. -/

section Runs

variable {T : PayloadType V W} {s : Results V W}

theorem cleared_steps {a : Nat} {m m' : Memory V} {w w' : (Nat → StepResult) × W}
    (h : MaybeStorage.Cleared T.besideSteps a m w m' w') : w'.1 = w.1 := by
  cases h <;> rfl

theorem assigned_steps {passed : PassedAs} {a b : Nat} {m : Memory V}
    {w : (Nat → StepResult) × W} {result : Exit Unit × Results V W}
    (h : MaybeStorage.Assigned T.besideSteps passed a b m w result) : result.2.2.1 = w.1 := by
  cases h with
  | self => rfl
  | cleared _ _ h => exact cleared_steps h
  | terminated => rfl
  | assigned => rfl
  | @emplaced m' w' _ _ _ _ _ h _ =>
      show w'.1 = w.1
      exact cleared_steps h
  | @emplaceThrew m' w' _ _ _ _ h _ =>
      show w'.1 = w.1
      exact cleared_steps h

theorem constructed_steps {passed : PassedAs} {a b : Nat} {m : Memory V}
    {w : (Nat → StepResult) × W} {result : Exit Unit × Results V W}
    (h : MaybeStorage.Constructed T.besideSteps passed a b m w result) : result.2.2.1 = w.1 := by
  cases h <;> rfl

/-- What a `success` leaves. -/
theorem success_run (a : Nat) (constructor : W → Option V × W) :
    success T a constructor s
      = match (constructor s.2.2).1 with
        | some v => (.ret (), (((s.1.create a).constructAt a v).setEngaged a true,
            (Function.update s.2.1 a .success, (constructor s.2.2).2)))
        | none => (.thrown, ((s.1.create a).remove a,
            (Function.update s.2.1 a .success, (constructor s.2.2).2))) := by
  have hemplace := MaybeStorage.emplace_constructor (m := s.1.create a)
    (w := (Function.update s.2.1 a .success, s.2.2)) a
    fun w => ((constructor w.2).1, (w.1, (constructor w.2).2))
  unfold success setStep MaybeStorage.onMemory
  rw [Exec.bind_ret (Exec.modify_run _ _), Exec.bind_ret (Exec.modify_run _ _)]
  unfold Exec.catchAll
  rw [hemplace]
  cases (constructor s.2.2).1 with
  | some v => rfl
  | none =>
      -- the member that was constructed is destroyed, empty
      have hempty : (s.1.create a).engagedAt a = false := by
        rw [Memory.engagedAt_create, Function.update_self]
      show (MaybeStorage.destruct T.besideSteps a >>= fun _ => Exec.throw) _ = _
      unfold MaybeStorage.destruct
      rw [Exec.bind_assoc, Exec.bind_ret (MaybeStorage.destroy_empty hempty)]
      rfl

/-- Only the result at `a` may have come out of step. -/
theorem paired_iff {r : Results V W} {a : Nat} {step : StepResult} (hp : Paired s)
    (hm : s.1.SameElsewhere a r.1) (hsteps : r.2.1 = Function.update s.2.1 a step) :
    Paired r ↔ (r.1.storages a ≠ none → step.ok = r.1.engagedAt a) := by
  constructor
  · intro h hexists
    have ha := h a hexists
    rw [hsteps, Function.update_self] at ha
    exact ha
  · intro h a' hexists
    rw [hsteps]
    by_cases ha : a' = a
    · subst ha
      rw [Function.update_self]
      exact h hexists
    · rw [Function.update_of_ne ha, hm.engaged a' ha]
      exact hp a' (mt (hm.present a' ha).mpr hexists)

/-- **Assignment**: paired exactly if it did not tear. -/
theorem assign_paired (hm : s.1.Valid) (hp : Paired s) {passed : PassedAs} {a b : Nat}
    (ha : s.1.storages a ≠ none) (hb : s.1.storages b ≠ none)
    (hends : (assign T passed a b s).1 ≠ .halted) :
    Paired (assign T passed a b s).2 ↔ ¬ MaybeStorage.Tears T passed a b s.1 s.2.2 := by
  obtain ⟨m, steps, w⟩ := s
  have hassigned := MaybeStorage.assign_assigned T.besideSteps hm passed a b
    (Function.update steps a (steps b), w)
  have hrun : assign T passed a b (m, steps, w)
      = MaybeStorage.assign T.besideSteps passed a b
          (m, Function.update steps a (steps b), w) := rfl
  rw [hrun] at hends ⊢
  -- the status is the source's, and the source was in step
  have hexists := mt (hassigned.exists a).mp ha
  have hengaged := hassigned.engaged_iff hm ha hends
  rw [paired_iff hp hassigned.sameElsewhere (assigned_steps hassigned), hp b hb]
  constructor
  · intro h
    exact hengaged.mp (h hexists).symm
  · intro h _
    exact (hengaged.mpr h).symm

theorem construct_paired (hm : s.1.Valid) (hp : Paired s) {passed : PassedAs} {a b : Nat}
    (ha : s.1.storages a = none) (hb : s.1.storages b ≠ none) :
    Paired (construct T passed a b s).2 := by
  obtain ⟨m, steps, w⟩ := s
  have hab : a ≠ b := by
    rintro rfl
    exact hb ha
  have hconstructed := MaybeStorage.construct_constructed T.besideSteps hm passed hab
    (Function.update steps a (steps b), w)
  have hvalid := hconstructed.valid hm hab ha
  have hrun : construct T passed a b (m, steps, w)
      = MaybeStorage.construct T.besideSteps passed a b
          (m, Function.update steps a (steps b), w) := rfl
  rw [hrun, paired_iff hp hconstructed.sameElsewhere (constructed_steps hconstructed), hp b hb]
  intro hexists
  exact (hconstructed.engaged hm hexists).symm

theorem fromStep_paired (hp : Paired s) {a : Nat} {step : StepResult} (hstep : step.ok = false) :
    Paired (fromStep a step s).2 := by
  have hrun : fromStep a step s
      = (.ret (), (s.1.create a, (Function.update s.2.1 a step, s.2.2))) := rfl
  rw [hrun, paired_iff hp (Memory.SameElsewhere.refl a s.1).create rfl]
  intro _
  rw [Memory.engagedAt_create, Function.update_self, hstep]

theorem success_paired (hp : Paired s) (a : Nat) (constructor : W → Option V × W) :
    Paired (success T a constructor s).2 := by
  have hcreate := (Memory.SameElsewhere.refl a s.1).create
  rw [success_run]
  cases (constructor s.2.2).1 with
  | some v =>
      refine (paired_iff hp ((hcreate.constructAt v).setEngaged true) rfl).mpr ?_
      intro hexists
      rw [Memory.engagedAt_setEngaged (mt (Memory.exists_alter a a _).mpr hexists),
        Function.update_self]
      rfl
  | none =>
      refine (paired_iff hp hcreate.remove rfl).mpr ?_
      intro hexists
      exact absurd (Memory.not_exists_remove a) hexists

theorem destruct_paired (hm : s.1.Valid) (hp : Paired s) {a : Nat}
    (hends : (MaybeStorage.destruct T.besideSteps a s).1 ≠ .halted) :
    Paired (MaybeStorage.destruct T.besideSteps a s).2 := by
  obtain ⟨m, w⟩ := s
  unfold MaybeStorage.destruct at hends ⊢
  rcases MaybeStorage.destroy_cases T.besideSteps hm a w with
    ⟨m', w', hcleared, hrun⟩ | ⟨held, -, -, hrun⟩
  · rw [Exec.bind_ret hrun]
    have hsteps : w'.1 = Function.update w.1 a (w.1 a) := by
      rw [Function.update_eq_self]
      exact cleared_steps hcleared
    refine (paired_iff hp hcleared.sameElsewhere.remove hsteps).mpr ?_
    intro hexists
    exact absurd (Memory.not_exists_remove a) hexists
  · rw [Exec.bind_halted hrun] at hends
    exact absurd rfl hends

/-- **Every operation** keeps statuses and storages in step, unless it tears. -/
theorem perform_paired (hm : s.1.Valid) (hp : Paired s) {op : Op V W} (hop : op.Allowed s.1)
    (hends : (perform T op s).1 ≠ .halted) : Paired (perform T op s).2 ↔ ¬ op.Tears T s := by
  cases op with
  | success a constructor => exact iff_of_true (success_paired hp a constructor) id
  | fromStep a step => exact iff_of_true (fromStep_paired hp hop.2) id
  | construct passed a b => exact iff_of_true (construct_paired hm hp hop.1 hop.2) id
  | assign passed a b => exact assign_paired hm hp hop.1 hop.2 hends
  | destruct a => exact iff_of_true (destruct_paired hm hp hends) id

/-- Every operation keeps memory valid. -/
theorem perform_valid (hm : s.1.Valid) {op : Op V W} (hop : op.Allowed s.1) :
    (perform T op s).2.1.Valid := by
  cases op with
  | success a constructor =>
      show (success T a constructor s).2.1.Valid
      rw [success_run]
      have hempty : (s.1.create a).heldAt a = none := by
        rw [Memory.heldAt_create, Function.update_self]
      cases (constructor s.2.2).1 with
      | some v =>
          exact (hm.create hop).emplaced (Memory.exists_create a) hempty v
      | none => exact (hm.create hop).remove hempty
  | fromStep a step => exact hm.create hop.1
  | construct passed a b =>
      show (MaybeStorage.perform T.besideSteps (.construct passed a b)
        (s.1, Function.update s.2.1 a (s.2.1 b), s.2.2)).2.1.Valid
      refine MaybeStorage.perform_valid T.besideSteps hm ?_ _
      exact hop
  | assign passed a b =>
      show (MaybeStorage.perform T.besideSteps (.assign passed a b)
        (s.1, Function.update s.2.1 a (s.2.1 b), s.2.2)).2.1.Valid
      refine MaybeStorage.perform_valid T.besideSteps hm ?_ _
      exact hop
  | destruct a =>
      show (MaybeStorage.perform T.besideSteps (.destruct a) (s.1, s.2)).2.1.Valid
      refine MaybeStorage.perform_valid T.besideSteps hm ?_ _
      exact hop

end Runs

/-! ## §4. Runs. -/

/-- What sequences of operations lead to, if each meets `Ok` before it is made.
Each may end by an exception; in between, anything may happen in the world. -/
inductive Reachable (T : PayloadType V W) (Ok : Op V W → Results V W → Prop) : Results V W → Prop
  | start (steps w) : Reachable T Ok ({}, steps, w)
  | elsewhere {m steps w} (w' : W) (h : Reachable T Ok (m, steps, w)) :
      Reachable T Ok (m, steps, w')
  | perform {s op} (h : Reachable T Ok s) (hop : Op.Allowed s.1 op) (hok : Ok op s)
      (hends : (TaskResults.perform T op s).1 ≠ .halted) :
      Reachable T Ok (TaskResults.perform T op s).2

theorem Reachable.valid {T : PayloadType V W} {Ok : Op V W → Results V W → Prop}
    {s : Results V W} (h : Reachable T Ok s) : s.1.Valid := by
  induction h with
  | start steps w => exact .empty
  | elsewhere w' _ ih => exact ih
  | perform _ hop _ _ ih => exact perform_valid ih hop

/-- **No run that does not tear** leaves a result out of step. -/
theorem Reachable.paired {T : PayloadType V W} {s : Results V W}
    (h : Reachable T (fun op s => ¬ op.Tears T s) s) : Paired s := by
  induction h with
  | start steps w => exact fun _ hexists => absurd rfl hexists
  | elsewhere w' _ ih => exact ih
  | perform h hop hok hends ih => exact (perform_paired h.valid ih hop hends).mpr hok

end TaskResults

open TaskResults

/-- **Statuses and storages.**  In every run in which no assignment tears, each
`task_result` has a value exactly if its step is ok; and the first assignment that
does tear leaves one of which that is not true. -/
theorem taskResult_paired_iff (T : PayloadType V W) {s : Results V W}
    (h : TaskResults.Reachable T (fun op s => ¬ op.Tears T s) s) :
    Paired s ∧ ∀ op : TaskResults.Op V W, op.Allowed s.1 →
      (TaskResults.perform T op s).1 ≠ .halted →
        (Paired (TaskResults.perform T op s).2 ↔ ¬ op.Tears T s) :=
  ⟨h.paired, fun _ hop hends => TaskResults.perform_paired h.valid h.paired hop hends⟩

/-- A success with 7 and a failure. -/
def sevenAndFailure : Results Nat Unit :=
  let s := (TaskResults.perform fussyPayload (.success 0 fun w => (some 7, w))
    ({}, fun _ => .failure, ())).2
  (TaskResults.perform fussyPayload (.failure 1) s).2

theorem sevenAndFailure_reachable {Ok : TaskResults.Op Nat Unit → Results Nat Unit → Prop}
    (hsuccess : ∀ a constructor s, Ok (.success a constructor) s)
    (hfailure : ∀ a s, Ok (.failure a) s) :
    TaskResults.Reachable fussyPayload Ok sevenAndFailure := by
  apply TaskResults.Reachable.perform
  · apply TaskResults.Reachable.perform
    · exact .start _ _
    · rfl
    · exact hsuccess _ _ _
    · decide
  · exact ⟨rfl, rfl⟩
  · exact hfailure _ _
  · decide

/-- The failure is not torn yet, but it is by an assignment of the success. -/
theorem taskResult_paired_iff_torn :
    Paired sevenAndFailure
      ∧ ¬ Paired (TaskResults.perform fussyPayload (.assign .copied 1 0) sevenAndFailure).2 := by
  have hpaired := taskResult_paired_iff fussyPayload
    (sevenAndFailure_reachable (fun _ _ _ => id) (fun _ _ => id))
  refine ⟨hpaired.1, ?_⟩
  rw [hpaired.2 (.assign .copied 1 0) ⟨nofun, nofun⟩ (by decide), not_not]
  exact ⟨by decide, 7, rfl, Or.inl ⟨rfl, rfl⟩⟩

/-- An assignment that threw left a success without a value. -/
theorem thrownAssign_unpaired :
    TaskResults.Reachable fussyPayload (fun _ _ => True)
        (TaskResults.perform fussyPayload (.assign .copied 1 0) sevenAndFailure).2
      ∧ (TaskResults.perform fussyPayload (.assign .copied 1 0) sevenAndFailure).1 = .thrown
      ∧ ((TaskResults.perform fussyPayload (.assign .copied 1 0) sevenAndFailure).2.2.1 1).ok = true
      ∧ (TaskResults.perform fussyPayload (.assign .copied 1 0) sevenAndFailure).2.1.engagedAt 1
        = false
      ∧ ¬ Paired (TaskResults.perform fussyPayload (.assign .copied 1 0) sevenAndFailure).2 := by
  have hok : ((TaskResults.perform fussyPayload (.assign .copied 1 0) sevenAndFailure).2.2.1 1).ok
      = true := rfl
  have hempty : (TaskResults.perform fussyPayload (.assign .copied 1 0)
      sevenAndFailure).2.1.engagedAt 1 = false := rfl
  refine ⟨?_, rfl, hok, hempty, ?_⟩
  · apply TaskResults.Reachable.perform
    · exact sevenAndFailure_reachable (fun _ _ _ => trivial) (fun _ _ => trivial)
    · exact ⟨nofun, nofun⟩
    · trivial
    · decide
  · intro hpaired
    have h := hpaired 1 nofun
    rw [hok, hempty] at h
    cases h

end YOrch
