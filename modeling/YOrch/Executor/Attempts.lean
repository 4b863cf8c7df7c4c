/-
  YOrch.Executor.Attempts — how much work a run does.

  A retry adapter repeats its task, adapters nest, and a run enters many nodes.
  `work` is the part of a run's log that says which nodes were entered and which
  were attempted, in order.

    • `attemptRaw_works`, `attemptInto_works` — an attempt is one unit of work,
      whatever the callable does,
    • `enterNode_spends` — entering a node costs its entry and at most the
      product of its retry layers' numbers of attempts,
    • `run_work_bounded` — a run attempts each node it enters within that budget,
      no other node at all, and does not depend on the bound on its loops.
-/
import YOrch.Executor.DirectOutput
import YOrch.Executor.Retries
import YOrch.Executor.Triples
import Mathlib.Algebra.Order.BigOperators.Group.Finset

namespace YOrch

open Library

variable {V W S : Type}

/-! ## §1. Entries and attempts in a log. -/

namespace Event

/-- An entry or an attempt. -/
def isWork : Event V → Bool
  | .entered _ _ | .attempted _ _ => true
  | _ => false

def enters (i : Nat) : Event V → Bool
  | .entered j _ => j == i
  | _ => false

def attempts (i : Nat) : Event V → Bool
  | .attempted j _ => j == i
  | _ => false

/-- Attempts of one node are work. -/
theorem isWork_of_attempts {i : Nat} {e : Event V} (h : e.attempts i) : e.isWork := by
  cases e with
  | attempted => rfl
  | _ => cases h

/-- So are attempts of any node. -/
theorem isWork_of_isAttempt {e : Event V} (h : e.isAttempt) : e.isWork := by
  cases e with
  | attempted => rfl
  | _ => cases h

end Event

/-- The entries and attempts in a log. -/
def work (events : List (Event V)) : List (Event V) := events.filter Event.isWork

/-- Constructions and destructions are no work. -/
@[simp] theorem work_memory (log : List MemoryEvent) (events : List (Event V)) :
    work (log.map .memory ++ events) = work events := by
  unfold work
  rw [List.filter_append]
  have hnone : (log.map Event.memory : List (Event V)).filter Event.isWork = [] := by
    rw [List.filter_eq_nil_iff]
    intro e he
    obtain ⟨event, -, rfl⟩ := List.mem_map.mp he
    exact Bool.false_ne_true
  rw [hnone, List.nil_append]

/-- A record that is no work does not count. -/
theorem work_idle {event : Event V} (h : event.isWork = false) (events : List (Event V)) :
    work (event :: events) = work events :=
  List.filter_cons_of_neg (by rw [h]; exact Bool.false_ne_true)

/-- What counts work can be counted among it. -/
theorem countP_work {q : Event V → Bool} (hq : ∀ e, q e → e.isWork) (events : List (Event V)) :
    (work events).countP q = events.countP q := by
  rw [work, List.countP_filter]
  refine List.countP_congr fun e _ => ?_
  rw [Bool.and_eq_true]
  exact ⟨fun h => h.1, fun h => ⟨h, hq e h⟩⟩

/-- A predicate on a machine's work. -/
def OfWork (P : List (Event V) → Prop) (s : Machine S V × W) : Prop := P (work s.1.events)

/-- `x` enters and attempts nothing. -/
def Idle {α : Type} (x : Exec (Machine S V × W) α) : Prop :=
  ∀ P : List (Event V) → Prop, Exec.Triple (OfWork P) x (fun _ => OfWork P) (OfWork P) (OfWork P)

namespace Idle

variable {α β : Type} {x : Exec (Machine S V × W) α}

theorem pure (a : α) : Idle (pure a : Exec (Machine S V × W) α) := fun _ => .pure fun _ h => h

theorem throw : Idle (Exec.throw : Exec (Machine S V × W) α) := fun _ => .throw fun _ h => h

theorem halt : Idle (Exec.halt : Exec (Machine S V × W) α) := fun _ => .halt fun _ h => h

/-- Idle parts make an idle whole. -/
theorem bind {f : α → Exec (Machine S V × W) β} (hx : Idle x) (hf : ∀ a, Idle (f a)) :
    Idle (x >>= f) :=
  fun P => (hx P).bind fun a => hf a P

theorem onWorld (f : W → α × W) : Idle (onWorld f : Exec (Machine S V × W) α) :=
  fun _ => .act fun _ h => h

theorem look (f : Machine S V → α) : Idle (look f : Exec (Machine S V × W) α) :=
  fun _ => .reads fun _ h => h

/-- It is enough to look at what is recorded. -/
theorem onMachine {f : Machine S V → Machine S V}
    (h : ∀ m, work (f m).events = work m.events) :
    Idle (onMachine f : Exec (Machine S V × W) Unit) := by
  intro P
  apply Exec.Triple.modify
  intro s hs
  show P (work (f s.1).events)
  rw [h]
  exact hs

/-- However a callable left. -/
theorem ofExit (exit : Exit α) : Idle (Exec.ofExit exit : Exec (Machine S V × W) α) := by
  cases exit with
  | ret a => exact pure a
  | thrown => exact throw
  | halted => exact halt

end Idle

/-! ## §2. An attempt is one unit of work. -/

/-- The last work was an attempt of node `i`, after `L`. -/
def OneMore (i : Nat) (L : List (Event V)) : Machine S V × W → Prop :=
  OfWork fun L' => ∃ live, L' = .attempted i live :: L

/-- `x` attempts node `i` once, and does nothing else that is work. -/
def WorksOnce (i : Nat) {α : Type} (x : Exec (Machine S V × W) α) : Prop :=
  ∀ L, Exec.Triple (OfWork (· = L)) x (fun _ => OneMore i L) (OneMore i L) (OneMore i L)

section Attempts

variable {api : SlotsApi V S} {p : Program V W} {i : Nat}

/-- A violation is recorded, but is no work. -/
theorem contract_idle (asserts : Bool) (violation : Violation) (holds : Machine S V → Bool) :
    Idle (contract asserts violation holds : Exec (Machine S V × W) Unit) := by
  unfold contract
  apply (Idle.look holds).bind
  rintro (_ | _)
  · apply Idle.bind (.onMachine fun m => work_idle rfl m.events)
    intro _
    cases asserts
    · exact .pure ()
    · exact .halt
  · exact .pure ()

/-- The slots record memory events only. -/
theorem onSlots_idle (op : S → List MemoryEvent × S) :
    Idle (onMachine fun m : Machine S V => m.onSlots op : Exec (Machine S V × W) Unit) := by
  apply Idle.onMachine
  intro m
  rw [Machine.onSlots_events, work_memory]

/-- What was written is assigned without a record. -/
theorem writeBack_idle (written : Option V) :
    Idle (onMachine (writeBack api p i written) : Exec (Machine S V × W) Unit) := by
  apply Idle.onMachine
  intro m
  rw [writeBack_events]

/-- Resolution records what it resolved, at most. -/
theorem resolveAs_idle (binding : Spec × CppType) : Idle (resolveAs api p i binding) := by
  unfold resolveAs
  split
  · apply (Idle.look _).bind
    intro found
    split
    · -- the argument is resolved and recorded, and may throw
      apply Idle.bind (x := Exec.act _)
      · intro P
        apply Exec.Triple.act
        intro s hs
        show P (work (resolveStep api p i binding _ _ _ s.1).events)
        rw [resolveStep_events, work_idle rfl]
        exact hs
      · intro arg
        split
        · exact .pure arg
        · exact .throw
    · exact (Idle.onMachine fun m => work_idle rfl m.events).bind fun _ => .halt
  · apply (Idle.onWorld _).bind
    intro returned
    split
    · exact .pure none
    · exact .throw

theorem resolveAll_idle : ∀ bindings : List (Spec × CppType), Idle (resolveAll api p i bindings)
  | [] => .pure []
  | binding :: rest =>
      (resolveAs_idle binding).bind fun _ => (resolveAll_idle rest).bind fun _ => .pure _

/-- By the body: each use of the sink is a use of a slot. -/
theorem runSink_idle : ∀ body : SinkBody V W, Idle (runSink api p i body)
  | .finish exit written world =>
      (Idle.onWorld _).bind fun _ => (writeBack_idle written).bind fun _ => .ofExit exit
  | .hasValue next => (Idle.look _).bind fun live => runSink_idle (next live)
  | .emplace payload next => by
      apply (contract_idle _ _ _).bind
      intro _
      apply Idle.bind _ fun _ => runSink_idle next
      cases payload with
      | none => exact .onMachine fun _ => rfl
      | some v => exact onSlots_idle _
  | .destroy next => (onSlots_idle _).bind fun _ => runSink_idle next

/-- An attempt begins with its record. -/
theorem WorksOnce.of_idle {α : Type} {x : Exec (Machine S V × W) α} (hx : Idle x) :
    WorksOnce i (onMachine (beginAttempt api p i) >>= fun _ => x) := by
  intro L
  apply Exec.Triple.bind _ fun _ => hx _
  apply Exec.Triple.modify
  intro s hs
  obtain rfl : work s.1.events = L := hs
  exact ⟨_, rfl⟩

/-- An attempt through `invoke_raw` is one unit of work. -/
theorem attemptRaw_works : WorksOnce i (attemptRaw api p i) := by
  apply WorksOnce.of_idle
  apply (resolveAll_idle _).bind
  intro args
  apply (Idle.onWorld _).bind
  rintro ⟨exit, written⟩
  exact (writeBack_idle written).bind fun _ => .ofExit exit

/-- And so is one through `invoke_into`. -/
theorem attemptInto_works : WorksOnce i (attemptInto api p i) := by
  apply WorksOnce.of_idle
  apply (resolveAll_idle _).bind
  intro args
  exact (Idle.onWorld _).bind fun body => runSink_idle body

end Attempts

/-! ## §3. What entering a node costs. -/

/-- Since the work was `L`, node `i` was attempted `n` times, and nothing else. -/
def Attempted (i n : Nat) (L L' : List (Event V)) : Prop :=
  ∃ attempts, L' = attempts ++ L ∧ attempts.length = n
    ∧ ∀ e ∈ attempts, ∃ live, e = .attempted i live

/-- No attempts yet. -/
theorem Attempted.refl (i : Nat) (L : List (Event V)) : Attempted i 0 L L :=
  ⟨[], rfl, rfl, fun _ h => absurd h List.not_mem_nil⟩

/-- One attempt more. -/
theorem Attempted.cons {i n : Nat} {L L' : List (Event V)} (h : Attempted i n L L')
    (live : Option Bool) : Attempted i (n + 1) L (.attempted i live :: L') := by
  obtain ⟨attempts, rfl, rfl, hattempts⟩ := h
  refine ⟨.attempted i live :: attempts, rfl, rfl, ?_⟩
  intro e he
  rcases List.mem_cons.mp he with rfl | he
  · exact ⟨live, rfl⟩
  · exact hattempts e he

/-- The count beside a machine is the number of attempts since the work was `L`. -/
structure Counts (i : Nat) (L : List (Event V)) (s : (Nat × Machine S V) × W)
    (t : Machine S V × W) : Prop where
  machine : s.1.2 = t.1
  world : s.2 = t.2
  attempted : Attempted i s.1.1 L (work t.1.events)

section Costs

variable {i : Nat} {L : List (Event V)}

/-- Both sides see one world, and may change it alike. -/
theorem counts_stable :
    WorldStable (Counts i L : (Nat × Machine S V) × W → Machine S V × W → Prop) :=
  fun _ _ h => ⟨h.world, fun _ => ⟨h.machine, rfl, h.attempted⟩⟩

/-- Counting an attempt is counting its unit of work. -/
theorem counted_works {R : Type} {x : Exec (Machine S V × W) R} (hx : WorksOnce i x) :
    Exec.Sim (Counts i L) (counted x) x (fun _ => Counts i L) (Counts i L) (Counts i L) := by
  rintro ⟨⟨n, m⟩, w⟩ ⟨m', w'⟩ ⟨rfl, rfl, hattempted⟩
  have hends := (hx (work m.events)).ends (s := (m, w)) rfl
  rw [counted_run x n (m, w)]
  have hone : ∀ s : Machine S V × W, OneMore i (work m.events) s →
      Counts i L ((n + 1, s.1), s.2) s := by
    rintro s ⟨live, hlive⟩
    refine ⟨rfl, rfl, ?_⟩
    rw [hlive]
    exact hattempted.cons live
  revert hends
  rcases x (m, w) with ⟨raw | _ | _, s⟩
  · exact fun h => .ret (hone s h)
  · exact fun h => .thrown (hone s h)
  · exact fun h => .halted (hone s h)

/-- At most `b` attempts of node `i` since the work was `L`. -/
def Spent (i b : Nat) (L : List (Event V)) : Machine S V × W → Prop :=
  OfWork fun L' => ∃ n ≤ b, Attempted i n L L'

/-- A budget on the count is one on the work. -/
theorem CostsAtMost.spent {R : Type} {b : Nat} {x : Exec ((Nat × Machine S V) × W) R}
    {y : Exec (Machine S V × W) R} (hcost : CostsAtMost b x)
    (hsim : Exec.Sim (Counts i L) x y (fun _ => Counts i L) (Counts i L) (Counts i L)) :
    Exec.Triple (OfWork (· = L)) y (fun _ => Spent i b L) (Spent i b L) (Spent i b L) := by
  have hspent : ∀ t : Machine S V × W,
      (∃ s : (Nat × Machine S V) × W, Counts i L s t ∧ s.1.1 ≤ 0 + b) → Spent i b L t := by
    rintro t ⟨s, hs, hb⟩
    exact ⟨s.1.1, Nat.zero_add b ▸ hb, hs.attempted⟩
  apply ((hcost 0).push hsim).conseq
  · intro t ht
    refine ⟨((0, t.1), t.2), ⟨rfl, rfl, ?_⟩, Nat.le_refl 0⟩
    obtain rfl : work t.1.events = L := ht
    exact .refl i _
  · exact fun _ => hspent
  · exact hspent
  · exact hspent

variable {api : SlotsApi V S} {p : Program V W}

/-- The retry layers of node `i`'s stack are bounded by `ns`, at the entry point
the executor calls. -/
def Program.RetriesBounded (p : Program V W) (i : Nat) (ns : List Nat) : Prop :=
  if (p.plan.task i).usesDirectOutputProtocol then
    (p.plan.task i).RetriesBounded (p.behaviour i).policiesInto ns
  else
    (p.plan.task i).RetriesBounded (p.behaviour i).policies ns

/-- The budget of a stack, as attempts of its node in the log. -/
theorem invokeNodeInto_spends {ns : List Nat} (fuel : Nat)
    (h : (p.plan.task i).RetriesBounded (p.behaviour i).policiesInto ns) :
    Exec.Triple (OfWork (· = L)) (invokeNodeInto api p fuel i)
      (fun _ => Spent i (attemptBudget ns) L) (Spent i (attemptBudget ns) L)
      (Spent i (attemptBudget ns) L) := by
  apply CostsAtMost.spent (invokeInto_costs fuel (cleanUpSink api i) (attemptInto api p i)
    (p.plan.task i) (p.behaviour i).policiesInto ns h)
  apply invokeInto_sim counts_stable (fun _ _ => id) fuel (counted_works attemptInto_works)
  intro _ s t hst
  refine ⟨congrArg (cleanUpSink api i) hst.machine, hst.world, ?_⟩
  -- cleaning up is no work
  have hwork : work (cleanUpSink api i t.1).events = work t.1.events := by
    unfold cleanUpSink
    split
    · rw [Machine.onSlots_events, work_memory]
    · rfl
  rw [hwork]
  exact hst.attempted

/-- The same at the other entry point, without a cleanup. -/
theorem invokeNodeRaw_spends {ns : List Nat} (fuel : Nat)
    (h : (p.plan.task i).RetriesBounded (p.behaviour i).policies ns) :
    Exec.Triple (OfWork (· = L))
      (invokeRaw fuel (p.plan.task i) (p.behaviour i).policies (attemptRaw api p i))
      (fun _ => Spent i (attemptBudget ns) L) (Spent i (attemptBudget ns) L)
      (Spent i (attemptBudget ns) L) :=
  CostsAtMost.spent (invokeRaw_costs fuel (p.plan.task i) (p.behaviour i).policies ns h _)
    (invokeRaw_sim counts_stable (fun _ _ => id) (fun _ _ => id) fuel _ _ (fun _ _ _ => id)
      (counted_works attemptRaw_works))

/-- After its last attempt, a direct-output node checks or empties its slot. -/
theorem finalizeDirectOutputStep_idle (step : StepResult) :
    Idle (finalizeDirectOutputStep api p i step) := by
  unfold finalizeDirectOutputStep
  split
  · exact (contract_idle _ _ _).bind fun _ => .pure step
  · exact (onSlots_idle _).bind fun _ => .pure step

/-- The record of a finish is no work. -/
theorem finishNode_idle :
    Idle (onMachine (finishNode api p i) : Exec (Machine S V × W) Unit) :=
  .onMachine fun m => work_idle rfl m.events

theorem moveIntoSlot_idle (v : V) : Idle (moveIntoSlot api p i v) := by
  unfold moveIntoSlot
  apply (Idle.onWorld _).bind
  intro stored
  split
  · exact .throw
  · exact onSlots_idle _

/-- What a task returned is stored without attempting it again. -/
theorem storeNodeOutput_idle : ∀ (kind : RawKind) (raw : kind.Result V),
    Idle (storeNodeOutput api p i kind raw)
  | .void, _ => .pure false
  | .step, _ => .pure false
  | .taskResult, raw => by
      obtain ⟨step, value⟩ := raw
      cases value with
      | some v => exact (moveIntoSlot_idle v).bind fun _ => .pure true
      | none =>
          apply Idle.bind (.onMachine fun m => ?_) fun _ => .halt
          exact work_idle rfl m.events
  | .value, v => (moveIntoSlot_idle v).bind fun _ => .pure true

/-- Past its record, a direct-output node spends its attempts only. -/
theorem enterInto_spends {ns : List Nat} (fuel : Nat)
    (h : (p.plan.task i).RetriesBounded (p.behaviour i).policiesInto ns) :
    Exec.Triple (OfWork (· = L)) (enterInto api p fuel i)
      (fun _ => Spent i (attemptBudget ns) L) (Spent i (attemptBudget ns) L)
      (Spent i (attemptBudget ns) L) := by
  apply ((invokeNodeInto_spends fuel h).noexcept fun _ => id).bind
  intro step
  apply Idle.bind (finalizeDirectOutputStep_idle step)
  intro step
  split
  · exact finishNode_idle.bind fun _ => .pure _
  · exact .pure _

/-- And so does any other node. -/
theorem enterRaw_spends {ns : List Nat} (fuel : Nat)
    (h : (p.plan.task i).RetriesBounded (p.behaviour i).policies ns) :
    Exec.Triple (OfWork (· = L)) (enterRaw api p fuel i)
      (fun _ => Spent i (attemptBudget ns) L) (Spent i (attemptBudget ns) L)
      (Spent i (attemptBudget ns) L) := by
  apply ((invokeNodeRaw_spends fuel h).noexcept fun _ => id).bind
  intro raw
  have hrest : Idle (if (Program.extractStepResult (p.plan.task i).rawKind raw).ok then do
      let payloadLive ← storeNodeOutput api p i (p.plan.task i).rawKind raw
      onMachine (finishNode api p i)
      pure (NodeEnterResult.succeeded payloadLive)
    else
      pure (.unsuccessful (Program.extractStepResult (p.plan.task i).rawKind raw)) :
      Exec (Machine S V × W) NodeEnterResult) := by
    split
    · exact (storeNodeOutput_idle _ raw).bind fun _ => finishNode_idle.bind fun _ => .pure _
    · exact .pure _
  exact hrest _

/-- Node `i` was entered, and attempted at most `b` times, since the work was `L`. -/
def EnteredAtCost (i b : Nat) (L : List (Event V)) (s : Machine S V × W) : Prop :=
  ∃ prev, Spent i b (.entered i prev :: L) s

/-- **Entering a node costs its entry and at most its budget of attempts.** -/
theorem enterNode_spends {ns : List Nat} (fuel : Nat) (h : p.RetriesBounded i ns) :
    Exec.Triple (OfWork (· = L)) (enterNode api p fuel i)
      (fun _ => EnteredAtCost i (attemptBudget ns) L) (EnteredAtCost i (attemptBudget ns) L)
      (EnteredAtCost i (attemptBudget ns) L) := by
  unfold enterNode
  apply Exec.Triple.bind (Q := fun _ s => ∃ prev, OfWork (· = .entered i prev :: L) s)
  · apply Exec.Triple.modify
    intro s hs
    obtain rfl : work s.1.events = L := hs
    exact ⟨_, rfl⟩
  intro _
  apply Exec.Triple.exists_pre
  intro prev
  have hsome : ∀ s : Machine S V × W, Spent i (attemptBudget ns) (.entered i prev :: L) s →
      EnteredAtCost i (attemptBudget ns) L s := fun _ hs => ⟨prev, hs⟩
  unfold Program.RetriesBounded at h
  split at h
  · next hinto =>
      rw [if_pos hinto]
      exact (enterInto_spends fuel h).conseq (fun _ => id) (fun _ => hsome) hsome hsome
  · next hinto =>
      rw [if_neg hinto]
      exact (enterRaw_spends fuel h).conseq (fun _ => id) (fun _ => hsome) hsome hsome

end Costs

/-! ## §4. What a run costs. -/

/-- Nodes before index `n` were entered at most once and attempted within their
budget for each entry, and no others were. -/
structure Within (budget : Nat → Nat) (n : Nat) (L : List (Event V)) : Prop where
  entered : ∀ j, L.countP (Event.enters j) ≤ if j < n then 1 else 0
  attempted : ∀ j, L.countP (Event.attempts j) ≤ budget j * L.countP (Event.enters j)
  total : L.countP Event.isAttempt ≤ ∑ j ∈ Finset.range n, budget j

/-- The work of the whole log is. -/
def LogWithin (budget : Nat → Nat) (n : Nat) (events : List (Event V)) : Prop :=
  Within budget n (work events)

section Runs

variable {budget : Nat → Nat} {n m : Nat} {L L' : List (Event V)}

/-- Before the root is entered. -/
theorem Within.nil (budget : Nat → Nat) (n : Nat) : Within budget n ([] : List (Event V)) :=
  ⟨fun _ => Nat.zero_le _, fun _ => Nat.zero_le _, Nat.zero_le _⟩

/-- Later nodes have not been entered yet. -/
theorem Within.mono (h : Within budget n L) (hnm : n ≤ m) : Within budget m L := by
  refine ⟨fun j => Nat.le_trans (h.entered j) ?_, h.attempted, ?_⟩
  · split
    · next hj => rw [if_pos (Nat.lt_of_lt_of_le hj hnm)]
    · exact Nat.zero_le _
  · exact Nat.le_trans h.total
      (Finset.sum_le_sum_of_subset (Finset.range_subset_range.mpr hnm))

/-- What attempts of node `i` add to the counts. -/
theorem Attempted.counts {i b : Nat} (h : Attempted i b L L') (j : Nat) :
    L'.countP (Event.enters j) = L.countP (Event.enters j)
      ∧ L'.countP (Event.attempts j) = (if j = i then b else 0) + L.countP (Event.attempts j)
      ∧ L'.countP Event.isAttempt = b + L.countP Event.isAttempt := by
  obtain ⟨attempts, rfl, rfl, hattempts⟩ := h
  have henters : attempts.countP (Event.enters j) = 0 := by
    rw [List.countP_eq_zero]
    intro e he
    obtain ⟨live, rfl⟩ := hattempts e he
    exact Bool.false_ne_true
  have hcount : attempts.countP (Event.attempts j) = if j = i then attempts.length else 0 := by
    split
    · next hj =>
        rw [List.countP_eq_length]
        intro e he
        obtain ⟨live, rfl⟩ := hattempts e he
        exact beq_iff_eq.mpr hj.symm
    · next hj =>
        rw [List.countP_eq_zero]
        intro e he
        obtain ⟨live, rfl⟩ := hattempts e he
        rw [Event.attempts, beq_iff_eq]
        exact Ne.symm hj
  have hall : attempts.countP Event.isAttempt = attempts.length := by
    rw [List.countP_eq_length]
    intro e he
    obtain ⟨live, rfl⟩ := hattempts e he
    rfl
  rw [List.countP_append, List.countP_append, List.countP_append, henters, hcount, hall]
  exact ⟨Nat.zero_add _, rfl, rfl⟩

/-- **Entering the next node stays within the budgets.** -/
theorem Within.enter (h : Within budget n L) {b : Nat} {prev : Option V} (hb : b ≤ budget n)
    (hattempted : Attempted n b (.entered n prev :: L) L') : Within budget (n + 1) L' := by
  -- no node is entered before its turn
  have hnew : L.countP (Event.enters n) = 0 := by
    have hentered := h.entered n
    rw [if_neg (Nat.lt_irrefl n)] at hentered
    exact Nat.le_zero.mp hentered
  have hcounts : ∀ j, L'.countP (Event.enters j)
      = (if j = n then 1 else 0) + L.countP (Event.enters j)
        ∧ L'.countP (Event.attempts j)
          = (if j = n then b else 0) + L.countP (Event.attempts j) := by
    intro j
    obtain ⟨henters, hattempts, -⟩ := hattempted.counts j
    rw [henters, hattempts, List.countP_cons, List.countP_cons]
    have hentry : (Event.enters j (.entered n prev : Event V)) = decide (j = n) := by
      rw [Event.enters, Bool.eq_iff_iff, beq_iff_eq, decide_eq_true_eq, eq_comm]
    have hother : (Event.attempts j (.entered n prev : Event V)) = false := rfl
    rw [hentry, hother, Nat.add_comm (if j = n then 1 else 0)]
    simp only [decide_eq_true_eq, Bool.false_eq_true, if_false, Nat.add_zero, and_self]
  constructor
  · intro j
    have hentered := h.entered j
    rw [(hcounts j).1]
    by_cases hj : j = n
    · rw [if_pos hj, hj, hnew, if_pos (Nat.lt_succ_self n)]
    · rw [if_neg hj, Nat.zero_add]
      split at hentered
      · rwa [if_pos (by omega)]
      · exact Nat.le_trans hentered (Nat.zero_le _)
  · intro j
    have hspent := h.attempted j
    rw [(hcounts j).1, (hcounts j).2]
    by_cases hj : j = n
    · rw [if_pos hj, if_pos hj, hj, hnew]
      rw [hj, hnew] at hspent
      omega
    · rw [if_neg hj, if_neg hj, Nat.zero_add, Nat.zero_add]
      exact hspent
  · have htotal := h.total
    rw [(hattempted.counts n).2.2, List.countP_cons_of_neg Bool.false_ne_true,
      Finset.sum_range_succ]
    omega

variable {api : SlotsApi V S} {p : Program V W}

/-- Entering a node tells whether it has a payload, on any backend. -/
theorem anything_triple (i : Nat) :
    EnterTriple api p i (fun _ => True) (fun _ => True) (fun _ => True) (fun _ _ => True)
      (fun _ => True) where
  world _ _ _ _ := trivial
  halts _ _ _ := trivial
  violate _ _ _ _ _ := trivial
  attempt _ _ := trivial
  abandon _ _ _ := trivial
  skip _ _ _ _ _ := trivial
  resolve _ _ _ _ _ _ _ _ _ _ _ _ _ := trivial
  write _ _ _ _ := trivial
  sink _ _ _ _ _ := trivial
  sinkHasValue _ _ _ := trivial
  sinkEmplace _ _ _ _ := ⟨fun _ => trivial, fun _ => ⟨trivial, trivial⟩⟩
  sinkDestroy _ _ _ := trivial
  sinkFinish _ _ _ _ _ := trivial
  again _ _ _ _ := trivial
  cleanUp _ _ _ _ := trivial
  enter _ _ := trivial
  finish _ _ _ _ := trivial
  finishMissing _ _ _ _ := trivial
  failInto _ _ _ := trivial
  store _ _ _ _ _ := trivial
  pass _ _ _ _ := trivial
  fail _ _ _ := trivial

/-- The budgets of nodes whose retry layers are bounded by `ns`. -/
def budgets (ns : Nat → List Nat) (i : Nat) : Nat := attemptBudget (ns i)

variable {ns : Nat → List Nat} {fuel : Nat}

/-- Entering the next node keeps the counts, and says whether there is a payload. -/
theorem enterNode_within {i : Nat} (hi : i < p.plan.nodeCount) (h : p.RetriesBounded i (ns i)) :
    Exec.Triple (OfWork (Within (budgets ns) i)) (enterNode api p fuel i)
      (fun entered s => OfWork (Within (budgets ns) (i + 1)) s
        ∧ (entered.step.ok → entered.payloadLive = p.plan.payloadNode i))
      (OfWork (Within (budgets ns) (i + 1))) (OfWork (Within (budgets ns) (i + 1))) := by
  apply Exec.Triple.of_ends
  intro s hs
  have hwithin : ∀ s' : Machine S V × W,
      EnteredAtCost i (attemptBudget (ns i)) (work s.1.events) s' →
        OfWork (Within (budgets ns) (i + 1)) s' := by
    rintro s' ⟨prev, b, hb, hattempted⟩
    exact hs.enter hb hattempted
  -- what it costs and what it returns are told apart: both are of this one run
  have hspends : Exec.Ends (fun _ => EnteredAtCost i (attemptBudget (ns i)) (work s.1.events))
      (EnteredAtCost i (attemptBudget (ns i)) (work s.1.events))
      (EnteredAtCost i (attemptBudget (ns i)) (work s.1.events)) (enterNode api p fuel i s) :=
    (enterNode_spends fuel h).ends rfl
  have hpayload := (EnterTriple.enterNode (anything_triple i) hi fuel :
    Exec.Triple _ (enterNode api p fuel i) _ _ _).ends (s := s) trivial
  revert hspends hpayload
  rcases enterNode api p fuel i s with ⟨entered | _ | _, s'⟩
  · intro hspends hpayload
    refine ⟨hwithin s' hspends, fun hok => ?_⟩
    simp only [Exec.Ends, hok, if_true] at hpayload
    exact hpayload.1
  · exact fun hspends _ => hwithin s' hspends
  · exact fun hspends _ => hwithin s' hspends

/-- Staging copies, and attempts nothing. -/
theorem stageFanout_idle (i : Nat) : Idle (stageFanout api p i) := by
  unfold stageFanout
  apply (Idle.look _).bind
  intro found
  split
  · exact (Idle.onMachine fun m => work_idle rfl m.events).bind fun _ => .halt
  · apply (Idle.onWorld _).bind
    intro copied
    split
    · exact .throw
    · exact .onMachine fun m => work_idle rfl m.events

/-- **What a run keeps.** -/
theorem work_run (h : ∀ i < p.plan.nodeCount, p.RetriesBounded i (ns i)) :
    RunTriple p.plan.toPlanShape p.plan.payloadNode (nodeOps api p fuel)
      (fun _ n => OfWork (Within (budgets ns) (min n p.plan.nodeCount)))
      (fun _ n => OfWork (Within (budgets ns) (min n p.plan.nodeCount)))
      (fun s => LogWithin (budgets ns) p.plan.nodeCount s.1.events)
      (fun s => LogWithin (budgets ns) p.plan.nodeCount s.1.events) where
  enter i hi := by
    rw [Nat.min_eq_left hi.le, Nat.min_eq_left hi]
    apply (enterNode_within hi (h i hi)).conseq
    · exact fun _ => id
    · intro entered s hs
      cases hok : entered.step.ok with
      | true => exact ⟨hs.2 hok, hs.1⟩
      | false => exact hs.1
    · exact fun _ => id
    · exact fun _ hs => Within.mono hs hi
  stage i hi _ := by
    apply (stageFanout_idle i _).conseq
    · exact fun _ => id
    · exact fun _ _ => id
    · exact fun _ => id
    · exact fun _ hs => Within.mono hs (by omega)
  unstaged _ _ _ _ _ := Iff.rfl
  unstage i hi _ n s hs := by
    obtain ⟨log, hlog, -⟩ := s.1.destroyStage_memory i
    show Within _ _ (work (s.1.destroyStage i).events)
    rw [hlog, work_memory]
    exact hs
  destroy i hi _ n s hs := by
    show Within _ _ (work (s.1.onSlots (api.destroy i)).events)
    rw [Machine.onSlots_events, work_memory]
    exact hs
  leave _ _ _ _ _ hs := hs
  later _ n m _ hnm hs := Within.mono hs (by omega)
  laterEntered _ n m _ hnm hs := Within.mono hs (by omega)
  abandon _ n _ hs := Within.mono hs (by omega)
  abandonEntered _ n _ hs := Within.mono hs (by omega)

/-! ## §5. The bound on the loops. -/

/-- No loop of the node runs out of `2 ^ 64` iterations. -/
theorem enterNode_fuel {i : Nat} (hfuel : 2 ^ 64 ≤ fuel) (h : p.RetriesBounded i (ns i)) :
    enterNode api p fuel i = enterNode api p (2 ^ 64) i := by
  unfold Program.RetriesBounded at h
  unfold enterNode
  split at h
  · next hinto =>
      rw [if_pos hinto, if_pos hinto]
      unfold enterInto invokeNodeInto
      rw [invokeInto_fuel hfuel _ _ _ _ _ h]
  · next hinto =>
      rw [if_neg hinto, if_neg hinto]
      unfold enterRaw
      rw [invokeRaw_fuel hfuel _ _ _ h]

/-- A traversal that enters the same nodes the same way. -/
theorem dfsNode_fuel {i : Nat} (unwind : Bool) (hfuel : 2 ^ 64 ≤ fuel)
    (h : p.RetriesBounded i (ns i)) {children children' : Exec (Machine S V × W) StepResult}
    (hchildren : children = children') :
    dfsNode unwind (nodeOps api p fuel) i children
      = dfsNode unwind (nodeOps api p (2 ^ 64)) i children' := by
  subst hchildren
  unfold dfsNode
  -- staging and the slots do not look at the bound
  show (enterNode api p fuel i >>= _) = (enterNode api p (2 ^ 64) i >>= _)
  rw [enterNode_fuel hfuel h]
  rfl

/-- By the forest below a node. -/
theorem dfsChildren_fuel (unwind : Bool) (hfuel : 2 ^ 64 ≤ fuel) : ∀ f : Forest Nat,
    (∀ i ∈ f.preorder, p.RetriesBounded i (ns i)) →
      dfsChildren unwind (nodeOps api p fuel) f = dfsChildren unwind (nodeOps api p (2 ^ 64)) f
  | .nil, _ => rfl
  | .cons i below rest, h => by
      obtain ⟨hi, hbelow, hrest⟩ := Forest.forall_preorder_cons.mp h
      unfold dfsChildren
      rw [dfsNode_fuel unwind hfuel hi (dfsChildren_fuel unwind hfuel below hbelow),
        dfsChildren_fuel unwind hfuel rest hrest]

/-- A run is the same under every larger bound. -/
theorem runPlan_fuel (hfuel : 2 ^ 64 ≤ fuel)
    (h : ∀ i < p.plan.nodeCount, p.RetriesBounded i (ns i)) (exec : ExecPolicy) :
    runPlan api p exec fuel = runPlan api p exec (2 ^ 64) := by
  have hbelow : ∀ i ∈ p.plan.below.preorder, p.RetriesBounded i (ns i) :=
    fun i hi => h i ((p.plan.below_preorder.2.2 i).mp hi).2
  rw [runPlan_eq, runPlan_eq]
  unfold traversal
  rw [dfsNode_fuel _ hfuel (h 0 p.plan.nodeCount_pos) (dfsChildren_fuel _ hfuel _ hbelow)]

end Runs

/-- **The work of a run.**  If every retry layer of every node is bounded, then
under every layout and either executor a run attempts a node only if it enters
it, at most as often as the product of its layers' numbers of attempts, and in
total at most as often as these products add up to; and loops that may go on for
`2 ^ 64` iterations do not run out. -/
theorem run_work_bounded (p : Program V W) (ns : Nat → List Nat)
    (h : ∀ i < p.plan.nodeCount, p.RetriesBounded i (ns i)) (layout : SlotLayoutPolicy)
    (exec : ExecPolicy) (fuel : Nat) (w : W) :
    let run := runFrom (layout.slots p.plan.toCompiledPlan) p exec fuel w
    let events := run.2.1.events
    (∀ i, events.countP (Event.attempts i) ≤ attemptBudget (ns i))
      ∧ (∀ i, events.countP (Event.attempts i) ≠ 0 → ∃ prev, .entered i prev ∈ events)
      ∧ events.countP Event.isAttempt ≤ ∑ i ∈ Finset.range p.plan.nodeCount, attemptBudget (ns i)
      ∧ (2 ^ 64 ≤ fuel →
          run = runFrom (layout.slots p.plan.toCompiledPlan) p exec (2 ^ 64) w) := by
  intro run events
  have hwithin : LogWithin (budgets ns) p.plan.nodeCount events := by
    apply (work_run h).log
    · intro s hs
      rw [Nat.min_self] at hs
      exact hs
    · intro log events hevents
      unfold LogWithin
      rwa [work_memory]
    · exact Within.nil _ _
  have hattempts : ∀ i, (work events).countP (Event.attempts i)
      = events.countP (Event.attempts i) :=
    fun i => countP_work (fun _ => Event.isWork_of_attempts) events
  have hentered : ∀ i, (work events).countP (Event.enters i) ≤ 1 := by
    intro i
    apply Nat.le_trans (hwithin.entered i)
    split
    · exact Nat.le_refl 1
    · exact Nat.zero_le 1
  refine ⟨fun i => ?_, fun i hi => ?_, ?_, fun hfuel => ?_⟩
  · rw [← hattempts]
    apply Nat.le_trans (hwithin.attempted i)
    exact Nat.le_trans (Nat.mul_le_mul_left _ (hentered i)) (Nat.mul_one _).le
  · have hpos : 0 < (work events).countP (Event.enters i) := by
      rw [← hattempts] at hi
      -- the budget of a node that was not entered is nothing
      have hspent := hwithin.attempted i
      by_contra hzero
      rw [Nat.eq_zero_of_not_pos hzero, Nat.mul_zero] at hspent
      exact hi (Nat.le_zero.mp hspent)
    obtain ⟨e, he, henters⟩ := List.countP_pos_iff.mp hpos
    cases e with
    | entered j prev =>
        obtain rfl : j = i := beq_iff_eq.mp henters
        exact ⟨prev, List.mem_of_mem_filter he⟩
    | _ => cases henters
  · have htotal := hwithin.total
    rwa [countP_work fun _ => Event.isWork_of_isAttempt] at htotal
  · exact congrFun (runPlan_fuel hfuel h exec) _

/-- The flaky task, granted one retry. -/
def patientProgram : Program Nat Nat where
  plan := flakyPlan
  behaviour i := { flakyProgram.behaviour i with
    policies := ((retryFixedPolicy .step 1 : RetryPolicy Nat (RawKind.step.Result Nat)), ())
    policiesInto := ((retryFixedPolicy .step 1 : RetryPolicy Nat (RawKind.step.Result Nat)), ()) }
  supported := flakyProgram.supported
  copy := flakyProgram.copy
  move := flakyProgram.move
  asserts := flakyProgram.asserts

theorem patient_bounded (i : Nat) : patientProgram.RetriesBounded i [1] := by
  show RetryPolicy.Bounded _ 1 ∧ _
  exact ⟨retryFixedPolicy_bounded .step (by decide), rfl⟩

/-- The task is attempted as often as its budget allows. -/
theorem run_work_bounded_patient :
    let events := (runFrom (SlotLayoutPolicy.slots flakyPlan.toCompiledPlan .serialDfsCompact)
      patientProgram .serialDfsExplicitHeapStack 2 0).2.1.events
    2 ≤ events.countP (Event.attempts 0) ∧ events.countP (Event.attempts 0) ≤ 2 := by
  intro events
  have hrun := run_work_bounded patientProgram (fun _ => [1]) (fun i _ => patient_bounded i)
    .serialDfsCompact .serialDfsExplicitHeapStack 2 0
  exact ⟨by decide +kernel, hrun.1 0⟩

end YOrch
