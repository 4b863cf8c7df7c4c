/-
  YOrch.Executor.DirectOutput — a direct-output task and its sink, under any
  adapters.

  Cleaning up a sink is split between the retry loop, which empties it before
  another attempt, the catch adapters, which leave what they find, and the two
  finalizers.  For a callable that emplaces at most once:

    • `invokeInto_keepsSink` — every attempt begins with an empty sink, the sink
      is live at the end exactly if the last attempt emplaced, and either
      finalizer empties it after anything but a success.
-/
import YOrch.Executor.Backends

namespace YOrch

open Library

variable {V W S : Type}

/-! ## §1. Callables. -/

namespace SinkBody

/-- At most `n` calls of `emplace`, where `live` is what `has_value` answers. -/
def EmplacesAtMost : SinkBody V W → Bool → Nat → Prop
  | .finish .., _, _ => True
  | .hasValue next, live, n => (next live).EmplacesAtMost live n
  | .emplace _ _, _, 0 => False
  | .emplace payload next, live, n + 1 => next.EmplacesAtMost (live || payload.isSome) n
  | .destroy next, _, n => next.EmplacesAtMost false n

/-- A callable that still emplaces has a call left, so no payload is live yet. -/
theorem EmplacesAtMost.budget {payload : Option V} {next : SinkBody V W} {slot : Option V}
    {live : Bool} {n : Nat} (h : (SinkBody.emplace payload next).EmplacesAtMost live n)
    (hzero : slot ≠ none → n = 0) : slot = none ∧ ∃ k, n = k + 1 := by
  cases n with
  | zero => exact absurd h id
  | succ k => exact ⟨not_not.mp fun hne => absurd (hzero hne) (Nat.succ_ne_zero k), k, rfl⟩

/-- No call of `destroy`, where `live` is what `has_value` answers. -/
def LeavesPayload : SinkBody V W → Bool → Prop
  | .finish .., _ => True
  | .hasValue next, live => (next live).LeavesPayload live
  | .emplace payload next, live => next.LeavesPayload (live || payload.isSome)
  | .destroy _, _ => False

end SinkBody

/-! ## §2. What the record says about attempts. -/

def Event.isAttempt : Event V → Bool
  | .attempted .. => true
  | _ => false

/-- The event constructs node `i`'s payload. -/
def Event.emplaces (i : Nat) : Event V → Bool
  | .memory (.constructed (.payload node) _) => node == i
  | _ => false

/-- The events of the last attempt, the latest first. -/
def lastAttempt (events : List (Event V)) : List (Event V) :=
  events.takeWhile fun event => !event.isAttempt

/-- The last attempt constructed node `i`'s payload. -/
def lastEmplaced (i : Nat) (events : List (Event V)) : Bool :=
  (lastAttempt events).any (Event.emplaces i)

theorem lastEmplaced_cons {i : Nat} {event : Event V} {events : List (Event V)}
    (h : event.isAttempt = false) :
    lastEmplaced i (event :: events) = (event.emplaces i || lastEmplaced i events) := by
  rw [lastEmplaced, lastAttempt, List.takeWhile_cons_of_pos (by simp [h]), List.any_cons]
  rfl

theorem lastEmplaced_attempt {i : Nat} {event : Event V} {events : List (Event V)}
    (h : event.isAttempt = true) : lastEmplaced i (event :: events) = false := by
  rw [lastEmplaced, lastAttempt, List.takeWhile_cons_of_neg (by simp [h])]
  rfl

/-- Every attempt of node `i`'s task found its sink empty, and nothing was
constructed over a live payload. -/
structure SinkLog (i : Nat) (events : List (Event V)) : Prop where
  attempts : ∀ node live, .attempted node live ∈ events → node = i ∧ live = some false
  fresh : ∀ object onto, .memory (.constructed object onto) ∈ events → onto = none
  calm : .violated (.emplaceOverLive i) ∉ events

namespace SinkLog

variable {i : Nat} {event : Event V} {events : List (Event V)}

theorem cons (h : SinkLog i events)
    (hattempt : ∀ node live, event = .attempted node live → node = i ∧ live = some false)
    (hfresh : ∀ object onto, event = .memory (.constructed object onto) → onto = none)
    (hcalm : event ≠ .violated (.emplaceOverLive i)) : SinkLog i (event :: events) where
  attempts node live hmem := by
    rcases List.mem_cons.mp hmem with heq | hmem
    · exact hattempt node live heq.symm
    · exact h.attempts node live hmem
  fresh object onto hmem := by
    rcases List.mem_cons.mp hmem with heq | hmem
    · exact hfresh object onto heq.symm
    · exact h.fresh object onto hmem
  calm hmem := by
    rcases List.mem_cons.mp hmem with heq | hmem
    · exact hcalm heq.symm
    · exact h.calm hmem

end SinkLog

/-- The sink is live exactly if the last attempt emplaced. -/
structure SinkState (i : Nat) (m : Machine (Nat → Option V) V) : Prop where
  log : SinkLog i m.events
  live : m.slots i ≠ none ↔ lastEmplaced i m.events = true

/-! ## §3. On the ideal backend. -/

section Ideal

variable {p : Program V W} {i : Nat} {m : Machine (Nat → Option V) V}

theorem emplaceSink_slot (hempty : m.slots i = none) (payload : Option V) :
    (emplaceSink (idealSlots p.plan.toCompiledPlan V) i payload m).slots i = payload := by
  cases payload with
  | none => exact hempty
  | some v => exact Function.update_self ..

theorem SinkState.emplaceSink (h : SinkState i m) (hempty : m.slots i = none)
    (payload : Option V) :
    SinkState i (emplaceSink (idealSlots p.plan.toCompiledPlan V) i payload m) := by
  cases payload with
  | none => exact h
  | some v =>
      refine ⟨h.log.cons (by simp) ?_ (by simp), ?_⟩
      · intro object onto heq
        rw [hempty] at heq
        exact (Lifetime.constructed.inj (Event.memory.inj heq)).2.symm
      · show Function.update m.slots i (some v) i ≠ none ↔ _
        rw [Function.update_self]
        refine iff_of_true (Option.some_ne_none v) ?_
        exact (lastEmplaced_cons rfl).trans (by simp [Event.emplaces])

theorem SinkState.writeBack (h : SinkState i m) (written : Option V) :
    SinkState i (writeBack (idealSlots p.plan.toCompiledPlan V) p i written m) where
  log := by
    rw [writeBack_events]
    exact h.log
  live := by
    rw [writeBack_live, writeBack_events]
    exact h.live

/-- Cleaning up empties the sink. -/
theorem SinkState.cleanUpSink (h : SinkState i m) :
    SinkLog i (cleanUpSink (idealSlots p.plan.toCompiledPlan V) i m).events
      ∧ (cleanUpSink (idealSlots p.plan.toCompiledPlan V) i m).slots i = none := by
  unfold YOrch.cleanUpSink
  cases hv : m.slots i with
  | none =>
      have hnot : (idealSlots p.plan.toCompiledPlan V).outHasValue i m.slots ≠ true := by
        simp [idealSlots, hv]
      rw [if_neg hnot]
      exact ⟨h.log, hv⟩
  | some v =>
      have hlive : (idealSlots p.plan.toCompiledPlan V).outHasValue i m.slots = true := by
        simp [idealSlots, hv]
      rw [if_pos hlive]
      simp only [Machine.onSlots_events, Machine.onSlots_slots, idealSlots, idealDestroy, hv]
      exact ⟨h.log.cons (by simp) (by simp) (by simp), Function.update_self ..⟩

/-- Attempts of a callable that emplaces at most once. -/
theorem sink_triple (hinto : (p.plan.task i).usesDirectOutputProtocol)
    (honce : ∀ args w, ((p.behaviour i).sinkBody args w).EmplacesAtMost false 1)
    (hleaves : ∀ args w, ((p.behaviour i).sinkBody args w).LeavesPayload false) :
    NodeTriple (idealSlots p.plan.toCompiledPlan V) p i
      (fun phase s => match phase with
        | .ready => SinkLog i s.1.events ∧ s.1.slots i = none
        | .evaluating _ => SinkState i s.1 ∧ s.1.slots i = none
        | .sinking body => SinkState i s.1 ∧ body.LeavesPayload (s.1.slots i).isSome
            ∧ ∃ n ≤ 1, body.EmplacesAtMost (s.1.slots i).isSome n
              ∧ (s.1.slots i ≠ none → n = 0)
        | .tried => SinkState i s.1)
      (fun s => SinkLog i s.1.events) where
  world phase s w hs := by cases phase <;> exact hs
  halts phase s hs := by
    cases phase with
    | ready => exact hs.1
    | evaluating rest => exact hs.1.log
    | sinking body => exact hs.1.log
    | tried => exact hs.log
  violate phase violation s hne hs := by
    have hlog : SinkLog i s.1.events := by
      cases phase with
      | ready => exact hs.1
      | evaluating rest => exact hs.1.log
      | sinking body => exact hs.1.log
      | tried => exact hs.log
    exact hlog.cons (by simp) (by simp) fun heq => hne i (Event.violated.inj heq)
  attempt s hs := by
    obtain ⟨hlog, hempty⟩ := hs
    refine ⟨⟨hlog.cons ?_ (by simp) (by simp), ?_⟩, hempty⟩
    · intro node live heq
      rw [if_pos hinto] at heq
      obtain ⟨rfl, rfl⟩ := Event.attempted.inj heq
      exact ⟨rfl, by simp [idealSlots, hempty]⟩
    · -- an attempt starts the count anew, on an empty slot
      show s.1.slots i ≠ none ↔ lastEmplaced i (_ :: s.1.events) = true
      rw [lastEmplaced_attempt rfl, hempty]
      simp
  abandon rest s hs := hs.1
  skip _ _ _ _ hs := hs
  resolve binding rest s source v arg left w _ hs _ _ _ := by
    obtain ⟨⟨hlog, hlive⟩, hempty⟩ := hs
    have hslots := resolveStep_live p i binding source arg left s.1 i
    refine ⟨⟨?_, ?_⟩, ?_⟩
    · rw [resolveStep_events]
      exact hlog.cons (by simp) (by simp) (by simp)
    · rw [hslots, resolveStep_events, lastEmplaced_cons rfl]
      exact hlive
    · by_contra hne
      exact hslots.mp hne hempty
  write written s hraw _ := by
    rw [hinto] at hraw
    cases hraw
  sink args w s _ hs := by
    rw [hs.2]
    exact ⟨hs.1, hleaves args w, 1, Nat.le_refl 1, honce args w, fun hne => absurd rfl hne⟩
  sinkHasValue next s hs := hs
  sinkEmplace payload next s hs := by
    obtain ⟨hstate, hl, n, hn, hbody, hzero⟩ := hs
    -- a body with one `emplace` to spend has not spent it yet
    obtain ⟨hempty, k, rfl⟩ := hbody.budget hzero
    refine ⟨fun _ => ?_, fun hlive => ?_⟩
    · have hslot : (emplaceSink (idealSlots p.plan.toCompiledPlan V) i payload s.1).slots i
          = payload := emplaceSink_slot hempty payload
      simp only [SinkBody.LeavesPayload, SinkBody.EmplacesAtMost, hempty, Option.isSome_none,
        Bool.false_or] at hl hbody
      refine ⟨hstate.emplaceSink hempty payload, ?_, k, by omega, ?_, fun _ => by omega⟩
      · rwa [hslot]
      · rwa [hslot]
    · simp [idealSlots, hempty] at hlive
  sinkDestroy next s hs := absurd hs.2.1 id
  sinkFinish exit written world s hs := hs.1.writeBack written
  again s hraw _ _ := by
    rw [hinto] at hraw
    cases hraw
  cleanUp s _ _ hs := hs.cleanUpSink

end Ideal

/-! ## §4. On the storage backends. -/

section Storage

/-- What a direct-output task under the adapters of `task` does to its sink, when
it is executed from `start`. -/
structure SinkKept (api : SlotsApi V S) (p : Program V W) (i fuel : Nat) (task : Task)
    (policies : task.Policies (fun _ => StepResult) W) (start : Machine S V × W) : Prop where
  /-- Every attempt begins with an empty sink, and `emplace` finds it empty. -/
  log : ∀ exit s,
    invokeInto fuel (cleanUpSink api i) (attemptInto api p i) task policies start = (exit, s) →
    SinkLog i s.1.events
  /-- The sink is live afterwards exactly if the last attempt emplaced. -/
  live : ∀ exit s,
    invokeInto fuel (cleanUpSink api i) (attemptInto api p i) task policies start = (exit, s) →
    exit ≠ .halted → (api.outHasValue i s.1.slots = true ↔ lastEmplaced i s.1.events = true)
  /-- The executor empties the sink after anything but a success. -/
  finalized : ∀ step s,
    (invokeInto fuel (cleanUpSink api i) (attemptInto api p i) task policies
      >>= finalizeDirectOutputStep api p i) start = (.ret step, s) →
    step.ok = false → api.outHasValue i s.1.slots = false
  /-- So does `run_task_into`. -/
  runTask : ∀ step s, runTaskInto api p fuel i task policies start = (.ret step, s) →
    step.ok = false → api.outHasValue i s.1.slots = false

variable {Rep : S → (Nat → Option V) → Prop} {p : Program V W} {api : SlotsApi V S} {i : Nat}

/-- The sink after an execution, on a storage backend and the ideal one. -/
theorem sink_sim (hapi : Refines p.plan api Rep) (hi : i < p.plan.nodeCount)
    (hinto : (p.plan.task i).usesDirectOutputProtocol)
    (honce : ∀ args w, ((p.behaviour i).sinkBody args w).EmplacesAtMost false 1)
    (hleaves : ∀ args w, ((p.behaviour i).sinkBody args w).LeavesPayload false)
    (fuel : Nat) (task : Task) (policies : task.Policies (fun _ => StepResult) W) :
    Exec.Sim
      (fun s t => Agree p.plan Rep [] (p.plan.path i) s t
        ∧ SinkLog i t.1.events ∧ t.1.slots i = none)
      (invokeInto fuel (cleanUpSink api i) (attemptInto api p i) task policies)
      (invokeInto fuel (cleanUpSink (idealSlots p.plan.toCompiledPlan V) i)
        (attemptInto (idealSlots p.plan.toCompiledPlan V) p i) task policies)
      (fun _ s t => Agree p.plan Rep [] (p.plan.path i) s t ∧ SinkState i t.1)
      (fun s t => Agree p.plan Rep [] (p.plan.path i) s t ∧ SinkState i t.1)
      (fun s t => SameTrace s t ∧ SinkLog i t.1.events) := by
  have hlive : Agree.attemptLive p.plan i = p.plan.path i := Agree.attemptLive_direct hinto
  have hmust : i ∉ ([] : List Nat) := List.not_mem_nil
  have hagree := node_agrees hapi hi hmust
  have hsink := sink_triple hinto honce hleaves
  apply Exec.Triple.and_right
  · exact invokeInto_sim (hsink.sim.world .tried) (hsink.sim.halts .ready) fuel
      (hsink.sim.attemptInto_sim hinto) task policies
      fun _ s t hst => by
        obtain ⟨rfl, hs⟩ := hst
        exact ⟨rfl, hs.cleanUpSink⟩
  · have hsim := invokeInto_sim (hagree.world .tried) (hagree.halts .ready) fuel
      (hagree.attemptInto_sim hinto) task policies fun _ s t hst => by
        rw [hlive] at hst ⊢
        exact hst.cleanUpSink hapi hi hinto List.not_mem_nil
    rwa [hlive] at hsim

/-- The sink after an execution, whatever its exit. -/
theorem sink_ends (hapi : Refines p.plan api Rep) (hi : i < p.plan.nodeCount)
    (hinto : (p.plan.task i).usesDirectOutputProtocol)
    (honce : ∀ args w, ((p.behaviour i).sinkBody args w).EmplacesAtMost false 1)
    (hleaves : ∀ args w, ((p.behaviour i).sinkBody args w).LeavesPayload false)
    (fuel : Nat) (task : Task) (policies : task.Policies (fun _ => StepResult) W)
    {start : Machine S V × W} {t : Machine (Nat → Option V) V × W}
    (hst : Agree p.plan Rep [] (p.plan.path i) start t ∧ SinkLog i t.1.events ∧ t.1.slots i = none)
    (exit : Exit StepResult) (s : Machine S V × W)
    (h : invokeInto fuel (cleanUpSink api i) (attemptInto api p i) task policies start
      = (exit, s)) :
    SinkLog i s.1.events
      ∧ (exit ≠ .halted → ∃ t, Agree p.plan Rep [] (p.plan.path i) s t ∧ SinkState i t.1) := by
  have hrun := sink_sim hapi hi hinto honce hleaves fuel task policies _ _ hst
  rw [h] at hrun
  generalize invokeInto fuel _ _ task policies _ = result at hrun
  cases hrun with
  | ret h => exact ⟨h.1.events ▸ h.2.log, fun _ => ⟨_, h⟩⟩
  | thrown h => exact ⟨h.1.events ▸ h.2.log, fun _ => ⟨_, h⟩⟩
  | halted h => exact ⟨h.1.2.1 ▸ h.2, fun hne => absurd rfl hne⟩

/-- What `finalize_direct_output_step` does after anything but a success. -/
theorem finalize_failed {step step' : StepResult} {s s' : Machine S V × W}
    (h : finalizeDirectOutputStep api p i step s = (.ret step', s')) (hfailed : step'.ok = false) :
    s' = (s.1.onSlots (api.destroy i), s.2) := by
  unfold finalizeDirectOutputStep at h
  cases hok : step.ok with
  | true =>
      rw [if_pos hok] at h
      obtain ⟨_, s₁, -, h⟩ := Exec.bind_eq_ret.mp h
      obtain rfl := Exit.ret.inj (congrArg Prod.fst h)
      rw [hok] at hfailed
      cases hfailed
  | false =>
      rw [if_neg (by simp [hok])] at h
      exact (congrArg Prod.snd h).symm

/-- What `run_task_into` does after anything but a success. -/
theorem runTaskInto_failed {fuel : Nat} {task : Task}
    {policies : task.Policies (fun _ => StepResult) W} {step : StepResult}
    {start s' : Machine S V × W}
    (h : runTaskInto api p fuel i task policies start = (.ret step, s'))
    (hfailed : step.ok = false) : ∃ s,
      invokeInto fuel (cleanUpSink api i) (attemptInto api p i) task policies start = (.ret step, s)
        ∧ s' = (cleanUpSink api i s.1, s.2) := by
  obtain ⟨step', s, hrun, h⟩ := Exec.bind_eq_ret.mp h
  cases hok : step'.ok with
  | true =>
      rw [if_pos hok] at h
      obtain ⟨_, s₁, -, h⟩ := Exec.bind_eq_ret.mp h
      obtain rfl := Exit.ret.inj (congrArg Prod.fst h)
      rw [hok] at hfailed
      cases hfailed
  | false =>
      rw [if_neg (by simp [hok])] at h
      obtain rfl := Exit.ret.inj (congrArg Prod.fst h)
      exact ⟨s, hrun, (congrArg Prod.snd h).symm⟩

/-- **A direct-output task keeps its sink.**  Whatever stands around a callable
that emplaces at most once: if the sink is empty at first and all live payloads
are on the path to the node, then every attempt begins with an empty sink, no
payload is constructed over a live one, the sink is live at the end exactly if
the last attempt emplaced, and both finalizers empty it after anything but a
success. -/
theorem invokeInto_keepsSink (p : Program V W) (layout : SlotLayoutPolicy) (i : Nat)
    (hi : i < p.plan.nodeCount) (hinto : (p.plan.task i).usesDirectOutputProtocol)
    (honce : ∀ args w, ((p.behaviour i).sinkBody args w).EmplacesAtMost false 1)
    (hleaves : ∀ args w, ((p.behaviour i).sinkBody args w).LeavesPayload false)
    (slots : layout.State V) (f : Nat → Option V) (hrep : layout.Rep p.plan slots f)
    (hlive : p.plan.LiveOn f i) (hempty : f i = none) (stage : Nat → Option V) (w : W)
    (fuel : Nat) (task : Task) (policies : task.Policies (fun _ => StepResult) W) :
    SinkKept (layout.slots p.plan.toCompiledPlan) p i fuel task policies
      ({ slots := slots, stage := stage }, w) := by
  -- the run is compared with one over ideal slots that start as `f`
  have hapi := layout.refines (V := V) p.plan
  have hstart : Agree p.plan (layout.Rep p.plan) [] (p.plan.path i)
      ({ slots := slots, stage := stage }, w) ({ slots := f, stage := stage }, w) := {
    world := rfl
    events := rfl
    stage := rfl
    rep := hrep
    own := fun e he => absurd he List.not_mem_nil
    live := fun j hj => ⟨hlive j hj, SlotLayoutPolicy.payloadNode_of_live hrep j hj⟩
    must := fun j hj => absurd hj List.not_mem_nil }
  have hlog : SinkLog i ([] : List (Event V)) := ⟨nofun, nofun, nofun⟩
  have hsink : ∀ {s : Machine (layout.State V) V × W} {t : Machine (Nat → Option V) V × W},
      Agree p.plan (layout.Rep p.plan) [] (p.plan.path i) s t →
      (layout.slots p.plan.toCompiledPlan).outHasValue i s.1.slots = (t.1.slots i).isSome :=
    fun hst => hst.sinkHasValue hapi hi hinto
  have hends := sink_ends hapi hi hinto honce hleaves fuel task policies ⟨hstart, hlog, hempty⟩
  constructor
  case log =>
    intro exit s heq
    exact (hends _ _ heq).1
  case live =>
    intro exit s heq hexit
    obtain ⟨t, hst, hstate⟩ := (hends _ _ heq).2 hexit
    rw [hsink hst, hst.events, ← hstate.live, Option.isSome_iff_ne_none]
  case finalized =>
    intro step s' heq hfailed
    obtain ⟨step', s, hrun, hfinal⟩ := Exec.bind_eq_ret.mp heq
    obtain ⟨t, hst, -⟩ := (hends _ _ hrun).2 (by nofun)
    have hpayload := @ValidPlan.payloadNode_of_direct p.plan i hinto
    -- a failed task is finalized by destroying its slot
    have hafter := hst.destroy hapi hi hpayload
      (fun h => absurd (ValidPlan.policy_of_direct hinto) h) List.not_mem_nil
    rw [finalize_failed hfinal hfailed,
      hsink (hafter.weaken (List.Subset.refl _) (Agree.tail_subset _ i))]
    show (((idealSlots p.plan.toCompiledPlan V).destroy i t.1.slots).2 i).isSome = false
    rw [idealSlots_destroy hi hpayload, idealDestroy_self]
    rfl
  case runTask =>
    intro step s' heq hfailed
    obtain ⟨s, hrun, rfl⟩ := runTaskInto_failed heq hfailed
    obtain ⟨t, hst, hstate⟩ := (hends _ _ hrun).2 (by nofun)
    rw [hsink (hst.cleanUpSink hapi hi hinto List.not_mem_nil), hstate.cleanUpSink.2]
    rfl

end Storage

/-! ## §5. A flaky task. -/

/-- A direct-output task whose exceptions are caught and which is retried. -/
def flakyTask : Task :=
  .retryTask (.catchFailureTask (.base
    (.boundOutputTask (.object 0) (.function [.directOut (.object 0)] .stepResult) [])))

def flakyPlan : ValidPlan where
  levels := [0]
  nonempty := by decide
  accepted := by decide
  task := fun _ => flakyTask
  fanoutPolicy := fun _ => .auto
  bound := by decide
  runnable := by decide
  slotsFormed := by decide

/-- The task emplaces and asks for a retry, then emplaces and succeeds.  The world
counts its attempts. -/
def flakyProgram : Program Nat Nat where
  plan := flakyPlan
  behaviour _ := {
    evaluated := []
    evaluated_perm := List.Perm.refl []
    argument := fun _ w => (true, w)
    body := fun _ w => ((.ret StepResult.success, none), w)
    sinkBody := fun _ w =>
      .emplace (some w) (.finish (.ret (if w = 0 then .retry else .success)) none (w + 1))
    policies := (⟨fun _ w => (true, w), none⟩, ())
    policiesInto := (⟨fun _ w => (true, w), none⟩, ()) }
  copy w v := (some v, w)
  move w v := (some v, v, w)
  asserts := true

theorem invokeInto_keepsSink_flaky :
    SinkKept (SlotLayoutPolicy.slots flakyPlan.toCompiledPlan .serialDfsCompact) flakyProgram 0 2
      flakyTask (flakyProgram.behaviour 0).policiesInto ({ slots := fun _ => {} }, 0) :=
  invokeInto_keepsSink flakyProgram .serialDfsCompact 0 (by decide) (by decide)
    (fun _ _ => trivial) (fun _ _ => trivial) (fun _ => {}) (fun _ => none) .initial
    (fun _ hj => absurd rfl hj) rfl (fun _ => none) 0 2 flakyTask _

end YOrch
