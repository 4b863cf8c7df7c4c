/-
  YOrch.Executor.Contracts — whose contracts are violated, and runs that succeed.

  Three contracts are the tasks': `emplace` finds an empty sink, a direct-output
  task that succeeds has emplaced, a successful `task_result` carries a value.
  The fourth is the executor's own: there is an object to read where a spec or a
  stage needs one.

    • `enterNode_sound`, `sound_run` — as long as tasks keep their contracts, a
      node finds everything in place, and it succeeds if its task does,
    • `run_keeps_contracts` — the executor violates its contract only after a
      task has, and a failed assertion is the last thing in a run,
    • `run_succeeds` — a run in which nothing fails enters every node.
-/
import YOrch.Executor.ControlFlow
import YOrch.Executor.EmptySlots
import YOrch.Executor.Liveness
import YOrch.Executor.Outcomes

namespace YOrch

open Library

variable {V W : Type}

/-! ## §1. What tasks promise. -/

/-- A successful `task_result` carries a value. -/
def RawKind.Delivers : (kind : RawKind) → kind.Result V → Prop
  | .taskResult, raw => raw.step.ok → raw.value ≠ none
  | .void, _ | .step, _ | .value, _ => True

namespace SinkBody

/-- The callable emplaces into an empty sink only, and there is a payload when
it returns success.  `live` says whether there is one now. -/
def Delivers : SinkBody V W → Bool → Prop
  | .finish exit _ _, live => exit = .ret .success → live = true
  | .hasValue next, live => (next live).Delivers live
  | .emplace payload next, live => live = false ∧ next.Delivers payload.isSome
  | .destroy next, _ => next.Delivers false

/-- The callable returns success, whatever it finds. -/
def Succeeds : SinkBody V W → Prop
  | .finish exit _ _ => exit = .ret .success
  | .hasValue next => ∀ live, (next live).Succeeds
  | .emplace _ next | .destroy next => next.Succeeds

end SinkBody

namespace Program

variable (p : Program V W)

/-- Every task keeps its contracts.  Policies only see statuses, so one that made
up a success of a direct-output task could not know of a payload. -/
structure KeepsContracts : Prop where
  body : ∀ i < p.plan.nodeCount, (p.plan.task i).usesDirectOutputProtocol = false →
    ∀ args w raw, ((p.behaviour i).body args w).1.1 = .ret raw → RawKind.Delivers _ raw
  sink : ∀ i < p.plan.nodeCount, (p.plan.task i).usesDirectOutputProtocol →
    ∀ args w, ((p.behaviour i).sinkBody args w).Delivers false
  policies : ∀ i < p.plan.nodeCount, (p.plan.task i).usesDirectOutputProtocol = false →
    (p.plan.task i).PoliciesKeep (fun task => RawKind.Delivers task.rawKind)
      (p.behaviour i).policies
  policiesInto : ∀ i < p.plan.nodeCount, (p.plan.task i).usesDirectOutputProtocol →
    (p.plan.task i).PoliciesKeep (fun _ step => step.ok = false) (p.behaviour i).policiesInto

/-- Nothing throws, and every callable returns a success. -/
structure NeverFails : Prop where
  argument : ∀ i < p.plan.nodeCount, ∀ binding ∈ (p.behaviour i).evaluated,
    binding.1.isPrevAccess = false → ∀ w, ((p.behaviour i).argument binding w).1 = true
  copy : ∀ w v, (p.copy w v).1 ≠ none
  move : ∀ w v, (p.move w v).1 ≠ none
  body : ∀ i < p.plan.nodeCount, (p.plan.task i).usesDirectOutputProtocol = false →
    ∀ args w, ∃ raw, ((p.behaviour i).body args w).1.1 = .ret raw
      ∧ (extractStepResult _ raw).ok
  sink : ∀ i < p.plan.nodeCount, (p.plan.task i).usesDirectOutputProtocol →
    ∀ args w, ((p.behaviour i).sinkBody args w).Succeeds

variable {p}

theorem NeverFails.resolvePrev (h : p.NeverFails) (binding : Spec × CppType) (v : V) (w : W) :
    (p.resolvePrev binding v w).1 ≠ none := by
  unfold Program.resolvePrev
  cases binding.1.kind with
  | copy => exact h.copy w v
  | consume =>
      dsimp only
      split
      · exact Option.some_ne_none v
      · exact h.move w v
  | borrow | borrowMut | none => exact Option.some_ne_none v

end Program

/-- Catching changes neither the status nor the value. -/
theorem extractStepResult_caughtReturn (kind : RawKind) (raw : kind.Result V) :
    Program.extractStepResult kind.caught (caughtReturn kind raw)
      = Program.extractStepResult kind raw := by
  cases kind <;> rfl

theorem RawKind.Delivers.caught {kind : RawKind} {raw : kind.Result V}
    (h : kind.Delivers raw) : RawKind.Delivers kind.caught (caughtReturn kind raw) := by
  cases kind with
  | taskResult => exact h
  | void | step | value => trivial

theorem StepResult.not_ok_of_retry {step : StepResult} (h : (step.status == .retry) = true) :
    step.ok = false := by
  rw [StepResult.ok, beq_iff_eq.mp h]
  rfl

/-- A result that asks for a retry is no success. -/
theorem not_ok_of_requestsRetry {kind : RawKind} {raw : kind.Result V}
    (h : rawResultRequestsRetry kind raw) : (Program.extractStepResult kind raw).ok = false := by
  cases kind with
  | step => exact StepResult.not_ok_of_retry h
  | taskResult => exact StepResult.not_ok_of_retry h
  | void | value => cases h

/-! ## §2. Logs. -/

/-- No contract has been violated. -/
def NothingViolated (events : List (Event V)) : Prop :=
  ∀ violation, .violated violation ∉ events

theorem NothingViolated.noEmptySuccess {events : List (Event V)} (h : NothingViolated events) :
    NoEmptySuccess events :=
  fun i => h (.missingOutput i)

/-- What a log says about contracts.  `keeps` is the assumption that the tasks
keep theirs. -/
structure Blamed (asserts : Bool) (keeps : Prop) (events : List (Event V)) : Prop where
  source : ∀ i before, .violated (.missingSource i) :: before <:+ events →
    asserts = false ∧ ∃ q, .violated (.missingOutput q) ∈ before
  last : asserts = true → ∀ violation before, .violated violation :: before <:+ events →
    events = .violated violation :: before
  kept : keeps → NothingViolated events

/-- A log with which the run may go on. -/
structure Unstopped (asserts : Bool) (keeps : Prop) (events : List (Event V)) : Prop
    extends Blamed asserts keeps events where
  calm : asserts = true → NothingViolated events

namespace Unstopped

variable {asserts : Bool} {keeps : Prop} {events : List (Event V)}

theorem nil : Unstopped asserts keeps ([] : List (Event V)) where
  source _ _ h := by simp at h
  last _ _ _ h := by simp at h
  kept _ _ h := by cases h
  calm _ _ h := by cases h

/-- Any event but a violation. -/
theorem cons (h : Unstopped asserts keeps events) {event : Event V}
    (hevent : ∀ violation, event ≠ .violated violation) :
    Unstopped asserts keeps (event :: events) := by
  have hcalm : NothingViolated events → NothingViolated (event :: events) := by
    intro hnone violation hmem
    rcases List.mem_cons.mp hmem with heq | hmem
    · exact hevent violation heq.symm
    · exact hnone violation hmem
  refine ⟨⟨fun i before hsuffix => ?_, fun hasserts violation before hsuffix => ?_,
    fun hkeeps => hcalm (h.kept hkeeps)⟩, fun hasserts => hcalm (h.calm hasserts)⟩
  · rcases List.suffix_cons_iff.mp hsuffix with heq | hsuffix
    · exact absurd (List.cons.inj heq).1.symm (hevent _)
    · exact h.source i before hsuffix
  · exact absurd (hsuffix.subset List.mem_cons_self) (hcalm (h.calm hasserts) violation)

theorem memory (h : Unstopped asserts keeps events) : ∀ log : List MemoryEvent,
    Unstopped asserts keeps (log.map .memory ++ events)
  | [] => h
  | _ :: log => (h.memory log).cons nofun

/-- A violation, which is some task's, or follows from one. -/
theorem violate (h : Unstopped asserts keeps events) {violation : Violation} (hkeeps : ¬ keeps)
    (hsource : ∀ i, violation = .missingSource i →
      asserts = false ∧ ∃ q, .violated (.missingOutput q) ∈ events) :
    Blamed asserts keeps (.violated violation :: events) where
  source i before hsuffix := by
    rcases List.suffix_cons_iff.mp hsuffix with heq | hsuffix
    · obtain ⟨hevent, rfl⟩ := List.cons.inj heq
      exact hsource i (Event.violated.inj hevent).symm
    · exact h.source i before hsuffix
  last hasserts violation' before hsuffix := by
    rcases List.suffix_cons_iff.mp hsuffix with heq | hsuffix
    · exact heq.symm
    · exact absurd (hsuffix.subset List.mem_cons_self) (h.calm hasserts violation')
  kept h := absurd h hkeeps

/-- With assertions compiled out, a violation may not stop the run. -/
theorem ignore (h : Unstopped false keeps events) {violation : Violation} (hkeeps : ¬ keeps)
    (hsource : ∀ i, violation ≠ .missingSource i) :
    Unstopped false keeps (.violated violation :: events) where
  toBlamed := h.violate hkeeps fun i heq => absurd heq (hsource i)
  calm hasserts := by cases hasserts

end Unstopped

/-! ## §3. Machines. -/

/-- Everything is in place: the payloads of the nodes in `live` and the staged
copies of those in `staged`, and no payloads but of nodes in `holders`. -/
structure Sound (p : Program V W) (keeps : Prop) (staged live holders : List Nat)
    (m : Machine (Nat → Option V) V) : Prop where
  log : Unstopped p.asserts keeps m.events
  furnished : Furnished p.plan staged live m
  owned : ∀ j, m.slots j ≠ none → j ∈ holders ∧ p.plan.payloadNode j

/-- Node `i` is being attempted; `live` says whether it has a payload. -/
structure Underway (p : Program V W) (keeps : Prop) (i : Nat) (live : Bool)
    (m : Machine (Nat → Option V) V) : Prop
    extends Sound p keeps (p.plan.path i).tail (p.plan.path i).tail (p.plan.path i) m where
  sink : (m.slots i).isSome = live

section Sound

variable {p : Program V W} {keeps : Prop} {i : Nat} {live : Bool}
  {staged path holders staged' path' holders' : List Nat} {m m' : Machine (Nat → Option V) V}

/-- The same slots and copies are taken. -/
theorem Underway.congr (h : Underway p keeps i live m)
    (hlog : Unstopped p.asserts keeps m'.events)
    (hfurnished : Furnished p.plan (p.plan.path i).tail (p.plan.path i).tail m')
    (hslots : ∀ j, m'.slots j ≠ none ↔ m.slots j ≠ none) : Underway p keeps i live m' where
  log := hlog
  furnished := hfurnished
  owned j hj := h.owned j ((hslots j).mp hj)
  sink := by
    rw [← h.sink, Bool.eq_iff_iff, Option.isSome_iff_ne_none, Option.isSome_iff_ne_none]
    exact hslots i

theorem Underway.record (h : Underway p keeps i live m) {event : Event V}
    (hevent : ∀ violation, event ≠ .violated violation)
    (hfinished : ∀ j payload, event ≠ .finished j payload)
    (hentered : ∀ j prev, event ≠ .entered j prev) : Underway p keeps i live (m.record event) :=
  h.congr (h.log.cons hevent) (h.furnished.record hfinished hentered) fun _ => Iff.rfl

/-- A violation is recorded with assertions compiled out. -/
theorem Underway.ignore (h : Underway p keeps i live m) (hasserts : p.asserts = false)
    {violation : Violation} (hkeeps : ¬ keeps) (hsource : ∀ j, violation ≠ .missingSource j) :
    Underway p keeps i live (m.violate violation) := by
  refine h.congr ?_ (h.furnished.record nofun nofun) fun _ => Iff.rfl
  have hlog := h.log
  rw [hasserts] at hlog ⊢
  exact hlog.ignore hkeeps hsource

theorem Underway.resolveStep (h : Underway p keeps i live m) (binding : Spec × CppType)
    (source : PrevSource) (arg : Option V) (left : V) : Underway p keeps i live
      (resolveStep (idealSlots p.plan.toCompiledPlan V) p i binding source arg left m) := by
  apply h.congr _ (h.furnished.resolveStep binding source arg left)
    (resolveStep_live p i binding source arg left m)
  rw [resolveStep_events]
  exact h.log.cons nofun

theorem Underway.writeBack (h : Underway p keeps i live m) (written : Option V) :
    Underway p keeps i live
      (writeBack (idealSlots p.plan.toCompiledPlan V) p i written m) := by
  apply h.congr _ (h.furnished.writeBack written) (writeBack_live p i written m)
  rw [writeBack_events]
  exact h.log

/-- An operation on node `i`'s slot. -/
theorem Underway.onSlots (h : Underway p keeps i live m) (hi : i < p.plan.nodeCount)
    {op : (Nat → Option V) → List MemoryEvent × (Nat → Option V)}
    (hop : ∀ j ≠ i, (op m.slots).2 j = m.slots j)
    (hpayload : (op m.slots).2 i ≠ none → p.plan.payloadNode i) :
    Underway p keeps i ((op m.slots).2 i).isSome (m.onSlots op) where
  log := by
    rw [Machine.onSlots_events]
    exact h.log.memory _
  furnished := h.furnished.onSlots (Agree.not_mem_tail hi) hop
  owned j hj := by
    rw [Machine.onSlots_slots] at hj
    by_cases hji : j = i
    · subst hji
      exact ⟨p.plan.self_mem_path j, hpayload hj⟩
    · rw [hop j hji] at hj
      exact h.owned j hj
  sink := rfl

theorem Underway.destroy (h : Underway p keeps i live m) (hi : i < p.plan.nodeCount) :
    Underway p keeps i false (m.onSlots (idealDestroy i)) := by
  have hdestroyed : Underway p keeps i ((idealDestroy i m.slots).2 i).isSome
      (m.onSlots (idealDestroy i)) :=
    h.onSlots hi idealDestroy_other fun hne => absurd idealDestroy_self hne
  rwa [idealDestroy_self] at hdestroyed

theorem Underway.emplaceSink (h : Underway p keeps i live m) (hi : i < p.plan.nodeCount)
    (hpayload : p.plan.payloadNode i) (payload : Option V) :
    Underway p keeps i (live || payload.isSome)
      (emplaceSink (idealSlots p.plan.toCompiledPlan V) i payload m) := by
  cases payload with
  | none =>
      rw [Option.isSome_none, Bool.or_false]
      exact h
  | some v =>
      have hemplaced : Underway p keeps i ((idealEmplace i v m.slots).2 i).isSome
          (m.onSlots (idealEmplace i v)) :=
        h.onSlots hi idealEmplace_other fun _ => hpayload
      rw [Option.isSome_some, Bool.or_true]
      rwa [show (idealEmplace i v m.slots).2 i = some v from Function.update_self ..] at hemplaced

theorem Underway.cleanUpSink (h : Underway p keeps i live m) (hi : i < p.plan.nodeCount) :
    Underway p keeps i false
      (cleanUpSink (idealSlots p.plan.toCompiledPlan V) i m) := by
  unfold YOrch.cleanUpSink
  split
  · exact h.destroy hi
  · next hnone =>
      have hlive : live = false := by
        rw [← h.sink]
        exact Bool.eq_false_iff.mpr hnone
      rw [← hlive]
      exact h

/-- Node `i` is entered. -/
theorem Sound.enter (h : Sound p keeps (p.plan.path i).tail (p.plan.path i).tail
    (p.plan.path i).tail m) (hi : i < p.plan.nodeCount) :
    Underway p keeps i false (m.record
      (.entered i (readPrev (idealSlots p.plan.toCompiledPlan V) p i m))) where
  log := h.log.cons nofun
  furnished := by
    refine ⟨h.furnished.log.cons (by nofun) ?_, fun hfull => h.furnished.slot hfull.tail,
      fun hfull => h.furnished.stage hfull.tail⟩
    intro j prev heq hfull hsource
    obtain ⟨rfl, rfl⟩ := Event.entered.inj heq
    exact h.furnished.read hi hfull hsource
  owned j hj := (h.owned j hj).imp_left fun hmem => Agree.tail_subset _ i hmem
  sink := by
    rw [← Bool.not_eq_true, Option.isSome_iff_ne_none]
    exact fun hne => Agree.not_mem_tail hi (h.owned i hne).1

/-- Node `i` is left without a payload. -/
theorem Underway.leave (h : Underway p keeps i false m) :
    Sound p keeps (p.plan.path i).tail (p.plan.path i).tail (p.plan.path i).tail m where
  log := h.log
  furnished := h.furnished
  owned j hj := by
    obtain ⟨hmem, hpayload⟩ := h.owned j hj
    refine ⟨ValidPlan.mem_tail_path hmem ?_, hpayload⟩
    rintro rfl
    have hsink := h.sink
    rw [Option.isSome_iff_ne_none.mpr hj] at hsink
    cases hsink

/-- Node `i` finishes. -/
theorem Underway.finish (h : Underway p keeps i live m) (hi : i < p.plan.nodeCount)
    (hlive : NoEmptySuccess m.events → p.plan.payloadNode i → live = true) :
    Sound p keeps (p.plan.path i).tail (p.plan.path i) (p.plan.path i)
      (finishNode (idealSlots p.plan.toCompiledPlan V) p i m) where
  log := h.log.cons nofun
  furnished := h.furnished.finish hi fun hfull hpayload => by
    rw [← Option.isSome_iff_ne_none, h.sink]
    exact hlive hfull hpayload
  owned := h.owned

end Sound

/-! ## §4. Attempts. -/

/-- A run that has ended here, which it does not if nothing fails. -/
def Ended (p : Program V W) (keeps smooth : Prop) (s : Machine (Nat → Option V) V × W) : Prop :=
  Blamed p.asserts keeps s.1.events ∧ ¬ smooth

/-- An attempt has thrown, which none does if nothing fails. -/
def Broken (p : Program V W) (keeps smooth : Prop) (i : Nat) (live : Bool)
    (s : Machine (Nat → Option V) V × W) : Prop :=
  Underway p keeps i live s.1 ∧ ¬ smooth

section Attempts

variable {p : Program V W} {keeps smooth : Prop} {i : Nat}

theorem Broken.ended {live : Bool} {s : Machine (Nat → Option V) V × W}
    (h : Broken p keeps smooth i live s) : Ended p keeps smooth s :=
  ⟨h.1.log.toBlamed, h.2⟩

/-- A contract of a task. -/
theorem contract_sound {P Q : Machine (Nat → Option V) V × W → Prop}
    {E : Machine (Nat → Option V) V × W → Prop} {violation : Violation}
    {holds : Machine (Nat → Option V) V → Bool}
    (htrue : ∀ s, P s → holds s.1 = true → Q s)
    (hfalse : ∀ s, P s → holds s.1 = false → Ended p keeps smooth (s.1.violate violation, s.2)
      ∧ (p.asserts = false → Q (s.1.violate violation, s.2))) :
    Exec.Triple P (contract p.asserts violation holds) (fun _ => Q) E (Ended p keeps smooth) := by
  unfold contract
  have hlook : Exec.Triple P (look holds) (fun fine s => P s ∧ holds s.1 = fine) E
      (Ended p keeps smooth) := .reads fun s hs => ⟨hs, rfl⟩
  apply hlook.bind
  intro fine
  cases fine with
  | true => exact .pure fun s hs => htrue s hs.1 hs.2
  | false =>
      apply Exec.Triple.bind (Q := fun _ s => Ended p keeps smooth s ∧ (p.asserts = false → Q s))
      · exact .modify fun s hs => hfalse s hs.1 hs.2
      · intro _
        split
        · exact .halt fun s hs => hs.1
        · next hasserts => exact .pure fun s hs => hs.2 (Bool.eq_false_iff.mpr hasserts)

/-- A missing object is to be blamed on a task. -/
theorem missingSource_ended {j : Nat} {m : Machine (Nat → Option V) V} {w : W}
    (hsound : smooth → keeps) (h : Unstopped p.asserts keeps m.events)
    (hmissing : ¬ NoEmptySuccess m.events) :
    Ended p keeps smooth (m.violate (.missingSource j), w) := by
  have hkeeps : ¬ keeps := fun hkeeps => hmissing (h.kept hkeeps).noEmptySuccess
  refine ⟨h.violate hkeeps fun _ _ => ⟨?_, ?_⟩, fun hsmooth => hkeeps (hsound hsmooth)⟩
  · rw [Bool.eq_false_iff]
    exact fun hasserts => hmissing (h.calm hasserts).noEmptySuccess
  · unfold NoEmptySuccess at hmissing
    push Not at hmissing
    exact hmissing

section Hypotheses

variable (hsound : smooth → keeps) (hsmooth : smooth → p.NeverFails) (hi : i < p.plan.nodeCount)

include hsound hsmooth hi

/-- Resolving one spec. -/
theorem resolveAs_sound (live : Bool) {binding : Spec × CppType}
    (hbinding : binding ∈ (p.behaviour i).evaluated) :
    Exec.Triple (fun s => Underway p keeps i live s.1)
      (resolveAs (idealSlots p.plan.toCompiledPlan V) p i binding)
      (fun _ s => Underway p keeps i live s.1) (Broken p keeps smooth i live)
      (Ended p keeps smooth) := by
  unfold resolveAs
  by_cases hprev : binding.1.isPrevAccess
  · rw [if_pos hprev]
    obtain ⟨source, hsource⟩ : ∃ source, p.plan.prevSource i = some source := by
      rw [ValidPlan.prevSource_eq hi (TaskBehaviour.uses_of_binding hbinding hprev)]
      split <;> exact ⟨_, rfl⟩
    have hlook : Exec.Triple (fun s => Underway p keeps i live s.1)
        (look (readPrev (idealSlots p.plan.toCompiledPlan V) p i))
        (fun found s => Underway p keeps i live s.1
          ∧ readPrev (idealSlots p.plan.toCompiledPlan V) p i s.1 = found)
        (Broken p keeps smooth i live) (Ended p keeps smooth) := .reads fun s hs => ⟨hs, rfl⟩
    apply hlook.bind
    intro found
    rw [hsource]
    cases found with
    | none =>
        -- the parent has finished, so it is its payload that is missing
        apply Exec.Triple.bind (Q := fun _ => Ended p keeps smooth)
        · apply Exec.Triple.modify
          intro s hs
          apply missingSource_ended hsound hs.1.log
          intro hfull
          exact hs.1.furnished.read hi hfull (by simp [hsource]) hs.2
        · exact fun _ => .halt fun _ hs => hs
    | some v =>
        have hact : Exec.Triple
            (fun s => Underway p keeps i live s.1
              ∧ readPrev (idealSlots p.plan.toCompiledPlan V) p i s.1 = some v)
            (Exec.act fun s => ((p.resolvePrev binding v s.2).1,
              (resolveStep (idealSlots p.plan.toCompiledPlan V) p i binding source
                (p.resolvePrev binding v s.2).1 (p.resolvePrev binding v s.2).2.1 s.1,
              (p.resolvePrev binding v s.2).2.2)))
            (fun arg s => Underway p keeps i live s.1 ∧ (smooth → arg ≠ none))
            (Broken p keeps smooth i live) (Ended p keeps smooth) :=
          .act fun s hs => ⟨hs.1.resolveStep binding source _ _,
            fun h => (hsmooth h).resolvePrev binding v s.2⟩
        apply hact.bind
        intro arg
        cases arg with
        | none => exact .throw fun s hs => ⟨hs.1, fun h => hs.2 h rfl⟩
        | some v' => exact .pure fun s hs => hs.1
  · rw [if_neg hprev]
    have hargument : Exec.Triple (fun s => Underway p keeps i live s.1)
        (onWorld ((p.behaviour i).argument binding))
        (fun returned s => Underway p keeps i live s.1 ∧ (smooth → returned = true))
        (Broken p keeps smooth i live) (Ended p keeps smooth) :=
      .act fun s hs => ⟨hs, fun h =>
        (hsmooth h).argument i hi binding hbinding (Bool.eq_false_iff.mpr hprev) s.2⟩
    apply hargument.bind
    intro returned
    cases returned with
    | true => exact .pure fun s hs => hs.1
    | false => exact .throw fun s hs => ⟨hs.1, fun h => by cases hs.2 h⟩

/-- Resolving specs in order. -/
theorem resolveAll_sound (live : Bool) : ∀ bindings : List (Spec × CppType),
    bindings ⊆ (p.behaviour i).evaluated →
    Exec.Triple (fun s => Underway p keeps i live s.1)
      (resolveAll (idealSlots p.plan.toCompiledPlan V) p i bindings)
      (fun _ s => Underway p keeps i live s.1) (Broken p keeps smooth i live)
      (Ended p keeps smooth)
  | [], _ => .pure fun _ hs => hs
  | binding :: rest, hsub => by
      have hrest := resolveAll_sound live rest fun b hb => hsub (List.mem_cons_of_mem _ hb)
      apply (resolveAs_sound hsound hsmooth hi live (hsub List.mem_cons_self)).bind
      intro arg
      apply hrest.bind
      exact fun args => .pure fun _ hs => hs

/-- An attempt begins, and its arguments are resolved. -/
theorem arguments_sound : Exec.Triple (fun s => Underway p keeps i false s.1)
    (onMachine (beginAttempt (idealSlots p.plan.toCompiledPlan V) p i) >>= fun _ =>
      resolveAll (idealSlots p.plan.toCompiledPlan V) p i (p.behaviour i).evaluated)
    (fun _ s => Underway p keeps i false s.1) (Broken p keeps smooth i false)
    (Ended p keeps smooth) := by
  apply Exec.Triple.bind (Q := fun _ s => Underway p keeps i false s.1)
  · exact .modify fun s hs => Underway.record hs nofun nofun nofun
  · exact fun _ => resolveAll_sound hsound hsmooth hi false _ fun _ => id

/-- One attempt of a task that is entered through `invoke_raw`. -/
theorem attemptRaw_sound (hkeeps : keeps → p.KeepsContracts)
    (hraw : (p.plan.task i).usesDirectOutputProtocol = false) :
    Exec.Triple (fun s => Underway p keeps i false s.1)
      (attemptRaw (idealSlots p.plan.toCompiledPlan V) p i)
      (fun raw s => Underway p keeps i false s.1 ∧ (keeps → RawKind.Delivers _ raw)
        ∧ (smooth → (Program.extractStepResult _ raw).ok))
      (Broken p keeps smooth i false) (Ended p keeps smooth) := by
  have harguments := arguments_sound hsound hsmooth hi
  unfold attemptRaw
  rw [← Exec.bind_assoc]
  apply harguments.bind
  intro args
  have hbody : Exec.Triple
      (fun s : Machine (Nat → Option V) V × W => Underway p keeps i false s.1)
      (onWorld ((p.behaviour i).body args))
      (fun result s => Underway p keeps i false s.1
        ∧ (∀ raw, result.1 = .ret raw → keeps → RawKind.Delivers _ raw)
        ∧ (smooth → ∃ raw, result.1 = .ret raw ∧ (Program.extractStepResult _ raw).ok))
      (Broken p keeps smooth i false) (Ended p keeps smooth) :=
    .act fun s hs => ⟨hs, fun raw hret h => (hkeeps h).body i hi hraw args s.2 raw hret,
      fun h => (hsmooth h).body i hi hraw args s.2⟩
  apply hbody.bind
  rintro ⟨exit, written⟩
  apply Exec.Triple.given
  rintro ⟨hdelivers, hsuccess⟩
  apply Exec.Triple.bind (Q := fun _ s => Underway p keeps i false s.1)
  · exact .modify fun s hs => hs.writeBack written
  · intro _
    cases exit with
    | ret raw =>
        refine .pure fun s hs => ⟨hs, hdelivers raw rfl, fun h => ?_⟩
        obtain ⟨raw', hret, hok⟩ := hsuccess h
        rw [Exit.ret.inj hret]
        exact hok
    | thrown =>
        refine .throw fun s hs => ⟨hs, fun h => ?_⟩
        obtain ⟨raw, hret, -⟩ := hsuccess h
        cases hret
    | halted =>
        refine .halt fun s hs => ⟨hs.log.toBlamed, fun h => ?_⟩
        obtain ⟨raw, hret, -⟩ := hsuccess h
        cases hret

omit hsmooth in
/-- A callable with its sink. -/
theorem runSink_sound (hpayload : p.plan.payloadNode i) :
    ∀ (body : SinkBody V W) (live : Bool), (keeps → body.Delivers live) →
    (smooth → body.Succeeds) →
    Exec.Triple (fun s => Underway p keeps i live s.1)
      (runSink (idealSlots p.plan.toCompiledPlan V) p i body)
      (fun step s => (∃ live, Underway p keeps i live s.1 ∧ (keeps → step.ok → live = true))
        ∧ (smooth → step.ok))
      (fun s => ∃ live, Broken p keeps smooth i live s) (Ended p keeps smooth)
  | .finish exit written world, live, hdelivers, hsucceeds => by
      apply Exec.Triple.bind (Q := fun _ s => Underway p keeps i live s.1)
      · exact .act fun _ hs => hs
      · intro _
        apply Exec.Triple.bind (Q := fun _ s => Underway p keeps i live s.1)
        · exact .modify fun s hs => hs.writeBack written
        · intro _
          cases exit with
          | ret step =>
              refine .pure fun s hs => ⟨⟨live, hs, fun h hok => hdelivers h ?_⟩, fun h => ?_⟩
              · rw [StepResult.ok_iff.mp hok]
              · rw [Exit.ret.inj (hsucceeds h)]
                rfl
          | thrown => exact .throw fun s hs => ⟨live, hs, fun h => by cases hsucceeds h⟩
          | halted => exact .halt fun s hs => ⟨hs.log.toBlamed, fun h => by cases hsucceeds h⟩
  | .hasValue next, live, hdelivers, hsucceeds => by
      have hlook : Exec.Triple (fun s : Machine (Nat → Option V) V × W =>
            Underway p keeps i live s.1)
          (look fun m => (idealSlots p.plan.toCompiledPlan V).outHasValue i m.slots)
          (fun found s => Underway p keeps i live s.1 ∧ found = live)
          (fun s => ∃ live, Broken p keeps smooth i live s) (Ended p keeps smooth) :=
        .reads fun s hs => ⟨hs, hs.sink⟩
      apply hlook.bind
      intro found
      apply Exec.Triple.given
      rintro rfl
      exact runSink_sound hpayload (next found) found hdelivers fun h => hsucceeds h found
  | .emplace payload next, live, hdelivers, hsucceeds => by
      apply Exec.Triple.bind (Q := fun _ s => Underway p keeps i live s.1)
      · apply contract_sound
        · exact fun _ hs _ => hs
        · intro s hs hlive
          -- the sink is full: the callable does not keep its contract
          have hkeeps : ¬ keeps := by
            intro h
            have hempty : live = false := (hdelivers h).1
            have hfull : (idealSlots p.plan.toCompiledPlan V).outHasValue i s.1.slots = live :=
              hs.sink
            rw [hfull, hempty] at hlive
            cases hlive
          exact ⟨⟨hs.log.violate hkeeps nofun, fun h => hkeeps (hsound h)⟩,
            fun hasserts => hs.ignore hasserts hkeeps nofun⟩
      · intro _
        apply Exec.Triple.bind (Q := fun _ s => Underway p keeps i (live || payload.isSome) s.1)
        · exact .modify fun s hs => hs.emplaceSink hi hpayload payload
        · intro _
          apply runSink_sound hpayload next _ _ hsucceeds
          intro h
          obtain ⟨hempty, hnext⟩ := hdelivers h
          rw [hempty, Bool.false_or]
          exact hnext
  | .destroy next, live, hdelivers, hsucceeds => by
      apply Exec.Triple.bind (Q := fun _ s => Underway p keeps i false s.1)
      · exact .modify fun s hs => hs.destroy hi
      · exact fun _ => runSink_sound hpayload next false hdelivers hsucceeds

/-- One attempt of a direct-output task. -/
theorem attemptInto_sound (hkeeps : keeps → p.KeepsContracts)
    (hinto : (p.plan.task i).usesDirectOutputProtocol) :
    Exec.Triple (fun s => Underway p keeps i false s.1)
      (attemptInto (idealSlots p.plan.toCompiledPlan V) p i)
      (fun step s => (∃ live, Underway p keeps i live s.1 ∧ (keeps → step.ok → live = true))
        ∧ (smooth → step.ok))
      (fun s => ∃ live, Broken p keeps smooth i live s) (Ended p keeps smooth) := by
  unfold attemptInto
  rw [← Exec.bind_assoc]
  have harguments : Exec.Triple (fun s => Underway p keeps i false s.1)
      (onMachine (beginAttempt (idealSlots p.plan.toCompiledPlan V) p i) >>= fun _ =>
        resolveAll (idealSlots p.plan.toCompiledPlan V) p i (p.behaviour i).evaluated)
      (fun _ s => Underway p keeps i false s.1)
      (fun s => ∃ live, Broken p keeps smooth i live s) (Ended p keeps smooth) :=
    (arguments_sound hsound hsmooth hi).conseq (fun _ => id) (fun _ _ => id)
      (fun _ hs => ⟨false, hs⟩) fun _ => id
  apply harguments.bind
  intro args
  have hbody : Exec.Triple
      (fun s : Machine (Nat → Option V) V × W => Underway p keeps i false s.1)
      (onWorld fun w => ((p.behaviour i).sinkBody args w, w))
      (fun body s => Underway p keeps i false s.1
        ∧ (keeps → body.Delivers false) ∧ (smooth → body.Succeeds))
      (fun s => ∃ live, Broken p keeps smooth i live s) (Ended p keeps smooth) :=
    .act fun s hs => ⟨hs, fun h => (hkeeps h).sink i hi hinto args s.2,
      fun h => (hsmooth h).sink i hi hinto args s.2⟩
  apply hbody.bind
  intro body
  apply Exec.Triple.given
  rintro ⟨hdelivers, hsucceeds⟩
  exact runSink_sound hsound hi (ValidPlan.payloadNode_of_direct hinto) body false hdelivers
    hsucceeds

/-- `invoke_raw` of node `i`'s task. -/
theorem invokeRaw_sound (hkeeps : keeps → p.KeepsContracts) {fuel : Nat}
    (hfuel : smooth → 0 < fuel) (hraw : (p.plan.task i).usesDirectOutputProtocol = false) :
    Exec.Triple (fun s => Underway p keeps i false s.1)
      (invokeRaw fuel (p.plan.task i) (p.behaviour i).policies
        (attemptRaw (idealSlots p.plan.toCompiledPlan V) p i))
      (fun raw s => Underway p keeps i false s.1 ∧ (keeps → RawKind.Delivers _ raw)
        ∧ (smooth → (Program.extractStepResult _ raw).ok))
      (Broken p keeps smooth i false) (Ended p keeps smooth) := by
  have hadapts : ∀ kind, Adapts (fun raw => keeps → RawKind.Delivers kind raw)
      (rawResultRequestsRetry kind) id (fun s => Underway p keeps i false s.1)
      (Broken p keeps smooth i false)
      (fun (raw : kind.Result V) (s : Machine (Nat → Option V) V × W) =>
        Underway p keeps i false s.1 ∧ (keeps → RawKind.Delivers kind raw)
          ∧ (smooth → (Program.extractStepResult kind raw).ok)) := by
    intro kind
    refine ⟨fun _ _ _ => id, fun _ _ _ hs => hs.2.1, fun _ _ _ hs => hs.1, ?_, ?_⟩
    · intro raw raw' s hasks hs hgood
      refine ⟨hs.1, hgood, fun h => ?_⟩
      have hok := hs.2.2 h
      rw [not_ok_of_requestsRetry hasks] at hok
      cases hok
    · exact fun raw s w hgood hs => ⟨hs.1, hgood, fun h => absurd h hs.2⟩
  apply (invokeRaw_adapts hadapts _ _ fuel _ _ _ _
    (attemptRaw_sound hsound hsmooth hi hkeeps hraw)).conseq (fun _ => id) (fun _ _ => id)
    (fun _ hs => hs.1) fun _ => id
  · intro kind raw s hs
    refine ⟨hs.1, fun h => (hs.2.1 h).caught, ?_⟩
    rw [extractStepResult_caughtReturn]
    exact hs.2.2
  · intro kind raw hdefault _
    cases kind with
    | void | step => trivial
    | taskResult | value => cases hdefault
  · exact Task.policiesKeep_imp fun h => (hkeeps h).policies i hi hraw
  · refine Or.inr ⟨fun s hs => hs.ended, fun hasks s hs => ⟨hs.log.toBlamed, fun h => ?_⟩⟩
    rcases hasks with hzero | ⟨kind, raw, s', hretry, hs'⟩
    · exact absurd (hfuel h) (by omega)
    · have hok := hs'.2.2 h
      rw [not_ok_of_requestsRetry hretry] at hok
      cases hok

/-- `invoke_into` of node `i`'s task. -/
theorem invokeNodeInto_sound (hkeeps : keeps → p.KeepsContracts) {fuel : Nat}
    (hfuel : smooth → 0 < fuel) (hinto : (p.plan.task i).usesDirectOutputProtocol) :
    Exec.Triple (fun s => Underway p keeps i false s.1)
      (invokeNodeInto (idealSlots p.plan.toCompiledPlan V) p fuel i)
      (fun step s => (∃ live, Underway p keeps i live s.1 ∧ (keeps → step.ok → live = true))
        ∧ (smooth → step.ok))
      (fun s => ∃ live, Broken p keeps smooth i live s) (Ended p keeps smooth) := by
  have hadapts : Adapts (fun step : StepResult => keeps → step.ok = false)
      (fun step => step.status == .retry) (cleanUpSink (idealSlots p.plan.toCompiledPlan V) i)
      (fun s => Underway p keeps i false s.1) (fun s => ∃ live, Broken p keeps smooth i live s)
      (fun (step : StepResult) (s : Machine (Nat → Option V) V × W) =>
        (∃ live, Underway p keeps i live s.1 ∧ (keeps → step.ok → live = true))
          ∧ (smooth → step.ok)) := by
    refine ⟨fun _ _ _ => id, fun step _ hasks _ _ => StepResult.not_ok_of_retry hasks, ?_, ?_, ?_⟩
    · rintro step s - ⟨⟨live, hs, -⟩, -⟩
      exact hs.cleanUpSink hi
    · rintro step step' s hasks ⟨⟨live, hs, -⟩, hok⟩ hgood
      refine ⟨⟨live, hs, fun h hok' => ?_⟩, fun h => ?_⟩
      · rw [hgood h] at hok'
        cases hok'
      · have hok := hok h
        rw [StepResult.not_ok_of_retry hasks] at hok
        cases hok
    · rintro step s w hgood ⟨live, hs⟩
      refine ⟨⟨live, hs.1, fun h hok => ?_⟩, fun h => absurd h hs.2⟩
      rw [hgood h] at hok
      cases hok
  apply (invokeInto_adapts (fun _ => rfl) hadapts fuel
    (attemptInto_sound hsound hsmooth hi hkeeps hinto) _ _ _ _).conseq (fun _ => id)
    (fun _ _ => id) (fun _ hs => hs.1) fun _ => id
  · exact Task.policiesKeep_imp fun h => (hkeeps h).policiesInto i hi hinto
  · refine Or.inr fun hasks s hs => ⟨hs.log.toBlamed, fun h => ?_⟩
    rcases hasks with hzero | ⟨step, s', hretry, hs'⟩
    · exact absurd (hfuel h) (by omega)
    · have hok := hs'.2 h
      rw [StepResult.not_ok_of_retry hretry] at hok
      cases hok

end Hypotheses

end Attempts

/-! ## §5. Entering a node. -/

section Enter

variable {p : Program V W} {keeps smooth : Prop} {i : Nat}

/-- Node `i` has been entered. -/
def Visited (p : Program V W) (keeps smooth : Prop) (i : Nat) (entered : NodeEnterResult)
    (s : Machine (Nat → Option V) V × W) : Prop :=
  if entered.step.ok then
    Sound p keeps (p.plan.path i).tail (p.plan.path i) (p.plan.path i) s.1
  else
    Sound p keeps (p.plan.path i).tail (p.plan.path i).tail (p.plan.path i).tail s.1 ∧ ¬ smooth

/-- Node `i` is left by an exception. -/
def Escaped (p : Program V W) (keeps smooth : Prop) (i : Nat)
    (s : Machine (Nat → Option V) V × W) : Prop :=
  Sound p keeps (p.plan.path i).tail (p.plan.path i).tail (p.plan.path i).tail s.1 ∧ ¬ smooth

variable (hsound : smooth → keeps) (hsmooth : smooth → p.NeverFails) (hi : i < p.plan.nodeCount)

/-- A success is recorded. -/
theorem finish_sound {E : Machine (Nat → Option V) V × W → Prop} (payloadLive : Bool)
    (hi : i < p.plan.nodeCount) :
    Exec.Triple
      (fun s => ∃ live, Underway p keeps i live s.1
        ∧ (NoEmptySuccess s.1.events → p.plan.payloadNode i → live = true))
      (onMachine (finishNode (idealSlots p.plan.toCompiledPlan V) p i) >>= fun _ =>
        pure (NodeEnterResult.succeeded payloadLive))
      (Visited p keeps smooth i) E (Ended p keeps smooth) := by
  apply Exec.Triple.bind
    (Q := fun _ s => Sound p keeps (p.plan.path i).tail (p.plan.path i) (p.plan.path i) s.1)
  · apply Exec.Triple.modify
    rintro s ⟨live, hs, hlive⟩
    exact hs.finish hi hlive
  · exact fun _ => .pure fun _ hs => hs

/-- A node is left with a status that is no success. -/
theorem fail_sound {E : Machine (Nat → Option V) V × W → Prop} {step : StepResult}
    (hok : ¬ step.ok) (hsuccess : smooth → step.ok) :
    Exec.Triple
      (fun s => Sound p keeps (p.plan.path i).tail (p.plan.path i).tail (p.plan.path i).tail s.1)
      (pure (NodeEnterResult.unsuccessful step)) (Visited p keeps smooth i) E
      (Ended p keeps smooth) := by
  apply Exec.Triple.pure
  intro s hs
  unfold Visited
  rw [NodeEnterResult.unsuccessful_step, if_neg hok]
  exact ⟨hs, fun h => hok (hsuccess h)⟩

include hsmooth hi

/-- A value is stored. -/
theorem moveIntoSlot_sound (hpayload : p.plan.payloadNode i) (v : V) :
    Exec.Triple (fun s => Underway p keeps i false s.1)
    (moveIntoSlot (idealSlots p.plan.toCompiledPlan V) p i v)
    (fun _ s => Underway p keeps i true s.1) (Escaped p keeps smooth i)
    (Ended p keeps smooth) := by
  unfold moveIntoSlot
  have hmove : Exec.Triple
      (fun s : Machine (Nat → Option V) V × W => Underway p keeps i false s.1)
      (onWorld fun w => ((p.move w v).1, (p.move w v).2.2))
      (fun stored s => Underway p keeps i false s.1 ∧ (smooth → stored ≠ none))
      (Escaped p keeps smooth i) (Ended p keeps smooth) :=
    .act fun s hs => ⟨hs, fun h => (hsmooth h).move s.2 v⟩
  apply hmove.bind
  intro stored
  cases stored with
  | none => exact .throw fun s hs => ⟨hs.1.leave, fun h => hs.2 h rfl⟩
  | some v' => exact .modify fun s hs => hs.1.emplaceSink hi hpayload (some v')

include hsound

/-- What there is to store of a success, by the kind of the raw result. -/
theorem storeNodeOutput_sound : ∀ kind : RawKind,
    (p.plan.payloadNode i = match kind with
      | .void | .step => false
      | .taskResult | .value => true) →
    ∀ raw : kind.Result V, (keeps → kind.Delivers raw) →
    (Program.extractStepResult kind raw).ok →
    Exec.Triple (fun s => Underway p keeps i false s.1)
      (storeNodeOutput (idealSlots p.plan.toCompiledPlan V) p i kind raw)
      (fun _ s => ∃ live, Underway p keeps i live s.1
        ∧ (NoEmptySuccess s.1.events → p.plan.payloadNode i → live = true))
      (Escaped p keeps smooth i) (Ended p keeps smooth)
  | .void, hpayload, _, _, _ | .step, hpayload, _, _, _ =>
      .pure fun s hs => ⟨false, hs, fun _ h => absurd (hpayload.symm.trans h) Bool.false_ne_true⟩
  | .value, hpayload, v, _, _ =>
      (moveIntoSlot_sound hsmooth hi hpayload v).bind fun _ =>
        .pure fun s hs => ⟨true, hs, fun _ _ => rfl⟩
  | .taskResult, hpayload, raw, hdelivers, hok => by
      unfold storeNodeOutput
      dsimp only
      split
      · next v _ =>
          exact (moveIntoSlot_sound hsmooth hi hpayload v).bind fun _ =>
            .pure fun s hs => ⟨true, hs, fun _ _ => rfl⟩
      · next hnone =>
          -- the task has not kept its contract
          have hkeeps : ¬ keeps := fun h => hdelivers h hok hnone
          apply Exec.Triple.bind (Q := fun _ => Ended p keeps smooth)
          · exact .modify fun s hs =>
              ⟨hs.log.violate hkeeps nofun, fun h => hkeeps (hsound h)⟩
          · exact fun _ => .halt fun _ hs => hs

theorem enterRaw_sound (hkeeps : keeps → p.KeepsContracts) {fuel : Nat}
    (hfuel : smooth → 0 < fuel) (hraw : (p.plan.task i).usesDirectOutputProtocol = false) :
    Exec.Triple (fun s => Underway p keeps i false s.1)
      (enterRaw (idealSlots p.plan.toCompiledPlan V) p fuel i) (Visited p keeps smooth i)
      (Escaped p keeps smooth i) (Ended p keeps smooth) := by
  unfold enterRaw
  apply ((invokeRaw_sound hsound hsmooth hi hkeeps hfuel hraw).noexcept fun _ => Broken.ended).bind
  intro raw
  apply Exec.Triple.given
  rintro ⟨hdelivers, hsuccess⟩
  split
  · next hok =>
      apply (storeNodeOutput_sound hsound hsmooth hi _
        (ValidPlan.payloadNode_of_kind hi (p.supported i hi) hraw) raw hdelivers hok).bind
      exact fun payloadLive => finish_sound payloadLive hi
  · next hok => exact (fail_sound hok hsuccess).pre fun _ hs => hs.leave

theorem enterInto_sound (hkeeps : keeps → p.KeepsContracts) {fuel : Nat}
    (hfuel : smooth → 0 < fuel) (hinto : (p.plan.task i).usesDirectOutputProtocol) :
    Exec.Triple (fun s => Underway p keeps i false s.1)
      (enterInto (idealSlots p.plan.toCompiledPlan V) p fuel i) (Visited p keeps smooth i)
      (Escaped p keeps smooth i) (Ended p keeps smooth) := by
  have hpayload := ValidPlan.payloadNode_of_direct hinto
  unfold enterInto
  apply ((invokeNodeInto_sound hsound hsmooth hi hkeeps hfuel hinto).noexcept
    fun _ ⟨_, hs⟩ => hs.ended).bind
  intro step
  apply Exec.Triple.given
  intro hsuccess
  unfold finalizeDirectOutputStep
  by_cases hok : step.ok
  · rw [if_pos hok]
    have hcontract : Exec.Triple
        (fun s => ∃ live, Underway p keeps i live s.1 ∧ (keeps → step.ok → live = true))
        (contract p.asserts (.missingOutput i) fun m =>
          (idealSlots p.plan.toCompiledPlan V).hasValue i m.slots)
        (fun _ s => ∃ live, Underway p keeps i live s.1
          ∧ (NoEmptySuccess s.1.events → p.plan.payloadNode i → live = true))
        (Escaped p keeps smooth i) (Ended p keeps smooth) := by
      apply contract_sound
      · rintro s ⟨live, hs, -⟩ hlive
        rw [idealSlots_hasValue hi hpayload, hs.sink] at hlive
        exact ⟨live, hs, fun _ _ => hlive⟩
      · rintro s ⟨live, hs, hdelivers⟩ hlive
        rw [idealSlots_hasValue hi hpayload, hs.sink] at hlive
        have hnot : ¬ keeps := fun h => by
          rw [hdelivers h hok] at hlive
          cases hlive
        refine ⟨⟨hs.log.violate hnot nofun, fun h => hnot (hsound h)⟩, fun hasserts => ?_⟩
        -- the violation on record stands for the payload
        exact ⟨live, hs.ignore hasserts hnot nofun,
          fun hfull => absurd List.mem_cons_self (hfull i)⟩
    rw [Exec.bind_assoc]
    apply hcontract.bind
    intro _
    rw [Exec.bind_pure_left, if_pos hok]
    exact finish_sound true hi
  · rw [if_neg hok, Exec.bind_assoc]
    apply Exec.Triple.bind (Q := fun _ s =>
      Sound p keeps (p.plan.path i).tail (p.plan.path i).tail (p.plan.path i).tail s.1)
    · apply Exec.Triple.modify
      rintro s ⟨live, hs, -⟩
      show Sound p keeps _ _ _ (s.1.onSlots ((idealSlots p.plan.toCompiledPlan V).destroy i))
      rw [idealSlots_onDestroy hi hpayload]
      exact (hs.destroy hi).leave
    · intro _
      rw [Exec.bind_pure_left, if_neg hok]
      exact fail_sound hok hsuccess

/-- **Entering a node.** -/
theorem enterNode_sound (hkeeps : keeps → p.KeepsContracts) {fuel : Nat}
    (hfuel : smooth → 0 < fuel) :
    Exec.Triple
      (fun s => Sound p keeps (p.plan.path i).tail (p.plan.path i).tail (p.plan.path i).tail s.1)
      (enterNode (idealSlots p.plan.toCompiledPlan V) p fuel i) (Visited p keeps smooth i)
      (Escaped p keeps smooth i) (Ended p keeps smooth) := by
  unfold enterNode
  apply Exec.Triple.bind (Q := fun _ s => Underway p keeps i false s.1)
  · exact .modify fun s hs => hs.enter hi
  · intro _
    split
    · next hinto => exact enterInto_sound hsound hsmooth hi hkeeps hfuel hinto
    · next hraw =>
        exact enterRaw_sound hsound hsmooth hi hkeeps hfuel (Bool.eq_false_iff.mpr hraw)

end Enter

/-! ## §6. Whole runs. -/

/-- Every node entered so far has finished. -/
def Settled (trace : List (Nat × Bool)) : Prop :=
  ∀ i, (i, false) ∈ trace → (i, true) ∈ trace

section Runs

variable {p : Program V W} {keeps smooth : Prop} {i : Nat}

theorem Settled.enter {trace : List (Nat × Bool)} (h : Settled trace) (i : Nat) :
    Settled ((i, true) :: (i, false) :: trace) := by
  intro j hj
  rw [List.mem_cons, List.mem_cons] at hj
  rcases hj with heq | heq | hj
  · cases heq
  · obtain rfl : j = i := congrArg Prod.fst heq
    exact List.mem_cons_self
  · exact List.mem_cons_of_mem _ (List.mem_cons_of_mem _ (h j hj))

/-- **A traversal.** -/
theorem sound_run (hsound : smooth → keeps) (hsmooth : smooth → p.NeverFails)
    (hkeeps : keeps → p.KeepsContracts) {fuel : Nat} (hfuel : smooth → 0 < fuel) :
    RunTriple p.plan.toPlanShape p.plan.payloadNode
      (nodeOps (idealSlots p.plan.toCompiledPlan V) p fuel)
      (fun P _ s => Sound p keeps P P P s.1 ∧ (smooth → Settled (controlTrace s.1.events)))
      (fun P _ s => Sound p keeps P.tail P P s.1 ∧ (smooth → Settled (controlTrace s.1.events)))
      (fun s => Unstopped p.asserts keeps s.1.events) (Ended p keeps smooth) where
  enter i hi := by
    apply Exec.Triple.of_ends
    intro s hs
    have hentered := (enterNode_sound hsound hsmooth hi hkeeps hfuel).ends hs.1
    have hcontrol : EnterTriple (idealSlots p.plan.toCompiledPlan V) p i _ _ _ _ _ :=
      control_triple i (controlTrace s.1.events)
    have htrace := (hcontrol.enterNode hi fuel).ends (s := s) rfl
    change Exec.Ends _ _ _ (enterNode (idealSlots p.plan.toCompiledPlan V) p fuel i s)
    generalize enterNode (idealSlots p.plan.toCompiledPlan V) p fuel i s = result
      at hentered htrace
    rcases result with ⟨entered | _ | _, t⟩
    · change Visited p keeps smooth i entered t at hentered
      change if entered.step.ok then _ else _ at htrace
      show if entered.step.ok then _ else _
      unfold Visited at hentered
      split at hentered
      · next hok =>
          rw [if_pos hok] at htrace ⊢
          refine ⟨htrace.1, hentered, fun h => ?_⟩
          rw [htrace.2]
          exact (hs.2 h).enter i
      · next hok =>
          rw [if_neg hok]
          exact ⟨hentered.1, fun h => absurd h hentered.2⟩
    · exact ⟨hentered.1, fun h => absurd h hentered.2⟩
    · exact hentered
  stage i hi hstaging := by
    have hfurnished := (furnished_run p fuel).stage i hi hstaging
    have hrest : Exec.Triple
        (fun s => Sound p keeps (p.plan.path i).tail (p.plan.path i) (p.plan.path i) s.1
          ∧ (smooth → Settled (controlTrace s.1.events)))
        (stageFanout (idealSlots p.plan.toCompiledPlan V) p i)
        (fun _ s => (Unstopped p.asserts keeps s.1.events
          ∧ ∀ j, s.1.slots j ≠ none → j ∈ p.plan.path i ∧ p.plan.payloadNode j)
            ∧ (smooth → Settled (controlTrace s.1.events)))
        (fun s => Sound p keeps (p.plan.path i).tail (p.plan.path i) (p.plan.path i) s.1
          ∧ (smooth → Settled (controlTrace s.1.events))) (Ended p keeps smooth) := by
      apply stageFanout_missing
      · exact fun _ _ hs => hs
      · -- the owner of the payload is on the path
        intro s hs hmissing
        apply missingSource_ended hsound hs.1.log
        intro hfull
        obtain ⟨hmem, hpayload, -⟩ :=
          ValidPlan.owner_chain i hi (ValidPlan.output_of_staging hi hstaging)
        exact hs.1.furnished.slot hfull _ hmem hpayload hmissing
      · exact fun s v w v' hs _ _ => ⟨⟨hs.1.log.cons nofun, hs.1.owned⟩, hs.2⟩
    exact (hfurnished.and hrest).conseq (fun s hs => ⟨hs.1.furnished, hs⟩)
      (fun _ s hs => ⟨⟨hs.2.1.1, hs.1, hs.2.1.2⟩, hs.2.2⟩) (fun _ hs => hs.2) fun _ hs => hs.2
  unstaged i hi hstaging n s := by
    have hfurnished := (furnished_run p fuel).unstaged i hi hstaging n s
    constructor
    · exact fun hs => ⟨⟨hs.1.log, hfurnished.mp hs.1.furnished, hs.1.owned⟩, hs.2⟩
    · exact fun hs => ⟨⟨hs.1.log, hfurnished.mpr hs.1.furnished, hs.1.owned⟩, hs.2⟩
  unstage i hi hstaging n s hs := by
    have hfurnished := (furnished_run p fuel).unstage i hi hstaging n s hs.1.furnished
    change Furnished p.plan _ _ (s.1.destroyStage i) at hfurnished
    obtain ⟨log, hevents, -⟩ := s.1.destroyStage_memory i
    show Sound p keeps _ _ _ (s.1.destroyStage i)
      ∧ (smooth → Settled (controlTrace (s.1.destroyStage i).events))
    refine ⟨⟨?_, hfurnished, ?_⟩, ?_⟩
    · rw [hevents]
      exact hs.1.log.memory log
    · rw [Machine.destroyStage_slots]
      exact hs.1.owned
    · rw [destroyStage_control]
      exact hs.2
  destroy i hi hpayload n s hs := by
    have hfurnished := (furnished_run p fuel).destroy i hi hpayload n s hs.1.furnished
    change Furnished p.plan _ _ (s.1.onSlots ((idealSlots p.plan.toCompiledPlan V).destroy i))
      at hfurnished
    show Sound p keeps _ _ _ (s.1.onSlots ((idealSlots p.plan.toCompiledPlan V).destroy i))
      ∧ (smooth → Settled
          (controlTrace (s.1.onSlots ((idealSlots p.plan.toCompiledPlan V).destroy i)).events))
    rw [controlTrace_onSlots]
    refine ⟨⟨?_, hfurnished, ?_⟩, hs.2⟩
    · rw [Machine.onSlots_events]
      exact hs.1.log.memory _
    · rw [idealSlots_onDestroy hi hpayload]
      intro j hj
      by_cases hji : j = i
      · subst hji
        exact absurd idealDestroy_self hj
      · rw [Machine.onSlots_slots, idealDestroy_other j hji] at hj
        exact (hs.1.owned j hj).imp_left fun hmem => ValidPlan.mem_tail_path hmem hji
  leave i hi hpayload n s hs := by
    refine ⟨⟨hs.1.log, (furnished_run p fuel).leave i hi hpayload n s hs.1.furnished, ?_⟩, hs.2⟩
    intro j hj
    obtain ⟨hmem, howned⟩ := hs.1.owned j hj
    refine ⟨ValidPlan.mem_tail_path hmem ?_, howned⟩
    rintro rfl
    rw [howned] at hpayload
    cases hpayload
  later _ _ _ _ _ hs := hs
  laterEntered _ _ _ _ _ hs := hs
  abandon _ _ _ hs := hs.1.log
  abandonEntered _ _ _ hs := hs.1.log

/-- What a run on the ideal backend leaves. -/
theorem ideal_sound (hsound : smooth → keeps) (hsmooth : smooth → p.NeverFails)
    (hkeeps : keeps → p.KeepsContracts) {fuel : Nat} (hfuel : smooth → 0 < fuel)
    (exec : ExecPolicy) (w : W) :
    Exec.Ends
      (fun _ s => Unstopped p.asserts keeps s.1.events
        ∧ (smooth → Settled (controlTrace s.1.events)))
      (fun s => Unstopped p.asserts keeps s.1.events) (Ended p keeps smooth)
      (runFrom (idealSlots p.plan.toCompiledPlan V) p exec fuel w) := by
  have hrun := sound_run hsound hsmooth hkeeps hfuel
  have hplan : Exec.Triple
      (fun s => Sound p keeps [] [] [] s.1 ∧ (smooth → Settled (controlTrace s.1.events)))
      (runPlan (idealSlots p.plan.toCompiledPlan V) p exec fuel)
      (fun _ s => Unstopped p.asserts keeps s.1.events
        ∧ (smooth → Settled (controlTrace s.1.events)))
      (fun s => Unstopped p.asserts keeps s.1.events) (Ended p keeps smooth) := by
    apply hrun.runPlan
    · intro s hs
      obtain ⟨log, hevents⟩ := leaveRun_events (idealSlots p.plan.toCompiledPlan V) p s.1
      dsimp only
      rw [hevents, controlTrace_memory]
      exact ⟨hs.1.log.memory log, hs.2⟩
    · intro s hs
      obtain ⟨log, hevents⟩ := leaveRun_events (idealSlots p.plan.toCompiledPlan V) p s.1
      dsimp only
      rw [hevents]
      exact hs.memory log
  apply hplan.ends
  refine ⟨⟨.nil, ?_, fun j hj => absurd rfl hj⟩, fun _ i hi => by cases hi⟩
  exact ⟨.nil _, fun _ _ h => absurd h List.not_mem_nil, fun _ _ h => absurd h List.not_mem_nil⟩

end Runs

/-- **Whose contracts are violated.**  In every run, under either layout and
executor:

  • where a spec or a stage finds no object to read, assertions are compiled out
    and a direct-output task has succeeded without a payload before,
  • with assertions, a violation is the last event, and the run ends there,
  • if every task keeps its contracts, nothing is violated. -/
theorem run_keeps_contracts (p : Program V W) (layout : SlotLayoutPolicy) (exec : ExecPolicy)
    (fuel : Nat) (w : W) :
    let run := runFrom (layout.slots p.plan.toCompiledPlan) p exec fuel w
    (∀ i before, .violated (.missingSource i) :: before <:+ run.2.1.events →
        p.asserts = false ∧ ∃ q, .violated (.missingOutput q) ∈ before)
      ∧ (p.asserts = true → ∀ violation before,
          .violated violation :: before <:+ run.2.1.events →
            run.1 = .halted ∧ run.2.1.events = .violated violation :: before)
      ∧ (p.KeepsContracts → NothingViolated run.2.1.events) := by
  intro run
  have hsound := ideal_sound (False.elim : False → p.KeepsContracts) False.elim id
    (False.elim : False → 0 < fuel) exec w
  obtain ⟨hexit, -, hevents, -⟩ := run_agrees (layout.refines p.plan) exec fuel w
  change run.1 = _ at hexit
  change run.2.1.events = _ at hevents
  rw [hexit, hevents]
  rcases hresult : runFrom (idealSlots p.plan.toCompiledPlan V) p exec fuel w with ⟨exit, s⟩
  rw [hresult] at hsound
  -- a run that has not halted may have gone on
  have hgoes : ∀ violation before, Unstopped p.asserts p.KeepsContracts s.1.events →
      p.asserts = true → .violated violation :: before <:+ s.1.events → False :=
    fun violation _ h hasserts hsuffix =>
      h.calm hasserts violation (hsuffix.subset List.mem_cons_self)
  cases exit with
  | ret step =>
      exact ⟨hsound.1.source, fun hasserts violation before hsuffix =>
        (hgoes violation before hsound.1 hasserts hsuffix).elim, hsound.1.kept⟩
  | thrown =>
      exact ⟨hsound.source, fun hasserts violation before hsuffix =>
        (hgoes violation before hsound hasserts hsuffix).elim, hsound.kept⟩
  | halted =>
      exact ⟨hsound.1.source, fun hasserts violation before hsuffix =>
        ⟨rfl, hsound.1.last hasserts violation before hsuffix⟩, hsound.1.kept⟩

/-- **Runs in which nothing fails succeed.**  Let every task keep its contracts,
every callable return success, and nothing throw.  Then under either layout and
executor the run returns success, it enters every node of the plan in order, each
finishes before the next is entered, and every node with a payload has one in its
slot when it finishes. -/
theorem run_succeeds (p : Program V W) (hkeeps : p.KeepsContracts) (hnever : p.NeverFails)
    (layout : SlotLayoutPolicy) (exec : ExecPolicy) {fuel : Nat} (hfuel : 0 < fuel) (w : W) :
    let run := runFrom (layout.slots p.plan.toCompiledPlan) p exec fuel w
    run.1 = .ret .success
      ∧ controlTrace run.2.1.events
          = visitTrace ((List.range p.plan.nodeCount).map fun i => (i, .success))
      ∧ ∀ i < p.plan.nodeCount, p.plan.payloadNode i →
          ∃ v, .finished i (some v) ∈ run.2.1.events := by
  intro run
  have hsound := ideal_sound (fun _ : True => hkeeps) (fun _ => hnever) id (fun _ => hfuel) exec w
  have hcourse := runFrom_course (idealSlots p.plan.toCompiledPlan V) p exec fuel w
  have hthrows : (runFrom (idealSlots p.plan.toCompiledPlan V) p exec fuel w).1 ≠ .thrown :=
    runPlan_neverThrows hnever.copy hnever.move exec fuel ({ slots := fun _ => none }, w)
  have hlive := ideal_liveTrue p exec fuel w
  obtain ⟨hexit, -, hevents, -⟩ := run_agrees (layout.refines p.plan) exec fuel w
  change run.1 = _ at hexit
  change run.2.1.events = _ at hevents
  rw [hexit, hevents]
  rcases hresult : runFrom (idealSlots p.plan.toCompiledPlan V) p exec fuel w with ⟨exit, s⟩
  rw [hresult] at hsound hcourse hthrows hlive
  cases exit with
  | thrown => exact absurd rfl hthrows
  | halted => exact absurd trivial hsound.2
  | ret r =>
      obtain ⟨E, htrace, hE⟩ := hcourse
      have hsettled := hsound.2 trivial
      -- every node that was entered has finished, so its status is success
      have hsuccess : ∀ e ∈ E, e.2 = .success := by
        intro e he
        have hfinished := hsettled e.1 (by
          rw [htrace]
          exact mem_visitTrace_entered.mpr (List.mem_map_of_mem he))
        rw [htrace] at hfinished
        have hmem := mem_visitTrace_finished.mp hfinished
        have hnodup : (E.map Prod.fst).Nodup := hE.increasing.imp Nat.ne_of_lt
        exact congrArg Prod.snd (List.inj_on_of_nodup_map hnodup he hmem rfl)
      obtain ⟨rfl, hentries⟩ := hE.all_entered hsuccess
      refine ⟨rfl, by rw [htrace, hentries], fun i hi hpayload => ?_⟩
      have hmem : (i, true) ∈ controlTrace s.1.events := by
        rw [htrace, hentries]
        exact mem_visitTrace_finished.mpr (List.mem_map.mpr ⟨i, List.mem_range.mpr hi, rfl⟩)
      obtain ⟨payload, hpayload'⟩ := mem_controlTrace_finished.mp hmem
      obtain ⟨later, before, hlog⟩ := List.append_of_mem hpayload'
      have hcalm := (hsound.1.kept hkeeps).noEmptySuccess
      rw [hlog] at hcalm
      have hsome := hlive.finished i payload before ⟨later, hlog.symm⟩ hcalm.earlier.tail hpayload
      obtain ⟨v, rfl⟩ := Option.ne_none_iff_exists'.mp hsome
      exact ⟨v, hpayload'⟩

/-! ## §7. A run that succeeds. -/

/-- A direct-output root whose payload one child consumes, to make another one,
and the other child copies, under adapters. -/
def steadyTask : Nat → Task
  | 0 => .base
      (.boundOutputTask (.object 0) (.function [.directOut (.object 0)] .stepResult) [])
  | 1 => .base (.boundTask (.function [.object 0] (.object 1)) [.consumePrev (.object 0)])
  | _ => .retryTask (.catchFailureWithPolicyTask (.taskResult (.object 1)) (.base
      (.boundTask (.function [.object 0] (.taskResult (.object 1))) [.copyPrev (.object 0)])))

def steadyPlan : ValidPlan where
  toPlanShape := .twoChildren
  task := steadyTask
  fanoutPolicy := fun _ => .consumeWithCopies
  bound := by decide
  runnable := by decide
  slotsFormed := by decide

def steadyProgram : Program Nat Nat where
  plan := steadyPlan
  behaviour
    | 0 => {
        evaluated := (steadyTask 0).bound.bindings
        evaluated_perm := List.Perm.refl _
        argument := fun _ w => (true, w)
        body := fun _ w => ((.ret StepResult.success, none), w)
        sinkBody := fun _ w => .hasValue fun live => .emplace (some (if live then 1 else 7))
          (.finish (.ret .success) none (w + 1))
        policies := ()
        policiesInto := () }
    | 1 => {
        evaluated := (steadyTask 1).bound.bindings
        evaluated_perm := List.Perm.refl _
        argument := fun _ w => (true, w)
        body := fun args w => ((.ret (args.headD 0), none), w)
        sinkBody := fun _ w => .finish (.ret .success) none w
        policies := ()
        policiesInto := () }
    | i + 2 => {
        evaluated := (steadyTask (i + 2)).bound.bindings
        evaluated_perm := List.Perm.refl _
        argument := fun _ w => (true, w)
        body := fun args w => ((.ret (⟨.success, some (args.headD 0)⟩ : TaskResult Nat), none), w)
        sinkBody := fun _ w => .finish (.ret .success) none w
        policies := (retryForeverPolicy, fun w => ((⟨.failure, none⟩ : TaskResult Nat), w), ())
        policiesInto := (retryForeverPolicy, fun w => (.failure, w), ()) }
  copy w v := (some v, w)
  move w v := (some v, 0, w)
  asserts := true

theorem steady_keeps : steadyProgram.KeepsContracts where
  body i _ _ args w raw hraw := by
    match i with
    | 0 | 1 => trivial
    | _ + 2 =>
        cases hraw
        exact fun _ => Option.some_ne_none _
  sink i _ hinto args w := by
    match i with
    | 0 => exact ⟨rfl, fun _ => rfl⟩
    | 1 | _ + 2 => cases hinto
  policies i _ _ := by
    match i with
    | 0 | 1 => trivial
    | _ + 2 => exact ⟨nofun, fun _ => nofun, trivial⟩
  policiesInto i _ hinto := by
    match i with
    | 0 | 1 => trivial
    | _ + 2 => cases hinto

theorem steady_neverFails : steadyProgram.NeverFails where
  argument i _ binding _ _ w := by
    match i with
    | 0 | 1 | _ + 2 => rfl
  copy w v := nofun
  move w v := nofun
  body i _ _ args w := by
    match i with
    | 0 => exact ⟨StepResult.success, rfl, rfl⟩
    | 1 => exact ⟨args.headD 0, rfl, rfl⟩
    | _ + 2 => exact ⟨⟨.success, some (args.headD 0)⟩, rfl, rfl⟩
  sink i _ _ args w := by
    match i with
    | 0 => exact fun _ => rfl
    | 1 | _ + 2 => rfl

/-- All three nodes are entered, and the last one finishes with the copy. -/
theorem run_succeeds_steady :
    let run := runFrom (SlotLayoutPolicy.slots steadyPlan.toCompiledPlan .serialDfsCompact)
      steadyProgram .serialDfsExplicitHeapStack 1 0
    (run.1 = .ret .success ∧ controlTrace run.2.1.events
        = [(2, true), (2, false), (1, true), (1, false), (0, true), (0, false)])
      ∧ .finished 2 (some 7) ∈ run.2.1.events := by
  intro run
  obtain ⟨hreturn, htrace, -⟩ := run_succeeds steadyProgram steady_keeps steady_neverFails
    .serialDfsCompact .serialDfsExplicitHeapStack (Nat.succ_pos 0) 0
  exact ⟨⟨hreturn, htrace⟩, by decide +kernel⟩

end YOrch
