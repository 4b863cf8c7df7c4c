/-
  YOrch.Executor.EmptySlots — payloads that are said to be live.

  `enter_node` takes a direct-output task's success for its payload: with
  assertions compiled out, nothing looks at the slot before the children are
  entered.  `Furnished` says of a machine on the ideal backend that the nodes on
  the current path have their payloads and staged copies.  It survives
  everything a run does until a direct-output task succeeds with an empty slot:

    • `furnished_triple`, `furnished_run` — the step and the run,
    • `liveTrue_until_empty` — up to that point every node said to have a
      payload has one, and every prev view is bound to an object,
    • `empty_success_descends` — after it, neither holds.
-/
import YOrch.Executor.HeapStack

namespace YOrch

open Library

variable {V W S : Type}

/-! ## §1. What payloads are said to be live. -/

/-- No direct-output task has succeeded with an empty slot. -/
def NoEmptySuccess (events : List (Event V)) : Prop :=
  ∀ i, .violated (.missingOutput i) ∉ events

/-- As long as no direct-output task has succeeded with an empty slot, every
finished node said to have a payload has one, and every node with a prev view was
entered with an object in it. -/
structure LiveTrue (plan : ValidPlan) (events : List (Event V)) : Prop where
  finished : ∀ i payload before, .finished i payload :: before <:+ events →
    NoEmptySuccess before → plan.payloadNode i → payload ≠ none
  entered : ∀ i prev before, .entered i prev :: before <:+ events →
    NoEmptySuccess before → plan.prevSource i ≠ none → prev ≠ none

theorem NoEmptySuccess.tail {event : Event V} {events : List (Event V)}
    (h : NoEmptySuccess (event :: events)) : NoEmptySuccess events :=
  fun i hi => h i (List.mem_cons_of_mem _ hi)

theorem NoEmptySuccess.earlier {later events : List (Event V)}
    (h : NoEmptySuccess (later ++ events)) : NoEmptySuccess events :=
  fun i hi => h i (List.mem_append_right _ hi)

namespace LiveTrue

variable {plan : ValidPlan} {events : List (Event V)} {event : Event V}

theorem nil (plan : ValidPlan) : LiveTrue plan ([] : List (Event V)) where
  finished _ _ _ h := by simp at h
  entered _ _ _ h := by simp at h

/-- Another event, which is right if it finishes or enters a node. -/
theorem cons (h : LiveTrue plan events)
    (hfinished : ∀ i payload, event = .finished i payload → NoEmptySuccess events →
      plan.payloadNode i → payload ≠ none)
    (hentered : ∀ i prev, event = .entered i prev → NoEmptySuccess events →
      plan.prevSource i ≠ none → prev ≠ none) : LiveTrue plan (event :: events) where
  finished i payload before hsuffix := by
    rcases List.suffix_cons_iff.mp hsuffix with heq | hsuffix
    · rw [List.cons.injEq] at heq
      rw [heq.2]
      exact hfinished i payload heq.1.symm
    · exact h.finished i payload before hsuffix
  entered i prev before hsuffix := by
    rcases List.suffix_cons_iff.mp hsuffix with heq | hsuffix
    · rw [List.cons.injEq] at heq
      rw [heq.2]
      exact hentered i prev heq.1.symm
    · exact h.entered i prev before hsuffix

/-- Memory events say nothing. -/
theorem memory (h : LiveTrue plan events) : ∀ log : List MemoryEvent,
    LiveTrue plan (log.map .memory ++ events)
  | [] => h
  | _ :: log => (h.memory log).cons (by nofun) (by nofun)

end LiveTrue

/-! ## §2. Payloads on the path. -/

/-- The nodes in `staged` have their copies, those in `live` their payloads, as
long as no direct-output task has succeeded with an empty slot. -/
structure Furnished (plan : ValidPlan) (staged live : List Nat)
    (m : Machine (Nat → Option V) V) : Prop where
  log : LiveTrue plan m.events
  slot : NoEmptySuccess m.events → ∀ j ∈ live, plan.payloadNode j → m.slots j ≠ none
  stage : NoEmptySuccess m.events → ∀ q ∈ staged, plan.parentRequiresFanoutStaging q →
    m.stage q ≠ none

namespace Furnished

variable {plan : ValidPlan} {staged live : List Nat} {i : Nat}
  {m m' : Machine (Nat → Option V) V}

/-- An event that neither finishes nor enters a node. -/
theorem record (h : Furnished plan staged live m) {event : Event V}
    (hfinished : ∀ i payload, event ≠ .finished i payload)
    (hentered : ∀ i prev, event ≠ .entered i prev) :
    Furnished plan staged live (m.record event) where
  log := h.log.cons (fun i payload heq => absurd heq (hfinished i payload))
    fun i prev heq => absurd heq (hentered i prev)
  slot hfull := h.slot hfull.tail
  stage hfull := h.stage hfull.tail

/-- Only which objects of the listed nodes are live matters. -/
theorem congr (h : Furnished plan staged live m) {log : List MemoryEvent}
    (hevents : m'.events = log.map .memory ++ m.events)
    (hslots : ∀ j ∈ live, m.slots j ≠ none → m'.slots j ≠ none)
    (hstage : ∀ q ∈ staged, m.stage q ≠ none → m'.stage q ≠ none) :
    Furnished plan staged live m' where
  log := hevents ▸ h.log.memory log
  slot hfull j hj hpayload := by
    rw [hevents] at hfull
    exact hslots j hj (h.slot hfull.earlier j hj hpayload)
  stage hfull q hq hstaging := by
    rw [hevents] at hfull
    exact hstage q hq (h.stage hfull.earlier q hq hstaging)

/-- Operations on one node's slot leave those of the others. -/
theorem onSlots (h : Furnished plan staged live m) (hi : i ∉ live)
    {op : (Nat → Option V) → List MemoryEvent × (Nat → Option V)}
    (hop : ∀ j ≠ i, (op m.slots).2 j = m.slots j) :
    Furnished plan staged live (m.onSlots op) := by
  apply h.congr (Machine.onSlots_events m op)
  · intro j hj hlive
    rw [Machine.onSlots_slots, hop j fun hji => hi (hji ▸ hj)]
    exact hlive
  · exact fun _ _ => id

theorem weaken {staged' live' : List Nat} (h : Furnished plan staged live m)
    (hstaged : staged' ⊆ staged) (hlive : live' ⊆ live) : Furnished plan staged' live' m where
  log := h.log
  slot hfull j hj := h.slot hfull j (hlive hj)
  stage hfull q hq := h.stage hfull q (hstaged hq)

/-- Node `i` joins the nodes with payloads. -/
theorem join (h : Furnished plan staged (plan.path i).tail m)
    (hslot : NoEmptySuccess m.events → plan.payloadNode i → m.slots i ≠ none) :
    Furnished plan staged (plan.path i) m where
  log := h.log
  slot hfull j hj hpayload := by
    rw [ValidPlan.path_cons plan.toPlanShape i] at hj
    rcases List.mem_cons.mp hj with rfl | hj
    · exact hslot hfull hpayload
    · exact h.slot hfull j hj hpayload
  stage := h.stage

end Furnished

/-! ## §3. One node. -/

section Node

variable {p : Program V W} {i : Nat} {staged live : List Nat} {m : Machine (Nat → Option V) V}

/-- The object a node's prev view is bound to. -/
theorem Furnished.read (h : Furnished p.plan (p.plan.path i).tail (p.plan.path i).tail m)
    (hi : i < p.plan.nodeCount) (hfull : NoEmptySuccess m.events)
    (hsource : p.plan.prevSource i ≠ none) :
    readPrev (idealSlots p.plan.toCompiledPlan V) p i m ≠ none := by
  obtain ⟨source, hsome⟩ := Option.ne_none_iff_exists'.mp hsource
  have hdef := hsome
  unfold CompiledPlan.prevSource at hdef
  split_ifs at hdef with hroot hvoid hstaged
  · have hpos : 0 < i := p.plan.pos_of_parentIndex hroot
    obtain rfl := Option.some.inj hdef
    rw [readPrev_stage _ _ hsome]
    apply h.stage hfull
    · rw [p.plan.path_of_pos hpos hi]
      exact p.plan.self_mem_path _
    · rw [CompiledPlan.nodeUsesStagedCopyPrev, if_neg hroot, Bool.and_eq_true] at hstaged
      exact hstaged.1
  · have hpos : 0 < i := p.plan.pos_of_parentIndex hroot
    obtain rfl := Option.some.inj hdef
    rw [readPrev_slot _ _ hsome]
    have hparent := Nat.lt_trans (p.plan.parentIndex_lt hpos hi) hi
    obtain ⟨hmem, hpayload, -⟩ := ValidPlan.owner_chain _ hparent (by simpa using hvoid)
    apply h.slot hfull _ _ hpayload
    rw [p.plan.path_of_pos hpos hi]
    exact hmem

/-- Node `i`'s task has succeeded. -/
theorem Furnished.finish (h : Furnished p.plan (p.plan.path i).tail (p.plan.path i).tail m)
    (hi : i < p.plan.nodeCount)
    (hslot : NoEmptySuccess m.events → p.plan.payloadNode i → m.slots i ≠ none) :
    Furnished p.plan (p.plan.path i).tail (p.plan.path i)
      (finishNode (idealSlots p.plan.toCompiledPlan V) p i m) := by
  have hjoin := h.join hslot
  refine ⟨hjoin.log.cons ?_ (by nofun), fun hfull => hjoin.slot hfull.tail,
    fun hfull => hjoin.stage hfull.tail⟩
  intro j payload heq hfull hpayload
  obtain ⟨rfl, rfl⟩ := Event.finished.inj heq
  obtain ⟨hvoid, howner⟩ := ValidPlan.owner_of_payloadNode hi hpayload
  unfold nodeOutput
  rw [hvoid, if_neg (by simp)]
  show m.slots (p.plan.canonicalOutputOwnerNode i) ≠ none
  rw [howner]
  exact hslot hfull hpayload

theorem Furnished.resolveStep (h : Furnished p.plan staged live m) (binding : Spec × CppType)
    (source : PrevSource) (arg : Option V) (left : V) :
    Furnished p.plan staged live
      (resolveStep (idealSlots p.plan.toCompiledPlan V) p i binding source arg left m) := by
  have hrecord : Furnished p.plan staged live
      (m.record (.resolved i binding.1.kind source arg)) := h.record (by nofun) (by nofun)
  have hevents : (YOrch.resolveStep (idealSlots p.plan.toCompiledPlan V) p i binding source arg left
      m).events = ([] : List MemoryEvent).map .memory ++ (m.record _).events :=
    resolveStep_events ..
  apply hrecord.congr hevents
  · exact fun j _ => (resolveStep_live p i binding source arg left m j).mpr
  · intro q _
    rw [resolveStep_stage]
    exact id

theorem Furnished.writeBack (h : Furnished p.plan staged live m) (written : Option V) :
    Furnished p.plan staged live
      (writeBack (idealSlots p.plan.toCompiledPlan V) p i written m) := by
  have hevents : (YOrch.writeBack (idealSlots p.plan.toCompiledPlan V) p i written m).events
      = ([] : List MemoryEvent).map .memory ++ m.events :=
    writeBack_events ..
  apply h.congr hevents
  · exact fun j _ => (writeBack_live p i written m j).mpr
  · intro q _
    rw [writeBack_stage]
    exact id

theorem Furnished.emplaceSink (h : Furnished p.plan staged live m) (hi : i ∉ live)
    (payload : Option V) : Furnished p.plan staged live
      (emplaceSink (idealSlots p.plan.toCompiledPlan V) i payload m) := by
  cases payload with
  | none => exact h
  | some v => exact h.onSlots hi idealEmplace_other

/-- **The objects on the path while node `i` is entered.** -/
theorem furnished_triple (hi : i < p.plan.nodeCount) :
    EnterTriple (idealSlots p.plan.toCompiledPlan V) p i
      (fun s => Furnished p.plan (p.plan.path i).tail (p.plan.path i).tail s.1)
      (fun s => Furnished p.plan (p.plan.path i).tail (p.plan.path i) s.1)
      (fun s => Furnished p.plan (p.plan.path i).tail (p.plan.path i).tail s.1)
      (fun _ s => Furnished p.plan (p.plan.path i).tail (p.plan.path i).tail s.1)
      (fun s => LiveTrue p.plan s.1.events) where
  world _ _ _ hs := hs
  halts _ _ hs := hs.log
  violate _ violation _ _ hs := hs.log.cons (by nofun) (by nofun)
  attempt s hs := hs.record (by nofun) (by nofun)
  abandon _ _ hs := hs
  skip _ _ _ _ hs := hs
  resolve binding _ s source v arg left w _ hs _ _ _ := hs.resolveStep binding source arg left
  write written s _ hs := hs.writeBack written
  sink _ _ _ _ hs := hs
  sinkHasValue _ _ hs := hs
  sinkEmplace payload next s hs := by
    have hmem := Agree.not_mem_tail hi
    have hviolate : Furnished p.plan (p.plan.path i).tail (p.plan.path i).tail
        (s.1.violate (.emplaceOverLive i)) := hs.record (by nofun) (by nofun)
    exact ⟨fun _ => hs.emplaceSink hmem payload,
      fun _ => ⟨hviolate.emplaceSink hmem payload, hviolate.log⟩⟩
  sinkDestroy next s hs := hs.onSlots (Agree.not_mem_tail hi) idealDestroy_other
  sinkFinish exit written world s hs := hs.writeBack written
  again s _ _ hs := hs
  cleanUp s _ _ hs := by
    show Furnished p.plan _ _ (cleanUpSink (idealSlots p.plan.toCompiledPlan V) i s.1)
    unfold cleanUpSink
    split
    · exact hs.onSlots (Agree.not_mem_tail hi) idealDestroy_other
    · exact hs
  -- the parent is on the path, so what `i` reads is there
  enter s hs := by
    refine ⟨hs.log.cons (by nofun) ?_, fun hfull => hs.slot hfull.tail,
      fun hfull => hs.stage hfull.tail⟩
    intro j prev heq hfull hsource
    obtain ⟨rfl, rfl⟩ := Event.entered.inj heq
    exact hs.read hi hfull hsource
  finish s hinto hs hlive := by
    rw [idealSlots_hasValue hi (ValidPlan.payloadNode_of_direct hinto)] at hlive
    exact hs.finish hi fun _ _ => Option.isSome_iff_ne_none.mp hlive
  -- after a missing output nothing is promised of the slots
  finishMissing s _ hs _ := by
    have hviolate : Furnished p.plan (p.plan.path i).tail (p.plan.path i).tail
        (s.1.violate (.missingOutput i)) := hs.record (by nofun) (by nofun)
    exact hviolate.finish hi fun hfull => absurd List.mem_cons_self (hfull i)
  failInto s hinto hs := by
    show Furnished p.plan _ _ (s.1.onSlots ((idealSlots p.plan.toCompiledPlan V).destroy i))
    rw [idealSlots_onDestroy hi (ValidPlan.payloadNode_of_direct hinto)]
    exact hs.onSlots (Agree.not_mem_tail hi) idealDestroy_other
  store v s _ _ hs := by
    have hstored := hs.onSlots (Agree.not_mem_tail hi) (idealEmplace_other (v := v))
    apply hstored.finish hi
    intro _ _
    show Function.update s.1.slots i (some v) i ≠ none
    rw [Function.update_self]
    exact Option.some_ne_none v
  pass s _ hpayload hs := hs.finish hi fun _ h => absurd h (by simp [hpayload])
  fail s _ hs := hs

/-! ## §4. Whole runs. -/

/-- **The objects on the path during a traversal.** -/
theorem furnished_run (p : Program V W) (fuel : Nat) :
    RunTriple p.plan.toPlanShape p.plan.payloadNode
      (nodeOps (idealSlots p.plan.toCompiledPlan V) p fuel)
      (fun P _ s => Furnished p.plan P P s.1) (fun P _ s => Furnished p.plan P.tail P s.1)
      (fun s => LiveTrue p.plan s.1.events) (fun s => LiveTrue p.plan s.1.events) where
  enter i hi := (furnished_triple hi).enterNode hi fuel
  stage i hi hstaging := stageFanout_triple (fun _ _ hs => hs)
    (fun _ hs => hs.log.cons (by nofun) (by nofun)) (by
    intro s v w v' hs _ _
    have hevents : (s.1.emplaceStage i v').events
        = ([.constructed (.stage i) ((s.1.stage i).map fun _ => .stage i)] : List MemoryEvent).map
          .memory ++ s.1.events := rfl
    have hstage : (s.1.emplaceStage i v').stage = Function.update s.1.stage i (some v') := rfl
    have htail : Furnished p.plan (p.plan.path i).tail (p.plan.path i) (s.1.emplaceStage i v') := by
      apply hs.congr hevents (fun _ _ => id)
      intro q hq hne
      rwa [hstage, Function.update_of_ne fun hqi : q = i => Agree.not_mem_tail hi (hqi ▸ hq)]
    refine ⟨htail.log, htail.slot, fun hfull q hq hstaging' => ?_⟩
    by_cases hqi : q = i
    · -- the copy just emplaced
      rw [hqi]
      show (s.1.emplaceStage i v').stage i ≠ none
      rw [hstage, Function.update_self]
      exact Option.some_ne_none v'
    · exact htail.stage hfull q (ValidPlan.mem_tail_path hq hqi) hstaging')
  unstaged i hi hstaging n s := by
    constructor
    · -- without a staged copy of its own, node `i` adds nothing to what is asked
      intro hs
      refine ⟨hs.log, hs.slot, fun hfull q hq hstaging' => ?_⟩
      exact hs.stage hfull q (ValidPlan.mem_tail_of_staging hstaging hq hstaging') hstaging'
    · exact fun hs => hs.weaken (Agree.tail_subset _ i) (List.Subset.refl _)
  unstage i hi _ n s hs := by
    have htail := hs.weaken (Agree.tail_subset _ i) (List.Subset.refl _)
    show Furnished p.plan _ _ (s.1.destroyStage i)
    obtain ⟨log, hevents, -⟩ := s.1.destroyStage_memory i
    apply htail.congr hevents
    · intro j _
      rw [Machine.destroyStage_slots]
      exact id
    · intro q hq hne
      rwa [Machine.destroyStage_stage,
        Function.update_of_ne fun hqi : q = i => Agree.not_mem_tail hi (hqi ▸ hq)]
  destroy i hi hpayload n s hs := by
    show Furnished p.plan _ _ (s.1.onSlots ((idealSlots p.plan.toCompiledPlan V).destroy i))
    rw [idealSlots_onDestroy hi hpayload]
    exact (hs.weaken (List.Subset.refl _) (Agree.tail_subset _ i)).onSlots (Agree.not_mem_tail hi)
      idealDestroy_other
  leave i hi _ n s hs := hs.weaken (List.Subset.refl _) (Agree.tail_subset _ i)
  later _ _ _ _ _ hs := hs
  laterEntered _ _ _ _ _ hs := hs
  abandon _ _ _ hs := hs.log
  abandonEntered _ _ _ hs := hs.log

theorem ideal_liveTrue (p : Program V W) (exec : ExecPolicy) (fuel : Nat) (w : W) :
    LiveTrue p.plan (runFrom (idealSlots p.plan.toCompiledPlan V) p exec fuel w).2.1.events := by
  have hstart : Furnished p.plan [] [] ({ slots := fun _ => none } : Machine (Nat → Option V) V) :=
    ⟨.nil _, fun _ _ h => absurd h List.not_mem_nil, fun _ _ h => absurd h List.not_mem_nil⟩
  exact (furnished_run p fuel).log (fun _ hs => hs.log) (fun log _ hs => hs.memory log) exec hstart

/-- A node that is entered with success records what its canonical slot holds. -/
theorem finished_triple {api : SlotsApi V S} (i : Nat) :
    EnterTriple api p i (fun _ => True)
      (fun s => ∃ before, s.1.events = .finished i (nodeOutput api p i s.1) :: before)
      (fun _ => True) (fun _ _ => True) (fun _ => True) where
  world _ _ _ _ := trivial
  halts _ _ _ := trivial
  violate _ _ _ _ _ := trivial
  attempt _ _ := trivial
  abandon _ _ _ := trivial
  skip _ _ _ _ _ := trivial
  resolve _ _ _ _ _ _ _ _ _ _ _ _ _ := trivial
  write _ _ _ _ := trivial
  sink _ _ _ _ _ := trivial
  sinkHasValue _ _ _ := trivial
  sinkEmplace _ _ _ _ := ⟨fun _ => trivial, fun _ => ⟨trivial, trivial⟩⟩
  sinkDestroy _ _ _ := trivial
  sinkFinish _ _ _ _ _ := trivial
  again _ _ _ _ := trivial
  cleanUp _ _ _ _ := trivial
  enter _ _ := trivial
  finish s _ _ _ := ⟨s.1.events, rfl⟩
  finishMissing s _ _ _ := ⟨(s.1.violate (.missingOutput i)).events, rfl⟩
  failInto _ _ _ := trivial
  store v s _ _ _ := ⟨(s.1.onSlots (api.emplace i v)).events, rfl⟩
  pass s _ _ _ := ⟨s.1.events, rfl⟩
  fail _ _ _ := trivial

end Node

/-- **Payloads are live until a success without one.**  Under either layout and
either executor:

  • if `enter_node` says that node `i`'s payload is live, then the node has a
    payload, and what its slot holds is recorded as the node finishes,
  • in every run, up to the first success of a direct-output task whose slot is
    empty, every node with a payload finishes with one in its slot, and every
    prev view is bound to an object. -/
theorem liveTrue_until_empty (p : Program V W) (layout : SlotLayoutPolicy) (exec : ExecPolicy)
    (fuel : Nat) (w : W) :
    let api : SlotsApi V (layout.State V) := layout.slots p.plan.toCompiledPlan
    let run := runFrom api p exec fuel w
    (∀ i < p.plan.nodeCount, ∀ s entered s', enterNode api p fuel i s = (.ret entered, s') →
        entered.payloadLive = true →
          p.plan.payloadNode i
            ∧ ∃ before, s'.1.events = .finished i (nodeOutput api p i s'.1) :: before)
      ∧ LiveTrue p.plan run.2.1.events := by
  intro api run
  constructor
  · intro i hi s entered s' henter hlive
    have hrecorded : EnterTriple api p i _ _ _ _ _ := finished_triple i
    have hends := (hrecorded.enterNode hi fuel).ends (s := s) trivial
    rw [henter] at hends
    change if entered.step.ok = true then _ else _ at hends
    split at hends
    · exact ⟨hends.1.symm.trans hlive, hends.2⟩
    · next hok => exact absurd (entered.live_ok hlive) hok
  · obtain ⟨-, -, hevents, -⟩ := run_agrees (layout.refines p.plan) exec fuel w
    show LiveTrue p.plan (runFrom api p exec fuel w).2.1.events
    rw [hevents]
    exact ideal_liveTrue p exec fuel w

/-! ## §5. A success without a payload. -/

/-- A direct-output root and a child that borrows its payload. -/
def emptyTask : Nat → Task
  | 0 => .base (.boundOutputTask (.object 0) (.function [.directOut (.object 0)] .stepResult) [])
  | _ => .base (.boundTask (.function [.lvalueRef (.cv .const (.object 0))] .void)
      [.borrowPrev (.object 0)])

def emptyPlan : ValidPlan where
  levels := [0, 1]
  nonempty := by decide
  accepted := by decide
  task := emptyTask
  fanoutPolicy := fun _ => .auto
  bound := by decide
  runnable := by decide
  slotsFormed := by decide

/-- The root returns success and never calls `emplace`. -/
def emptyProgram : Program Nat Nat where
  plan := emptyPlan
  behaviour
    | 0 => {
        evaluated := (emptyTask 0).bound.bindings
        evaluated_perm := List.Perm.refl _
        argument := fun _ w => (true, w)
        body := fun _ w => ((.ret StepResult.success, none), w)
        sinkBody := fun _ w => .finish (.ret .success) none w
        policies := ()
        policiesInto := () }
    | _ + 1 => {
        evaluated := [(.borrowPrev (.object 0), .lvalueRef (.cv .const (.object 0)))]
        evaluated_perm := List.Perm.refl _
        argument := fun _ w => (true, w)
        body := fun _ w => ((.ret (), none), w)
        sinkBody := fun _ w => .finish (.ret .success) none w
        policies := ()
        policiesInto := () }
  copy w v := (some v, w)
  move w v := (some v, v, w)
  asserts := false

/-- The root is said to have a payload though its slot is empty, and the child is
entered with a prev view of that slot. -/
theorem empty_success_descends :
    let api := SlotLayoutPolicy.slots emptyPlan.toCompiledPlan .oneToOne
    let run := runFrom api emptyProgram .serialDfsExplicitHeapStack 1 0
    let entry := enterNode api emptyProgram 1 0 ({ slots := api.initial }, 0)
    (entry.1 = .ret (.succeeded true) ∧ api.hasValue 0 entry.2.1.slots = false)
      ∧ emptyPlan.prevSource 1 = some (.slot 0) ∧ .entered 1 none ∈ run.2.1.events := by
  decide +kernel

end YOrch
