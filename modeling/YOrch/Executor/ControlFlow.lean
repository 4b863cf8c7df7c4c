/-
  YOrch.Executor.ControlFlow — which nodes a program's run enters, and why.

  `Visits` speaks of node operations that always return and record a status.  A
  program's nodes may throw and halt, and its log holds no statuses: it shows
  which nodes were entered and which of them finished.  These events alone, the
  control trace, follow the tree:

    • `control_triple` — entering a node adds its entry, and its success,
    • `ordered_run` — in every run the nodes come in order, each below one that
      has finished,
    • `dfsNode_control`, `dfsChildren_control` — the trace of a traversal that
      returns is that of the statuses of a traversal,
    • `run_control_flow` — whole runs.
-/
import YOrch.Executor.Backends

namespace YOrch

open Library

variable {V W S : Type}

/-! ## §1. Control traces. -/

/-- The entry of a node, or its success. -/
def Event.control : Event V → Option (Nat × Bool)
  | .entered node _ => some (node, false)
  | .finished node _ => some (node, true)
  | .attempted _ _ | .resolved .. | .memory _ | .violated _ => none

/-- The entries and the successes in a log, the latest first. -/
def controlTrace (events : List (Event V)) : List (Nat × Bool) := events.filterMap Event.control

@[simp] theorem controlTrace_memory (log : List MemoryEvent) (events : List (Event V)) :
    controlTrace (log.map .memory ++ events) = controlTrace events := by
  induction log with
  | nil => rfl
  | cons e log ih => exact ih

@[simp] theorem controlTrace_onSlots (m : Machine S V) (op : S → List MemoryEvent × S) :
    controlTrace (m.onSlots op).events = controlTrace m.events := by
  rw [Machine.onSlots_events, controlTrace_memory]

theorem mem_controlTrace_finished {events : List (Event V)} {i : Nat} :
    (i, true) ∈ controlTrace events ↔ ∃ v, .finished i v ∈ events := by
  constructor
  · intro h
    obtain ⟨event, hmem, hcontrol⟩ := List.mem_filterMap.mp h
    cases event with
    | entered node prev => exact absurd (congrArg Prod.snd (Option.some.inj hcontrol)) (by simp)
    | finished node payload =>
        obtain rfl : node = i := congrArg Prod.fst (Option.some.inj hcontrol)
        exact ⟨payload, hmem⟩
    | attempted _ _ | resolved | memory _ | violated _ => cases hcontrol
  · rintro ⟨v, hmem⟩
    exact List.mem_filterMap.mpr ⟨_, hmem, rfl⟩

/-- What is left in the trace by a node that is entered with status `step`. -/
def statusTrace (e : Nat × StepResult) : List (Nat × Bool) :=
  if e.2.ok then [(e.1, true), (e.1, false)] else [(e.1, false)]

/-- The trace of the entries `E`. -/
def visitTrace (E : List (Nat × StepResult)) : List (Nat × Bool) := E.reverse.flatMap statusTrace

@[simp] theorem visitTrace_append (E E' : List (Nat × StepResult)) :
    visitTrace (E ++ E') = visitTrace E' ++ visitTrace E := by
  rw [visitTrace, List.reverse_append, List.flatMap_append]
  rfl

theorem visitTrace_cons (e : Nat × StepResult) (E : List (Nat × StepResult)) :
    visitTrace (e :: E) = visitTrace E ++ statusTrace e := by
  rw [← List.singleton_append, visitTrace_append]
  simp [visitTrace]

theorem mem_visitTrace_entered {E : List (Nat × StepResult)} {i : Nat} :
    (i, false) ∈ visitTrace E ↔ i ∈ E.map Prod.fst := by
  rw [visitTrace, List.mem_flatMap, List.mem_map]
  constructor
  · rintro ⟨e, hmem, he⟩
    refine ⟨e, List.mem_reverse.mp hmem, ?_⟩
    unfold statusTrace at he
    split at he <;> simp_all
  · rintro ⟨e, hmem, rfl⟩
    refine ⟨e, List.mem_reverse.mpr hmem, ?_⟩
    unfold statusTrace
    split <;> simp

theorem mem_visitTrace_finished {E : List (Nat × StepResult)} {i : Nat} :
    (i, true) ∈ visitTrace E ↔ (i, .success) ∈ E := by
  rw [visitTrace, List.mem_flatMap]
  constructor
  · rintro ⟨⟨j, step⟩, hmem, hj⟩
    unfold statusTrace at hj
    dsimp only at hj
    split at hj
    · next hok =>
        obtain rfl := StepResult.ok_iff.mp hok
        obtain rfl : i = j := by simpa using hj
        exact List.mem_reverse.mp hmem
    · simp at hj
  · intro hmem
    exact ⟨(i, .success), List.mem_reverse.mpr hmem, List.mem_cons_self⟩

/-! ## §2. One node. -/

section Node

variable {api : SlotsApi V S} {p : Program V W} {i : Nat}

/-- **The trace while node `i` is entered.** -/
theorem control_triple (i : Nat) (T : List (Nat × Bool)) : EnterTriple api p i
    (fun s => controlTrace s.1.events = T)
    (fun s => controlTrace s.1.events = (i, true) :: (i, false) :: T)
    (fun s => controlTrace s.1.events = (i, false) :: T)
    (fun _ s => controlTrace s.1.events = (i, false) :: T)
    (fun s => controlTrace s.1.events = (i, false) :: T) where
  world _ _ _ hs := hs
  halts _ _ hs := hs
  violate _ _ _ _ hs := hs
  attempt _ hs := hs
  abandon _ _ hs := hs
  skip _ _ _ _ hs := hs
  resolve binding rest s source v arg left w _ hs _ _ _ := by
    rw [resolveStep_events]
    exact hs
  write written s _ hs := by
    rw [writeBack_events]
    exact hs
  sink _ _ _ _ hs := hs
  sinkHasValue _ _ hs := hs
  sinkEmplace payload next s hs := by
    have hemplace : ∀ m : Machine S V,
        controlTrace (emplaceSink api i payload m).events = controlTrace m.events := by
      intro m
      cases payload with
      | none => rfl
      | some v => exact controlTrace_onSlots m _
    exact ⟨fun _ => (hemplace s.1).trans hs, fun _ => ⟨(hemplace _).trans hs, hs⟩⟩
  sinkDestroy next s hs := (controlTrace_onSlots s.1 _).trans hs
  sinkFinish exit written world s hs := by
    rw [writeBack_events]
    exact hs
  again _ _ _ hs := hs
  cleanUp s _ _ hs := by
    unfold cleanUpSink
    split
    · exact (controlTrace_onSlots s.1 _).trans hs
    · exact hs
  enter s hs := congrArg ((i, false) :: ·) hs
  finish s _ hs _ := congrArg ((i, true) :: ·) hs
  finishMissing s _ hs _ := congrArg ((i, true) :: ·) hs
  failInto s _ hs := (controlTrace_onSlots s.1 _).trans hs
  store v s _ _ hs := congrArg ((i, true) :: ·) ((controlTrace_onSlots s.1 _).trans hs)
  pass s _ _ hs := congrArg ((i, true) :: ·) hs
  fail s _ hs := hs

/-- Staging a fanout adds nothing. -/
theorem stageFanout_control (i : Nat) (T : List (Nat × Bool)) :
    Exec.Triple (fun s : Machine S V × W => controlTrace s.1.events = T) (stageFanout api p i)
      (fun _ s => controlTrace s.1.events = T) (fun s => controlTrace s.1.events = T)
      (fun s => controlTrace s.1.events = T) :=
  stageFanout_triple (fun _ _ hs => hs) (fun _ hs => hs) fun _ _ _ _ hs _ _ => hs

theorem destroyStage_control (m : Machine S V) (q : Nat) :
    controlTrace (m.destroyStage q).events = controlTrace m.events := by
  obtain ⟨log, hevents, -⟩ := m.destroyStage_memory q
  rw [hevents, controlTrace_memory]

end Node

/-! ## §3. The order of nodes. -/

/-- Nodes are entered in increasing order, all but the root after their parents
have finished, and a node finishes before anything else is entered. -/
structure Ordered (plan : PlanShape) (trace : List (Nat × Bool)) : Prop where
  entered : ∀ i before, (i, false) :: before <:+ trace →
    (i = 0 ∨ (plan.parentIndex i, true) ∈ before) ∧ ∀ e ∈ before, e.1 < i
  finished : ∀ i before, (i, true) :: before <:+ trace → ∃ rest, before = (i, false) :: rest

namespace Ordered

variable {plan : PlanShape} {trace : List (Nat × Bool)} {i : Nat}

theorem nil : Ordered plan [] where
  entered _ _ h := by simp at h
  finished _ _ h := by simp at h

/-- Another node. -/
theorem enter (h : Ordered plan trace) (hparent : i = 0 ∨ (plan.parentIndex i, true) ∈ trace)
    (hlater : ∀ e ∈ trace, e.1 < i) : Ordered plan ((i, false) :: trace) where
  entered j before hsuffix := by
    rcases List.suffix_cons_iff.mp hsuffix with heq | hsuffix
    · obtain ⟨hj, rfl⟩ := List.cons.inj heq
      obtain rfl : j = i := congrArg Prod.fst hj
      exact ⟨hparent, hlater⟩
    · exact h.entered j before hsuffix
  finished j before hsuffix := by
    rcases List.suffix_cons_iff.mp hsuffix with heq | hsuffix
    · exact absurd (congrArg Prod.snd (List.cons.inj heq).1) (by simp)
    · exact h.finished j before hsuffix

/-- The last node entered finishes. -/
theorem finish (h : Ordered plan ((i, false) :: trace)) :
    Ordered plan ((i, true) :: (i, false) :: trace) where
  entered j before hsuffix := by
    rcases List.suffix_cons_iff.mp hsuffix with heq | hsuffix
    · exact absurd (congrArg Prod.snd (List.cons.inj heq).1) (by simp)
    · exact h.entered j before hsuffix
  finished j before hsuffix := by
    rcases List.suffix_cons_iff.mp hsuffix with heq | hsuffix
    · obtain ⟨hj, rfl⟩ := List.cons.inj heq
      obtain rfl : j = i := congrArg Prod.fst hj
      exact ⟨trace, rfl⟩
    · exact h.finished j before hsuffix

end Ordered

/-- The nodes of the path have finished, and those entered are below `n`. -/
structure InOrder (plan : PlanShape) (P : List Nat) (n : Nat) (trace : List (Nat × Bool)) :
    Prop where
  ordered : Ordered plan trace
  bound : ∀ e ∈ trace, e.1 < n
  path : ∀ q ∈ P, (q, true) ∈ trace

namespace InOrder

variable {plan : PlanShape} {P P' : List Nat} {n n' i : Nat} {trace : List (Nat × Bool)}

theorem weaken (h : InOrder plan P n trace) (hP : P' ⊆ P) (hn : n ≤ n') :
    InOrder plan P' n' trace where
  ordered := h.ordered
  bound e he := Nat.lt_of_lt_of_le (h.bound e he) hn
  path q hq := h.path q (hP hq)

/-- Node `i` is entered. -/
theorem enter (h : InOrder plan (plan.path i).tail i trace) (hi : i < plan.nodeCount) :
    InOrder plan (plan.path i).tail (i + 1) ((i, false) :: trace) where
  ordered := by
    apply h.ordered.enter _ h.bound
    rcases Nat.eq_zero_or_pos i with hzero | hpos
    · exact Or.inl hzero
    · refine Or.inr (h.path _ ?_)
      rw [plan.path_of_pos hpos hi]
      exact plan.self_mem_path _
  bound e he := by
    rcases List.mem_cons.mp he with rfl | he
    · exact Nat.lt_succ_self i
    · exact Nat.lt_succ_of_lt (h.bound e he)
  path q hq := List.mem_cons_of_mem _ (h.path q hq)

/-- Node `i` finishes. -/
theorem finish (h : InOrder plan (plan.path i).tail (i + 1) ((i, false) :: trace)) :
    InOrder plan (plan.path i) (i + 1) ((i, true) :: (i, false) :: trace) where
  ordered := h.ordered.finish
  bound e he := by
    rcases List.mem_cons.mp he with rfl | he
    · exact Nat.lt_succ_self i
    · exact h.bound e he
  path q hq := by
    rw [ValidPlan.path_cons plan i] at hq
    rcases List.mem_cons.mp hq with rfl | hq
    · exact List.mem_cons_self
    · exact List.mem_cons_of_mem _ (h.path q hq)

end InOrder

/-- **The order of nodes during a traversal.** -/
theorem ordered_run (api : SlotsApi V S) (p : Program V W) (fuel : Nat) :
    RunTriple p.plan.toPlanShape p.plan.payloadNode (nodeOps api p fuel)
      (fun P n s => InOrder p.plan.toPlanShape P n (controlTrace s.1.events))
      (fun P n s => InOrder p.plan.toPlanShape P n (controlTrace s.1.events))
      (fun s => Ordered p.plan.toPlanShape (controlTrace s.1.events))
      (fun s => Ordered p.plan.toPlanShape (controlTrace s.1.events)) where
  enter i hi := by
    apply Exec.Triple.of_ends
    intro s hs
    have hcontrol : EnterTriple api p i _ _ _ _ _ := control_triple i (controlTrace s.1.events)
    have hentered := hs.enter hi
    refine ((hcontrol.enterNode hi fuel).conseq (fun t (ht : t = s) => ?_) ?_ ?_ ?_).ends rfl
    · rw [ht]
    · intro entered t ht
      split at ht
      · next hok =>
          rw [if_pos hok]
          refine ⟨ht.1, ?_⟩
          rw [ht.2]
          exact hentered.finish
      · next hok =>
          rw [if_neg hok, ht]
          exact hentered
    · intro t ht
      rw [ht]
      exact hentered
    · intro t ht
      rw [ht]
      exact hentered.ordered
  stage i hi _ := stageFanout_triple (fun _ _ hs => hs) (fun _ hs => hs.ordered)
    fun _ _ _ _ hs _ _ => hs
  unstaged _ _ _ _ _ := Iff.rfl
  unstage i _ _ n s hs := by
    show InOrder _ _ _ (controlTrace (s.1.destroyStage i).events)
    rw [destroyStage_control]
    exact hs
  destroy i _ _ n s hs := by
    show InOrder _ _ _ (controlTrace (s.1.onSlots (api.destroy i)).events)
    rw [controlTrace_onSlots]
    exact hs.weaken (Agree.tail_subset _ i) (Nat.le_refl n)
  leave i _ _ n s hs := hs.weaken (Agree.tail_subset _ i) (Nat.le_refl n)
  later _ _ _ _ hnm hs := hs.weaken (List.Subset.refl _) hnm
  laterEntered _ _ _ _ hnm hs := hs.weaken (List.Subset.refl _) hnm
  abandon _ _ _ hs := hs.ordered
  abandonEntered _ _ _ hs := hs.ordered

/-! ## §4. The statuses behind a trace. -/

section Traversal

variable (api : SlotsApi V S) (p : Program V W) (fuel : Nat) (unwind : Bool)

/-- The trace of a computation that returns is extended by that of entries it
has to make. -/
def Traces (x : Exec (Machine S V × W) StepResult)
    (Entries : List (Nat × StepResult) → StepResult → Prop) : Prop :=
  ∀ T, Exec.Triple (fun s => controlTrace s.1.events = T) x
    (fun r s => ∃ E, controlTrace s.1.events = visitTrace E ++ T ∧ Entries E r)
    (fun _ => True) (fun _ => True)

/-- Visiting a node. -/
theorem dfsNode_control {i : Nat} (hi : i < p.plan.nodeCount)
    {children : Exec (Machine S V × W) StepResult}
    {Below : List (Nat × StepResult) → StepResult → Prop} (hbelow : Traces children Below) :
    Traces (dfsNode unwind (nodeOps api p fuel) i children) fun E r => ∃ step E',
      E = (i, step) :: E' ∧ if step.ok then Below E' r else E' = [] ∧ r = step := by
  intro T
  have hcontrol : EnterTriple api p i _ _ _ _ _ := control_triple i T
  unfold dfsNode
  apply ((hcontrol.enterNode hi fuel).conseq (fun _ => id) (fun _ _ => id) (fun _ _ => trivial)
    fun _ _ => trivial).bind
  intro entered
  cases hok : entered.step.ok with
  | false =>
      simp only [Bool.false_eq_true, if_false]
      refine .pure fun s hs => ⟨[(i, entered.step)], ?_, entered.step, [], rfl, ?_⟩
      · rw [hs, visitTrace_cons, statusTrace, if_neg (by simp [hok])]
        rfl
      · rw [if_neg (by simp [hok])]
        exact ⟨rfl, rfl⟩
  | true =>
      simp only [if_true]
      -- neither the stage nor the cleanups show in the trace
      have hstage : Exec.Triple
          (fun s => entered.payloadLive = p.plan.payloadNode i
            ∧ controlTrace s.1.events = (i, true) :: (i, false) :: T)
          ((nodeOps api p fuel).prepareFanoutStaging i)
          (fun _ s => controlTrace s.1.events = (i, true) :: (i, false) :: T) (fun _ => True)
          (fun _ => True) := by
        unfold DfsOps.prepareFanoutStaging
        split
        · exact (stageFanout_control i _).conseq (fun _ hs => hs.2) (fun _ _ => id)
            (fun _ _ => trivial) fun _ _ => trivial
        · exact .pure fun _ hs => hs.2
      have hscope : Exec.Triple (fun s => controlTrace s.1.events = (i, true) :: (i, false) :: T)
          (Exec.onExit unwind ((nodeOps api p fuel).destroyFanoutStaging i) children)
          (fun r s => ∃ E, controlTrace s.1.events
            = visitTrace E ++ (i, true) :: (i, false) :: T ∧ Below E r) (fun _ => True)
          (fun _ => True) := by
        apply (hbelow ((i, true) :: (i, false) :: T)).onExit
        · rintro r s ⟨E, hE, hr⟩
          refine ⟨E, ?_, hr⟩
          unfold DfsOps.destroyFanoutStaging
          cases (nodeOps api p fuel).requiresStaging i with
          | true => exact (destroyStage_control s.1 i).trans hE
          | false => exact hE
        · exact fun _ _ => trivial
      apply (hstage.bind fun _ => hscope).onExit
      · rintro r s ⟨E, hE, hr⟩
        refine ⟨(i, entered.step) :: E, ?_, entered.step, E, rfl, ?_⟩
        · rw [visitTrace_cons, statusTrace, if_pos hok, List.append_assoc]
          cases entered.payloadLive with
          | true => exact (controlTrace_onSlots s.1 _).trans hE
          | false => exact hE
        · rw [if_pos hok]
          exact hr
      · exact fun _ _ => trivial

/-- **The trees below a node.**  The induction is on the forest; a status that
stops the traversal leaves out the later siblings. -/
theorem dfsChildren_control : ∀ f : Forest Nat, (∀ i ∈ f.preorder, i < p.plan.nodeCount) →
    Traces (dfsChildren unwind (nodeOps api p fuel) f) (Visits f)
  | .nil, _ => fun T => .pure fun s hs => ⟨[], hs, rfl, rfl⟩
  | .cons i below rest, hmem => by
      rw [Forest.preorder_cons] at hmem
      have hbelow := dfsChildren_control below fun j hj =>
        hmem j (List.mem_cons_of_mem _ (List.mem_append_left _ hj))
      have hrest := dfsChildren_control rest fun j hj =>
        hmem j (List.mem_cons_of_mem _ (List.mem_append_right _ hj))
      intro T
      apply (dfsNode_control api p fuel unwind (hmem i List.mem_cons_self) hbelow T).bind
      intro r₁
      apply Exec.Triple.exists_pre
      intro E₁
      by_cases hstop : r₁.Stops
      · rw [if_pos hstop]
        refine .pure fun s hs => ?_
        obtain ⟨hE₁, step, E, rfl, hr₁⟩ := hs
        refine ⟨(i, step) :: E, hE₁, step, E, r₁, [], by rw [List.append_nil], hr₁, ?_⟩
        rw [if_pos hstop]
        exact ⟨rfl, rfl⟩
      · rw [if_neg hstop]
        apply Exec.Triple.given
        rintro ⟨step, E, rfl, hr₁⟩
        apply (hrest _).post
        rintro r s ⟨E₂, hE₂, hr⟩
        refine ⟨(i, step) :: (E ++ E₂), ?_, step, E, r₁, E₂, rfl, hr₁, ?_⟩
        · rw [hE₂, ← List.cons_append, visitTrace_append, List.append_assoc]
        · rwa [if_neg hstop]

end Traversal

/-! ## §5. Whole runs. -/

/-- How a run of a plan goes that enters nodes with the statuses `E` and ends
with `r`. -/
structure PlanShape.Course (plan : PlanShape) (E : List (Nat × StepResult)) (r : StepResult) :
    Prop where
  root : 0 ∈ E.map Prod.fst
  increasing : (E.map Prod.fst).Pairwise (· < ·)
  bound : ∀ e ∈ E, e.1 < plan.nodeCount
  /-- A node is entered exactly if its parent succeeded and nothing has stopped the run. -/
  entered : ∀ c, 0 < c → c < plan.nodeCount →
    (c ∈ E.map Prod.fst ↔
      (plan.parentIndex c, .success) ∈ E
        ∧ ∀ e ∈ E, e.1 < c → e.2 = .success ∨ e.2 = .abortBranch)
  /-- The result is a status that stopped the run, or the root's, or success. -/
  result : (r ≠ .success ∧ E = [(0, r)])
    ∨ (0, .success) ∈ E
      ∧ ((r = .success ∧ ∀ e ∈ E, e.2 = .success ∨ e.2 = .abortBranch)
        ∨ ((r = .failure ∨ r = .retry ∨ r = .abortExecution) ∧ ∃ E' i, E = E' ++ [(i, r)]
          ∧ ∀ e ∈ E', e.2 = .success ∨ e.2 = .abortBranch))

/-- The entries of a traversal from the root are such a run. -/
theorem PlanShape.course_of_visits (plan : PlanShape) {rootStep r : StepResult}
    {E : List (Nat × StepResult)}
    (h : if rootStep.ok then Visits plan.below E r else E = [] ∧ r = rootStep) :
    plan.Course ((0, rootStep) :: E) r := by
  obtain ⟨hsorted, hpos, hmem⟩ := plan.below_preorder
  have hsub : (E.map Prod.fst).Sublist plan.below.preorder := by
    split at h
    · exact h.sublist
    · rw [h.1]
      exact List.nil_sublist _
  refine ⟨List.mem_cons_self, ?_, ?_, plan.enters_iff h, ?_⟩
  · rw [List.map_cons, List.pairwise_cons]
    exact ⟨fun x hx => hpos x (hsub.subset hx), hsorted.sublist hsub⟩
  · intro e he
    rcases List.mem_cons.mp he with rfl | he
    · exact plan.nodeCount_pos
    · exact ((hmem _).mp (hsub.subset (List.mem_map_of_mem he))).2
  · split at h
    · next hok =>
        obtain rfl := StepResult.ok_iff.mp hok
        refine Or.inr ⟨List.mem_cons_self, ?_⟩
        simp only [← StepResult.not_stops_iff, ← StepResult.stops_iff]
        have hroot : ¬ StepResult.success.Stops := by decide
        rcases h.result with ⟨rfl, hnone⟩ | ⟨hstop, E', i, rfl, hnone⟩
        · refine Or.inl ⟨rfl, fun e he => ?_⟩
          rcases List.mem_cons.mp he with rfl | he
          · exact hroot
          · exact hnone e he
        · refine Or.inr ⟨hstop, (0, .success) :: E', i, rfl, fun e he => ?_⟩
          rcases List.mem_cons.mp he with rfl | he
          · exact hroot
          · exact hnone e he
    · next hok =>
        obtain ⟨rfl, rfl⟩ := h
        exact Or.inl ⟨fun hsuccess => hok (StepResult.ok_iff.mpr hsuccess), rfl⟩

/-- If every node that is entered succeeds, every node is entered. -/
theorem PlanShape.Course.all_entered {plan : PlanShape} {E : List (Nat × StepResult)}
    {r : StepResult} (h : plan.Course E r) (hsuccess : ∀ e ∈ E, e.2 = .success) :
    r = .success ∧ E = (List.range plan.nodeCount).map fun i => (i, .success) := by
  have hentered : ∀ c < plan.nodeCount, c ∈ E.map Prod.fst := by
    intro c
    -- a node is entered because its parent is
    induction c using Nat.strong_induction_on with
    | _ c ih =>
        intro hc
        rcases Nat.eq_zero_or_pos c with rfl | hpos
        · exact h.root
        · have hlt := plan.parentIndex_lt hpos hc
          obtain ⟨⟨q, step⟩, hmem, hq⟩ := List.mem_map.mp (ih _ hlt (Nat.lt_trans hlt hc))
          refine (h.entered c hpos hc).mpr ⟨?_, fun e he _ => Or.inl (hsuccess e he)⟩
          rw [← hq, ← hsuccess _ hmem]
          exact hmem
  constructor
  · rcases h.result with ⟨hne, hE⟩ | ⟨-, ⟨hr, -⟩ | ⟨-, E', i, hE, -⟩⟩
    · exact absurd (hsuccess (0, r) (hE ▸ List.mem_cons_self)) hne
    · exact hr
    · exact hsuccess (i, r) (hE ▸ List.mem_append_right _ List.mem_cons_self)
  · have hnodes : E.map Prod.fst = List.range plan.nodeCount := by
      apply List.Perm.eq_of_pairwise' h.increasing List.pairwise_lt_range
      rw [List.perm_ext_iff_of_nodup (h.increasing.imp Nat.ne_of_lt) List.nodup_range]
      intro c
      rw [List.mem_range]
      constructor
      · intro hc
        obtain ⟨e, he, rfl⟩ := List.mem_map.mp hc
        exact h.bound e he
      · exact hentered c
    have hsteps : E.map id = E.map ((fun i => (i, StepResult.success)) ∘ Prod.fst) :=
      List.map_congr_left fun e he => Prod.ext rfl (hsuccess e he)
    rw [← hnodes, List.map_map, ← hsteps, List.map_id]

/-- The course of a run on any backend. -/
theorem runFrom_course (api : SlotsApi V S) (p : Program V W) (exec : ExecPolicy) (fuel : Nat)
    (w : W) :
    Exec.Ends (fun r s => ∃ E, controlTrace s.1.events = visitTrace E
      ∧ p.plan.toPlanShape.Course E r) (fun _ => True) (fun _ => True)
      (runFrom api p exec fuel w) := by
  have hbelow := dfsChildren_control api p fuel exec.unwinds p.plan.below fun j hj =>
    ((p.plan.below_preorder.2.2 j).mp hj).2
  have htraversal := dfsNode_control api p fuel exec.unwinds p.plan.nodeCount_pos hbelow []
  -- the destructors at the end add memory events only
  have hrun : Exec.Triple (fun s => controlTrace s.1.events = []) (runPlan api p exec fuel)
      (fun r s => ∃ E, controlTrace s.1.events = visitTrace E
        ∧ p.plan.toPlanShape.Course E r) (fun _ => True) (fun _ => True) := by
    rw [runPlan_eq]
    apply htraversal.onExit
    · rintro r s ⟨_, hE, rootStep, E, rfl, hvisits⟩
      refine ⟨_, ?_, p.plan.course_of_visits hvisits⟩
      obtain ⟨log, hevents⟩ := leaveRun_events api p s.1
      show controlTrace (leaveRun api p s.1).events = _
      rw [hevents, controlTrace_memory, hE, List.append_nil]
    · exact fun _ _ => trivial
  exact hrun.ends rfl

/-- **A program's run follows its tree.**  Under either layout and executor, and
however the run ends, nodes are entered in increasing order, all but the root
after their parents have finished, and each finishes before anything else is
entered.  A run that returns has entered nodes with statuses that say which: its
log shows exactly these entries and successes, a node is entered if and only if
its parent succeeded and no status before it stopped the run, and the result is
that of the node that stopped it. -/
theorem run_control_flow (p : Program V W) (layout : SlotLayoutPolicy) (exec : ExecPolicy)
    (fuel : Nat) (w : W) :
    let run := runFrom (layout.slots p.plan.toCompiledPlan) p exec fuel w
    Ordered p.plan.toPlanShape (controlTrace run.2.1.events)
      ∧ ∀ r, run.1 = .ret r → ∃ E, controlTrace run.2.1.events = visitTrace E
        ∧ p.plan.toPlanShape.Course E r := by
  intro run
  constructor
  · have hmemory : ∀ (log : List MemoryEvent) (events : List (Event V)),
        Ordered p.plan.toPlanShape (controlTrace events) →
        Ordered p.plan.toPlanShape (controlTrace (log.map .memory ++ events)) := by
      intro log events h
      rwa [controlTrace_memory]
    exact (ordered_run (layout.slots p.plan.toCompiledPlan) p fuel).log
      (fun _ hs => hs.ordered) hmemory exec
      ⟨.nil, fun _ h => absurd h List.not_mem_nil, fun _ h => absurd h List.not_mem_nil⟩
  · intro r hr
    have hcourse : Exec.Ends _ _ _ run :=
      runFrom_course (layout.slots p.plan.toCompiledPlan) p exec fuel w
    rw [show run = (.ret r, run.2) from Prod.ext hr rfl] at hcourse
    exact hcourse

end YOrch
