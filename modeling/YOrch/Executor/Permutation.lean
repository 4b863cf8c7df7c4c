/-
  YOrch.Executor.Permutation — two plans that differ below one node.

  `Permuted p p' q π` says that `p'` is `p` with its nodes renamed by `π`, which
  leaves `q` and everything before it in place: the trees below `q` come in
  another order.  The two runs do the same until one of them enters a node after
  `q`; by then `q` has finished, and what its children receive is what it
  finished with.

    • `SameNode.enterNode_eq` — a node both plans have is entered alike,
    • `dfsChildren_together` — the traversals do the same until they part,
    • `children_receive` — what a node's children receive, in a run and under
      every permutation of the trees below the node.
-/
import YOrch.Executor.Liveness
import YOrch.Executor.PrevAccess

namespace YOrch

open Library

variable {V W S : Type}

/-! ## §1. A node two programs have. -/

/-- Node `i`'s task and its behaviour. -/
def Program.nodeTask (p : Program V W) (i : Nat) : (task : Task) × TaskBehaviour V W task :=
  ⟨p.plan.task i, p.behaviour i⟩

/-- Two programs over one backend's slots do not differ at node `i`. -/
structure SameNode (api api' : SlotsApi V S) (p p' : Program V W) (i : Nat) : Prop where
  task : p'.nodeTask i = p.nodeTask i
  source : p'.plan.prevSource i = p.plan.prevSource i
  parentGet : ∀ o, p.plan.prevSource i = some (.slot o) →
    api'.get (p'.plan.parentIndex i) = api.get (p.plan.parentIndex i)
  parentSet : ∀ o, p.plan.prevSource i = some (.slot o) →
    api'.set (p'.plan.parentIndex i) = api.set (p.plan.parentIndex i)
  get : api'.get i = api.get i
  hasValue : api'.hasValue i = api.hasValue i
  emplace : api'.emplace i = api.emplace i
  destroy : api'.destroy i = api.destroy i
  outHasValue : api'.outHasValue i = api.outHasValue i
  outEmplace : api'.outEmplace i = api.outEmplace i
  outDestroy : api'.outDestroy i = api.outDestroy i
  copy : p'.copy = p.copy
  move : p'.move = p.move
  asserts : p'.asserts = p.asserts

namespace SameNode

variable {api api' : SlotsApi V S} {p p' : Program V W} {i : Nat}

/-- The task, without what its callable does. -/
theorem planTask (h : SameNode api api' p p' i) : p'.plan.task i = p.plan.task i :=
  congrArg Sigma.fst h.task

theorem evaluated (h : SameNode api api' p p' i) :
    (p'.behaviour i).evaluated = (p.behaviour i).evaluated :=
  congrArg (fun t : (task : Task) × TaskBehaviour V W task => t.2.evaluated) h.task

theorem argument (h : SameNode api api' p p' i) :
    (p'.behaviour i).argument = (p.behaviour i).argument :=
  congrArg (fun t : (task : Task) × TaskBehaviour V W task => t.2.argument) h.task

theorem sinkBody (h : SameNode api api' p p' i) :
    (p'.behaviour i).sinkBody = (p.behaviour i).sinkBody :=
  congrArg (fun t : (task : Task) × TaskBehaviour V W task => t.2.sinkBody) h.task

theorem resolvePrev_eq (h : SameNode api api' p p' i) : p'.resolvePrev = p.resolvePrev := by
  funext binding v w
  unfold Program.resolvePrev
  rw [h.copy, h.move]

/-- The view at the node is bound to the same object. -/
theorem readPrev_eq (h : SameNode api api' p p' i) : readPrev api' p' i = readPrev api p i := by
  funext m
  unfold readPrev
  rw [h.source]
  split
  · rfl
  · rfl
  · next hsource => rw [h.parentGet _ hsource]

/-- And writes go to the same object. -/
theorem writePrev_eq (h : SameNode api api' p p' i) :
    writePrev api' p' i = writePrev api p i := by
  funext v m
  unfold writePrev
  rw [h.source]
  split
  · next hsource => rw [h.readPrev_eq, h.parentSet _ hsource]
  · rfl

theorem resolveStep_eq (h : SameNode api api' p p' i) :
    resolveStep api' p' i = resolveStep api p i := by
  funext binding source arg left m
  unfold resolveStep
  rw [h.writePrev_eq]

/-- So every binding resolves alike. -/
theorem resolveAs_eq (h : SameNode api api' p p' i) :
    resolveAs api' p' i = resolveAs api p i := by
  funext binding
  unfold resolveAs
  rw [h.readPrev_eq, h.source, h.resolvePrev_eq, h.resolveStep_eq, h.argument]

theorem resolveAll_eq (h : SameNode api api' p p' i) :
    resolveAll api' p' i = resolveAll api p i := by
  funext bindings
  induction bindings with
  | nil => rfl
  | cons binding rest ih =>
      unfold resolveAll
      rw [h.resolveAs_eq, ih]

theorem writeBack_eq (h : SameNode api api' p p' i) :
    writeBack api' p' i = writeBack api p i := by
  funext written m
  unfold writeBack
  rw [h.evaluated, h.writePrev_eq]

/-- An attempt records the same state of the sink. -/
theorem beginAttempt_eq (h : SameNode api api' p p' i) :
    beginAttempt api' p' i = beginAttempt api p i := by
  funext m
  unfold beginAttempt
  rw [h.planTask, h.outHasValue]

theorem emplaceSink_eq (h : SameNode api api' p p' i) :
    emplaceSink api' i = (emplaceSink api i : Option V → Machine S V → Machine S V) := by
  funext payload m
  unfold emplaceSink
  rw [h.outEmplace]

theorem runSink_eq (h : SameNode api api' p p' i) : runSink api' p' i = runSink api p i := by
  funext body
  induction body with
  | finish exit written world =>
      unfold runSink
      rw [h.writeBack_eq]
  | hasValue next ih =>
      unfold runSink
      rw [h.outHasValue]
      simp only [ih]
  | emplace payload next ih =>
      unfold runSink
      rw [h.asserts, h.outHasValue, h.emplaceSink_eq, ih]
  | destroy next ih =>
      unfold runSink
      rw [h.outDestroy, ih]

/-- One attempt of a direct-output node. -/
theorem attemptInto_eq (h : SameNode api api' p p' i) :
    attemptInto api' p' i = attemptInto api p i := by
  unfold attemptInto
  rw [h.beginAttempt_eq, h.resolveAll_eq, h.evaluated, h.sinkBody, h.runSink_eq]

theorem cleanUpSink_eq (h : SameNode api api' p p' i) :
    cleanUpSink api' i = (cleanUpSink api i : Machine S V → Machine S V) := by
  funext m
  unfold cleanUpSink
  rw [h.outHasValue, h.outDestroy]

/-- And its whole stack. -/
theorem invokeNodeInto_eq (h : SameNode api api' p p' i) (fuel : Nat) :
    invokeNodeInto api' p' fuel i = invokeNodeInto api p fuel i := by
  unfold invokeNodeInto
  rw [h.cleanUpSink_eq, h.attemptInto_eq]
  exact congrArg (fun t : (task : Task) × TaskBehaviour V W task =>
    invokeInto fuel (cleanUpSink api i) (attemptInto api p i) t.1 t.2.policiesInto) h.task

theorem finishNode_eq (h : SameNode api api' p p' i) :
    finishNode api' p' i = finishNode api p i := by
  funext m
  unfold finishNode nodeOutput CompiledPlan.outputType
  rw [h.planTask, h.get]

/-- The entry of a direct-output node. -/
theorem enterInto_eq (h : SameNode api api' p p' i) (fuel : Nat) :
    enterInto api' p' fuel i = enterInto api p fuel i := by
  unfold enterInto finalizeDirectOutputStep
  rw [h.invokeNodeInto_eq, h.finishNode_eq, h.asserts, h.hasValue, h.destroy]

theorem storeNodeOutput_eq (h : SameNode api api' p p' i) :
    storeNodeOutput api' p' i = storeNodeOutput api p i := by
  funext kind raw
  cases kind with
  | void => rfl
  | step => rfl
  | taskResult =>
      unfold storeNodeOutput moveIntoSlot
      rw [h.move, h.emplace]
  | value =>
      unfold storeNodeOutput moveIntoSlot
      rw [h.move, h.emplace]

/-- `enterRaw` as a function of the task it executes. -/
def enterTask (fuel : Nat) (begun : Machine S V → Machine S V)
    (resolve : List (Spec × CppType) → Exec (Machine S V × W) (List V))
    (back : Option V → Machine S V → Machine S V)
    (store : (kind : RawKind) → kind.Result V → Exec (Machine S V × W) Bool)
    (finish : Machine S V → Machine S V) (t : (task : Task) × TaskBehaviour V W task) :
    Exec (Machine S V × W) NodeEnterResult := do
  let raw ← Exec.noexcept (invokeRaw fuel t.1 t.2.policies (do
    onMachine begun
    let args ← resolve t.2.evaluated
    let (exit, written) ← onWorld (t.2.body args)
    onMachine (back written)
    Exec.ofExit exit))
  if (Program.extractStepResult t.1.rawKind raw).ok then do
    let payloadLive ← store t.1.rawKind raw
    onMachine finish
    pure (.succeeded payloadLive)
  else
    pure (.unsuccessful (Program.extractStepResult t.1.rawKind raw))

/-- The entry of any other node depends on its task as one value. -/
theorem enterRaw_eq_enterTask (api : SlotsApi V S) (p : Program V W) (fuel i : Nat) :
    enterRaw api p fuel i = enterTask fuel (beginAttempt api p i) (resolveAll api p i)
      (writeBack api p i) (storeNodeOutput api p i) (finishNode api p i) (p.nodeTask i) := rfl

/-- **A node both programs have is entered alike.** -/
theorem enterNode_eq (h : SameNode api api' p p' i) (fuel : Nat) :
    enterNode api' p' fuel i = enterNode api p fuel i := by
  unfold enterNode
  rw [h.readPrev_eq, h.planTask, h.enterInto_eq, enterRaw_eq_enterTask, enterRaw_eq_enterTask,
    h.task, h.beginAttempt_eq, h.resolveAll_eq, h.writeBack_eq, h.storeNodeOutput_eq,
    h.finishNode_eq]

/-- The same payload is copied. -/
theorem stageFanout_eq (h : SameNode api api' p p' i) :
    stageFanout api' p' i = stageFanout api p i := by
  unfold stageFanout
  rw [h.get, h.copy]

end SameNode

/-! ## §2. Logs grow. -/

/-- The second log continues the first. -/
def LogGrows (s t : Machine S V × W) : Prop := s.1.events <:+ t.1.events

/-- The two logs have a part in common, and one of them goes on with entering a
node after `q`. -/
def LogsApart (q : Nat) (s t : Machine S V × W) : Prop :=
  ∃ common i prev, q < i ∧ common <:+ s.1.events ∧ common <:+ t.1.events
    ∧ (.entered i prev :: common <:+ s.1.events ∨ .entered i prev :: common <:+ t.1.events)

/-- Logs that go on differently do so for good. -/
theorem logs_parting (q : Nat) :
    Exec.Parting (LogGrows (S := S) (V := V) (W := W)) (LogsApart q) where
  refl _ := List.suffix_refl _
  trans hs ht := List.IsSuffix.trans hs ht
  symm hapart := by
    obtain ⟨common, i, prev, hi, hcs, hct, hentered⟩ := hapart
    exact ⟨common, i, prev, hi, hct, hcs, hentered.symm⟩
  keep hs ht hapart := by
    obtain ⟨common, i, prev, hi, hcs, hct, hentered⟩ := hapart
    exact ⟨common, i, prev, hi, hcs.trans hs, hct.trans ht,
      hentered.imp (fun h => h.trans hs) fun h => h.trans ht⟩

section Growth

variable {api : SlotsApi V S} {p : Program V W} {i : Nat}

/-- The slots add to the log. -/
theorem LogGrows.onSlots (s : Machine S V × W) (op : S → List MemoryEvent × S) :
    LogGrows s (s.1.onSlots op, s.2) := by
  show s.1.events <:+ (s.1.onSlots op).events
  rw [Machine.onSlots_events]
  exact List.suffix_append _ _

/-- And so does the end of a staged copy. -/
theorem LogGrows.destroyStage (s : Machine S V × W) (q : Nat) :
    LogGrows s (s.1.destroyStage q, s.2) := by
  show s.1.events <:+ (s.1.destroyStage q).events
  obtain ⟨log, hlog, -⟩ := s.1.destroyStage_memory q
  rw [hlog]
  exact List.suffix_append _ _

/-- Nothing that happens at a node shortens the log. -/
theorem grow_triple {log : List (Event V)} {Before : Machine S V × W → Prop}
    (hbefore : ∀ s, Before s → log <:+ .entered i (readPrev api p i s.1) :: s.1.events) :
    EnterTriple api p i Before (fun s => log <:+ s.1.events) (fun s => log <:+ s.1.events)
      (fun _ s => log <:+ s.1.events) (fun s => log <:+ s.1.events) where
  world _ _ _ hs := hs
  halts _ _ hs := hs
  violate _ _ _ _ hs := hs.trans (List.suffix_cons _ _)
  attempt _ hs := hs.trans (List.suffix_cons _ _)
  abandon _ _ hs := hs
  skip _ _ _ _ hs := hs
  resolve _ _ _ _ _ _ _ _ _ hs _ _ _ := by
    rw [resolveStep_events]
    exact hs.trans (List.suffix_cons _ _)
  write _ _ _ hs := by
    rw [writeBack_events]
    exact hs
  sink _ _ _ _ hs := hs
  sinkHasValue _ _ hs := hs
  sinkEmplace payload _ s hs := by
    -- over an empty slot, or over a live payload with the violation on record
    have hemplace : ∀ m : Machine S V, log <:+ m.events →
        log <:+ (emplaceSink api i payload m).events := by
      intro m hm
      cases payload with
      | none => exact hm
      | some v => exact hm.trans (LogGrows.onSlots (m, s.2) _)
    have hviolate : log <:+ (s.1.violate (.emplaceOverLive i)).events :=
      hs.trans (List.suffix_cons _ _)
    exact ⟨fun _ => hemplace _ hs, fun _ => ⟨hemplace _ hviolate, hviolate⟩⟩
  sinkDestroy _ s hs := hs.trans (LogGrows.onSlots s _)
  sinkFinish _ _ _ _ hs := by
    rw [writeBack_events]
    exact hs
  again _ _ _ hs := hs
  cleanUp s _ _ hs := by
    unfold cleanUpSink
    split
    · exact hs.trans (LogGrows.onSlots s _)
    · exact hs
  enter s hs := hbefore s hs
  finish _ _ hs _ := hs.trans (List.suffix_cons _ _)
  finishMissing _ _ hs _ :=
    (hs.trans (List.suffix_cons _ _)).trans (List.suffix_cons _ _)
  failInto s _ hs := hs.trans (LogGrows.onSlots s _)
  store v s _ _ hs := (hs.trans (LogGrows.onSlots s _)).trans (List.suffix_cons _ _)
  pass _ _ _ hs := hs.trans (List.suffix_cons _ _)
  fail _ _ hs := hs

/-- A log that the entry continues is continued by all that follows. -/
theorem enterNode_after {log : List (Event V)} {s : Machine S V × W} (hi : i < p.plan.nodeCount)
    (fuel : Nat) (hlog : log <:+ .entered i (readPrev api p i s.1) :: s.1.events) :
    log <:+ (enterNode api p fuel i s).2.1.events := by
  have hbefore : ∀ t : Machine S V × W, t = s →
      log <:+ .entered i (readPrev api p i t.1) :: t.1.events := by
    intro t ht
    rw [ht]
    exact hlog
  apply Exec.Triple.after (((grow_triple hbefore).enterNode hi fuel).post _) rfl
  intro entered t ht
  split at ht
  · exact ht.2
  · exact ht

/-- Entering a node continues the log. -/
theorem enterNode_grows (hi : i < p.plan.nodeCount) (fuel : Nat) :
    Exec.Grows LogGrows (enterNode api p fuel i) :=
  fun _ => enterNode_after hi fuel (List.suffix_cons _ _)

/-- Entering a node after `q` parts the logs. -/
theorem enterNode_apart {q : Nat} (hq : q < i) (hi : i < p.plan.nodeCount) (fuel : Nat)
    (s : Machine S V × W) : LogsApart q (enterNode api p fuel i s).2 s :=
  ⟨s.1.events, i, _, hq, enterNode_grows hi fuel s, List.suffix_refl _,
    Or.inl (enterNode_after hi fuel (List.suffix_refl _))⟩

/-- Staging a copy does too. -/
theorem stageFanout_grows (i : Nat) : Exec.Grows LogGrows (stageFanout api p i) := by
  apply (logs_parting 0).grows_of_triple
  intro s
  exact stageFanout_triple (fun _ _ ht => ht) (fun _ ht => ht.trans (List.suffix_cons _ _))
    fun _ _ _ _ ht _ _ => ht.trans (List.suffix_cons _ _)

end Growth

/-! ## §3. Traversals that part. -/

section Traversal

variable {σ : Type} {le Apart : σ → σ → Prop} {n q : Nat} {ops ops' : DfsOps σ}

/-- Operations on nodes below `n` that only move the state up. -/
structure OpsGrow (le : σ → σ → Prop) (n : Nat) (ops : DfsOps σ) : Prop where
  enter : ∀ i < n, Exec.Grows le (ops.enterNode i)
  stage : ∀ i < n, Exec.Grows le (ops.stage i)
  unstage : ∀ i s, le s (ops.unstage i s)
  destroy : ∀ i s, le s (ops.destroyPayload i s)

namespace OpsGrow

/-- Staging, where it is required. -/
theorem prepare (h : OpsGrow le n ops) (hA : Exec.Parting le Apart) {i : Nat} (hi : i < n) :
    Exec.Grows le (ops.prepareFanoutStaging i) := by
  unfold DfsOps.prepareFanoutStaging
  split
  · exact h.stage i hi
  · exact hA.grows_pure ()

/-- The end of a staged copy, where there is one. -/
theorem destroyStaging (h : OpsGrow le n ops) (hA : Exec.Parting le Apart) (i : Nat) (s : σ) :
    le s (ops.destroyFanoutStaging i s) := by
  unfold DfsOps.destroyFanoutStaging
  cases ops.requiresStaging i with
  | true => exact h.unstage i s
  | false => exact hA.refl s

/-- The end of a live payload. -/
theorem destroyLive (h : OpsGrow le n ops) (hA : Exec.Parting le Apart) (live : Bool) (i : Nat)
    (s : σ) : le s (bif live then ops.destroyPayload i s else s) := by
  cases live with
  | true => exact h.destroy i s
  | false => exact hA.refl s

/-- What `dfsNode` does once the node is entered. -/
theorem after_enter (h : OpsGrow le n ops) (hA : Exec.Parting le Apart) (unwind : Bool) {i : Nat}
    (hi : i < n) {below : Exec σ StepResult} (hbelow : Exec.Grows le below)
    (entered : NodeEnterResult) :
    Exec.Grows le (if entered.step.ok then
      Exec.onExit unwind (fun s => bif entered.payloadLive then ops.destroyPayload i s else s) do
        ops.prepareFanoutStaging i
        Exec.onExit unwind (ops.destroyFanoutStaging i) below
      else pure entered.step) := by
  split
  · apply hA.grows_onExit _ unwind (h.destroyLive hA _ i)
    apply hA.grows_bind (h.prepare hA hi)
    exact fun _ => hA.grows_onExit hbelow unwind (h.destroyStaging hA i)
  · exact hA.grows_pure _

/-- A node, given that what is below it grows. -/
theorem dfsNode (h : OpsGrow le n ops) (hA : Exec.Parting le Apart) (unwind : Bool) {i : Nat}
    (hi : i < n) {below : Exec σ StepResult} (hbelow : Exec.Grows le below) :
    Exec.Grows le (dfsNode unwind ops i below) :=
  hA.grows_bind (h.enter i hi) (h.after_enter hA unwind hi hbelow)

/-- By the forest below a node. -/
theorem dfsChildren (h : OpsGrow le n ops) (hA : Exec.Parting le Apart) (unwind : Bool) :
    ∀ f : Forest Nat, (∀ x ∈ f.preorder, x < n) → Exec.Grows le (dfsChildren unwind ops f)
  | .nil, _ => hA.grows_pure _
  | .cons i below rest, hf => by
      have hbelow := dfsChildren h hA unwind below fun x hx =>
        hf x (List.mem_cons_of_mem _ (List.mem_append_left _ hx))
      have hrest := dfsChildren h hA unwind rest fun x hx =>
        hf x (List.mem_cons_of_mem _ (List.mem_append_right _ hx))
      apply hA.grows_bind (h.dfsNode hA unwind (hf i List.mem_cons_self) hbelow)
      intro step
      split
      · exact hA.grows_pure _
      · exact hrest

end OpsGrow

/-- Operations that are the same up to node `q`, and entering a node after `q`
parts the states. -/
structure OpsTogether (le Apart : σ → σ → Prop) (n q : Nat) (ops ops' : DfsOps σ) : Prop where
  parting : Exec.Parting le Apart
  grows : OpsGrow le n ops
  grows' : OpsGrow le n ops'
  apart : ∀ i, q < i → i < n → ∀ s, Apart (ops.enterNode i s).2 s
  apart' : ∀ i, q < i → i < n → ∀ s, Apart (ops'.enterNode i s).2 s
  enter : ∀ i ≤ q, i < n → ops'.enterNode i = ops.enterNode i
  staging : ∀ i ≤ q, i < n → ops'.requiresStaging i = ops.requiresStaging i
  stage : ∀ i ≤ q, i < n → ops'.stage i = ops.stage i
  unstage : ∀ i ≤ q, i < n → ops'.unstage i = ops.unstage i
  destroy : ∀ i ≤ q, i < n → ops'.destroyPayload i = ops.destroyPayload i

namespace OpsTogether

/-- Neither side is the first one. -/
theorem symm (h : OpsTogether le Apart n q ops ops') : OpsTogether le Apart n q ops' ops where
  parting := h.parting
  grows := h.grows'
  grows' := h.grows
  apart := h.apart'
  apart' := h.apart
  enter i hq hi := (h.enter i hq hi).symm
  staging i hq hi := (h.staging i hq hi).symm
  stage i hq hi := (h.stage i hq hi).symm
  unstage i hq hi := (h.unstage i hq hi).symm
  destroy i hq hi := (h.destroy i hq hi).symm

/-- A node up to `q` is visited alike. -/
theorem dfsNode_eq (h : OpsTogether le Apart n q ops ops') (unwind : Bool) {i : Nat} (hq : i ≤ q)
    (hi : i < n) (below : Exec σ StepResult) :
    dfsNode unwind ops' i below = dfsNode unwind ops i below := by
  unfold dfsNode DfsOps.prepareFanoutStaging
  have hunstage : ops'.destroyFanoutStaging i = ops.destroyFanoutStaging i := by
    funext s
    unfold DfsOps.destroyFanoutStaging
    rw [h.staging i hq hi, h.unstage i hq hi]
  rw [h.enter i hq hi, h.staging i hq hi, h.stage i hq hi, h.destroy i hq hi, hunstage]

/-- Visiting a node up to `q`. -/
theorem dfsNode (h : OpsTogether le Apart n q ops ops') (unwind : Bool) {i : Nat} (hq : i ≤ q)
    (hi : i < n) {below below' : Exec σ StepResult} (hbelow : Exec.Together Apart below below')
    (hgrows : Exec.Grows le below) (hgrows' : Exec.Grows le below') :
    Exec.Together Apart (dfsNode unwind ops i below) (dfsNode unwind ops' i below') := by
  rw [h.dfsNode_eq unwind hq hi]
  have hA := h.parting
  apply hA.together_bind (fun _ => Or.inl rfl) _ (h.grows.after_enter hA unwind hi hgrows)
    (h.grows.after_enter hA unwind hi hgrows')
  intro entered
  split
  · apply hA.together_onExit _ unwind (h.grows.destroyLive hA _ i)
    apply hA.together_bind (fun _ => Or.inl rfl)
    · exact fun _ => hA.together_onExit hbelow unwind (h.grows.destroyStaging hA i)
    · exact fun _ => hA.grows_onExit hgrows unwind (h.grows.destroyStaging hA i)
    · exact fun _ => hA.grows_onExit hgrows' unwind (h.grows.destroyStaging hA i)
  · exact fun _ => Or.inl rfl

/-- A traversal that starts after `q` parts from whatever the other one does. -/
theorem dfsChildren_apart (h : OpsTogether le Apart n q ops ops') (unwind : Bool) {i : Nat}
    {below rest : Forest Nat} (hq : q < i)
    (hf : ∀ x ∈ (Forest.cons i below rest).preorder, x < n) {y : Exec σ StepResult}
    (hy : Exec.Grows le y) :
    Exec.Together Apart (dfsChildren unwind ops (.cons i below rest)) y := by
  have hA := h.parting
  have hi := hf i List.mem_cons_self
  have hbelow := h.grows.dfsChildren hA unwind below fun x hx =>
    hf x (List.mem_cons_of_mem _ (List.mem_append_left _ hx))
  have hrest := h.grows.dfsChildren hA unwind rest fun x hx =>
    hf x (List.mem_cons_of_mem _ (List.mem_append_right _ hx))
  intro s
  refine Or.inr (hA.keep ?_ (hy s) (h.apart i hq hi s))
  unfold dfsChildren
  apply hA.trans (hA.le_bind (h.grows.after_enter hA unwind hi hbelow) (ops.enterNode i) s)
  apply hA.le_bind
  intro step
  split
  · exact hA.grows_pure _
  · exact hrest

/-- **The traversals do the same until one of them is past `q`.**  The induction
is on both forests at once. -/
theorem dfsChildren (h : OpsTogether le Apart n q ops ops') (unwind : Bool) :
    ∀ f f' : Forest Nat, Forest.SameWhile (· ≤ q) f f' → (∀ x ∈ f.preorder, x < n) →
      (∀ x ∈ f'.preorder, x < n) →
      Exec.Together Apart (dfsChildren unwind ops f) (dfsChildren unwind ops' f')
  | .nil, .nil, _, _, _ => fun _ => Or.inl rfl
  | .nil, .cons _ _ _, hsame, _, hf' => by
      have hq := Nat.not_le.mp (of_decide_eq_false hsame)
      exact h.parting.together_symm
        (h.symm.dfsChildren_apart unwind hq hf' (h.parting.grows_pure _))
  | .cons _ _ _, .nil, hsame, hf, _ => by
      have hq := Nat.not_le.mp (of_decide_eq_false hsame)
      exact h.dfsChildren_apart unwind hq hf (h.parting.grows_pure _)
  | .cons i below rest, .cons j below' rest', hsame, hf, hf' => by
      rcases Nat.lt_or_ge q i with hi | hi
      · exact h.dfsChildren_apart unwind hi hf (h.grows'.dfsChildren h.parting unwind _ hf')
      rcases Nat.lt_or_ge q j with hj | hj
      · exact h.parting.together_symm
          (h.symm.dfsChildren_apart unwind hj hf' (h.grows.dfsChildren h.parting unwind _ hf))
      -- both traversals visit a node up to `q`, which is the same one
      obtain ⟨rfl, hbelow, hrest⟩ := (hsame.resolve_left (by simpa using hi)).resolve_left
        (by simpa using hj)
      have hmem : ∀ {c s : Forest Nat}, (∀ x ∈ (Forest.cons i c s).preorder, x < n) →
          (∀ x ∈ c.preorder, x < n) ∧ ∀ x ∈ s.preorder, x < n := by
        intro c s hcs
        exact ⟨fun x hx => hcs x (List.mem_cons_of_mem _ (List.mem_append_left _ hx)),
          fun x hx => hcs x (List.mem_cons_of_mem _ (List.mem_append_right _ hx))⟩
      obtain ⟨hc, hs⟩ := hmem hf
      obtain ⟨hc', hs'⟩ := hmem hf'
      have hnode := h.dfsNode unwind hi (hf i List.mem_cons_self)
        (dfsChildren h unwind below below' hbelow hc hc')
        (h.grows.dfsChildren h.parting unwind below hc)
        (h.grows'.dfsChildren h.parting unwind below' hc')
      apply h.parting.together_bind hnode
      · intro step
        split
        · exact fun _ => Or.inl rfl
        · exact dfsChildren h unwind rest rest' hrest hs hs'
      · intro step
        split
        · exact h.parting.grows_pure _
        · exact h.grows.dfsChildren h.parting unwind rest hs
      · intro step
        split
        · exact h.parting.grows_pure _
        · exact h.grows'.dfsChildren h.parting unwind rest' hs'

end OpsTogether

end Traversal

/-! ## §4. Permuted plans. -/

/-- `p'` is `p` with node `i` renamed to `π i`, and nothing up to `q` renamed:
the trees below `q` come in another order. -/
structure Permuted (p p' : Program V W) (q : Nat) (π : Equiv.Perm Nat) : Prop where
  node : q < p.plan.nodeCount
  nodeCount : p'.plan.nodeCount = p.plan.nodeCount
  lt_iff : ∀ i, π i < p.plan.nodeCount ↔ i < p.plan.nodeCount
  fixed : ∀ i ≤ q, π i = i
  parent : ∀ i, 0 < i → i < p.plan.nodeCount →
    p'.plan.parentIndex (π i) = π (p.plan.parentIndex i)
  task : ∀ i < p.plan.nodeCount, p'.nodeTask (π i) = p.nodeTask i
  fanoutPolicy : ∀ i < p.plan.nodeCount, p'.plan.fanoutPolicy (π i) = p.plan.fanoutPolicy i
  copy : p'.copy = p.copy
  move : p'.move = p.move
  asserts : p'.asserts = p.asserts

namespace Permuted

variable {p p' : Program V W} {q : Nat} {π : Equiv.Perm Nat} {i r : Nat}

/-- The root keeps its place. -/
theorem pos (h : Permuted p p' q π) (hi : 0 < i) : 0 < π i := by
  refine Nat.pos_of_ne_zero fun hzero => ?_
  have hinj := π.injective (hzero.trans (h.fixed 0 (Nat.zero_le q)).symm)
  omega

/-- Renaming keeps parents. -/
theorem isParent_iff (h : Permuted p p' q π) :
    p'.plan.IsParent (π r) (π i) ↔ p.plan.IsParent r i := by
  unfold PlanShape.IsParent
  constructor
  · intro hparent
    obtain ⟨hpos, hlt, hpar⟩ := hparent
    rw [h.nodeCount, h.lt_iff] at hlt
    have hi : 0 < i := by
      refine Nat.pos_of_ne_zero fun hzero => ?_
      rw [hzero, h.fixed 0 (Nat.zero_le q)] at hpos
      exact Nat.lt_irrefl 0 hpos
    rw [h.parent i hi hlt] at hpar
    exact ⟨hi, hlt, π.injective hpar⟩
  · intro hparent
    obtain ⟨hpos, hlt, hpar⟩ := hparent
    refine ⟨h.pos hpos, ?_, ?_⟩
    · rw [h.nodeCount, h.lt_iff]
      exact hlt
    · rw [h.parent i hpos hlt, hpar]

/-- The children are renamed, in whatever order. -/
theorem children_perm (h : Permuted p p' q π) (hr : r < p.plan.nodeCount) :
    (p'.plan.children (π r)).Perm ((p.plan.children r).map π) := by
  have hr' : π r < p'.plan.nodeCount := by
    rw [h.nodeCount, h.lt_iff]
    exact hr
  have hnodup : ∀ {plan : PlanShape} {a : Nat}, a < plan.nodeCount → (plan.children a).Nodup := by
    intro plan a ha
    rw [plan.children_eq ha]
    exact List.Nodup.filter _ List.nodup_range
  refine (List.perm_ext_iff_of_nodup (hnodup hr') ((hnodup hr).map π.injective)).mpr fun c => ?_
  obtain ⟨d, rfl⟩ := π.surjective c
  rw [p'.plan.mem_children hr', h.isParent_iff, List.mem_map]
  constructor
  · exact fun hd => ⟨d, (p.plan.mem_children hr).mpr hd, rfl⟩
  · intro hmem
    obtain ⟨e, he, heq⟩ := hmem
    exact (p.plan.mem_children hr).mp (π.injective heq ▸ he)

/-- A renamed node keeps its task. -/
theorem planTask (h : Permuted p p' q π) (hi : i < p.plan.nodeCount) :
    p'.plan.task (π i) = p.plan.task i :=
  congrArg Sigma.fst (h.task i hi)

/-- Up to `q` the tasks are the same. -/
theorem planTask_le (h : Permuted p p' q π) (hq : i ≤ q) :
    p'.plan.task i = p.plan.task i := by
  have htask := h.planTask (Nat.lt_of_le_of_lt hq h.node)
  rwa [h.fixed i hq] at htask

/-- Children of a kind are as many as before. -/
theorem countP_children (h : Permuted p p' q π) (hr : r < p.plan.nodeCount) (kind : Task → Bool) :
    (p'.plan.children (π r)).countP (fun c => kind (p'.plan.task c))
      = (p.plan.children r).countP fun c => kind (p.plan.task c) := by
  rw [(h.children_perm hr).countP_eq, List.countP_map]
  apply List.countP_congr
  intro c hc
  have hc := (p.plan.mem_children hr).mp hc
  show kind (p'.plan.task (π c)) = true ↔ _
  rw [h.planTask hc.2.1]

/-- A fanout is staged for its kinds of children, which renaming keeps. -/
theorem staging (h : Permuted p p' q π) (hr : r < p.plan.nodeCount) :
    p'.plan.parentRequiresFanoutStaging (π r) = p.plan.parentRequiresFanoutStaging r := by
  unfold CompiledPlan.parentRequiresFanoutStaging CompiledPlan.parentConsumeOnlyPrevChildCount
    CompiledPlan.parentCopyOnlyPrevChildCount
  rw [h.fanoutPolicy r hr, h.countP_children hr fun task => task.usesConsumePrev,
    h.countP_children hr fun task => task.usesCopyOnlyPrevAccess]

/-- Up to `q` the same fanouts are staged. -/
theorem staging_le (h : Permuted p p' q π) (hq : r ≤ q) :
    p'.plan.parentRequiresFanoutStaging r = p.plan.parentRequiresFanoutStaging r := by
  have hstaging := h.staging (Nat.lt_of_le_of_lt hq h.node)
  rwa [h.fixed r hq] at hstaging

/-- Up to `q` the parents are the same. -/
theorem parentIndex_le (h : Permuted p p' q π) (hq : i ≤ q) :
    p'.plan.parentIndex i = p.plan.parentIndex i := by
  rcases Nat.eq_zero_or_pos i with rfl | hpos
  · rw [ValidPlan.parentIndex_zero, ValidPlan.parentIndex_zero]
    exact h.nodeCount
  · have hi := Nat.lt_of_le_of_lt hq h.node
    have hparent := h.parent i hpos hi
    have hlt := p.plan.parentIndex_lt hpos hi
    rwa [h.fixed i hq, h.fixed _ (by omega)] at hparent

/-- A chain of forwarding nodes only goes up, so below `q` it is the same. -/
theorem owner_le (h : Permuted p p' q π) : ∀ i ≤ q,
    p'.plan.canonicalOutputOwnerNode i = p.plan.canonicalOutputOwnerNode i := by
  intro i
  induction i using Nat.strong_induction_on with
  | _ i ih =>
      intro hq
      conv_lhs => rw [CompiledPlan.canonicalOutputOwnerNode]
      conv_rhs => rw [CompiledPlan.canonicalOutputOwnerNode]
      unfold CompiledPlan.outputType CompiledPlan.outputStorageMode
      rw [h.planTask_le hq, h.parentIndex_le hq]
      split
      · exact h.nodeCount
      · split
        · next hforward => exact ih _ hforward.2 (by omega)
        · rfl

/-- Up to `q` views are bound to the same objects. -/
theorem source_le (h : Permuted p p' q π) (hq : i ≤ q) :
    p'.plan.prevSource i = p.plan.prevSource i := by
  unfold CompiledPlan.prevSource CompiledPlan.nodeUsesStagedCopyPrev
  have hi := Nat.lt_of_le_of_lt hq h.node
  rcases Nat.eq_zero_or_pos i with rfl | hpos
  · rw [if_pos ValidPlan.parentIndex_zero, if_pos ValidPlan.parentIndex_zero]
  · have hlt := p.plan.parentIndex_lt hpos hi
    have hne := ValidPlan.parentIndex_ne hpos hi
    have hne' := ValidPlan.parentIndex_ne hpos (h.nodeCount ▸ hi)
    rw [if_neg hne, if_neg hne, if_neg hne', if_neg hne', h.parentIndex_le hq,
      CompiledPlan.outputType, CompiledPlan.outputType, h.planTask_le (by omega),
      h.planTask_le hq, h.staging_le (by omega), h.owner_le _ (by omega)]

/-- **Nothing differs at a node up to `q`.** -/
theorem sameNode (h : Permuted p p' q π) (hq : i ≤ q) :
    SameNode (idealSlots p.plan.toCompiledPlan V) (idealSlots p'.plan.toCompiledPlan V) p p' i := by
  have hi := Nat.lt_of_le_of_lt hq h.node
  have htask := h.planTask_le hq
  have howner := h.owner_le i hq
  -- a node that reads a slot has a parent, which is below `q` as well
  have hparent : ∀ o, p.plan.prevSource i = some (.slot o) →
      p'.plan.canonicalOutputOwnerNode (p'.plan.parentIndex i)
        = p.plan.canonicalOutputOwnerNode (p.plan.parentIndex i) := by
    intro o hsource
    obtain ⟨hparent, -, -⟩ := ValidPlan.parent_of_source hi hsource
    have hpos : 0 < i := by
      refine Nat.pos_of_ne_zero fun hzero => ?_
      rw [hzero, ValidPlan.parentIndex_zero] at hparent
      exact Nat.lt_irrefl _ hparent
    have hlt := p.plan.parentIndex_lt hpos hi
    rw [h.parentIndex_le hq, h.owner_le _ (by omega)]
  have howns : p'.plan.ownsPayload i = p.plan.ownsPayload i := by
    unfold CompiledPlan.ownsPayload CompiledPlan.outputType CompiledPlan.outputStorageMode
    rw [htask]
  exact {
    task := by rw [← h.task i hi, h.fixed i hq]
    source := h.source_le hq
    parentGet := fun o ho => by
      funext f
      show f _ = f _
      rw [hparent o ho]
    parentSet := fun o ho => by
      funext v f
      show Function.update f _ _ = Function.update f _ _
      rw [hparent o ho]
    get := by
      funext f
      show f _ = f _
      rw [howner]
    hasValue := by
      funext f
      show slotHasValueImpl p'.plan.toCompiledPlan (fun o => (f o).isSome) i
        = slotHasValueImpl p.plan.toCompiledPlan (fun o => (f o).isSome) i
      unfold slotHasValueImpl CompiledPlan.outputType
      rw [htask, howner]
    emplace := rfl
    destroy := by
      funext f
      show (if _ then _ else _) = if _ then _ else _
      rw [howns]
    outHasValue := rfl
    outEmplace := rfl
    outDestroy := rfl
    copy := h.copy
    move := h.move
    asserts := h.asserts }

/-- Up to `q` the trees are the same. -/
theorem below_sameWhile (h : Permuted p p' q π) :
    Forest.SameWhile (· ≤ q) p.plan.below p'.plan.below := by
  have hunfold : ∀ plan : PlanShape,
      Forest.unfold plan.children plan.nodeCount (plan.children 0) = plan.below := by
    intro plan
    rw [plan.below_spanned.1]
    exact Forest.unfold_roots _ _ plan.below_spanned.2 (by have := plan.below_size; omega)
  -- child lists are sorted, so what is up to `q` comes first
  have hchildren : ∀ r, (decide (r ≤ q)) → (p.plan.children r).takeWhile (· ≤ q)
      = (p'.plan.children r).takeWhile (· ≤ q) := by
    intro r hr
    have hrn := Nat.lt_of_le_of_lt (of_decide_eq_true hr) h.node
    rw [p.plan.children_eq hrn, p'.plan.children_eq (h.nodeCount ▸ hrn), takeWhile_bucket,
      takeWhile_bucket, h.nodeCount]
    apply List.filter_congr
    intro i _
    by_cases hq : i ≤ q
    · rw [h.parentIndex_le hq]
    · simp [hq]
  rw [← hunfold, ← hunfold, h.nodeCount]
  exact Forest.SameWhile.unfold hchildren _ _ _ (hchildren 0 (by simp))

end Permuted

/-! ## §5. Two runs. -/

/-- The operations that the executors are given continue the log. -/
theorem nodeOps_grows (api : SlotsApi V S) (p : Program V W) (fuel : Nat) :
    OpsGrow LogGrows p.plan.nodeCount (nodeOps api p fuel) where
  enter _ hi := enterNode_grows hi fuel
  stage i _ := stageFanout_grows i
  unstage i s := LogGrows.destroyStage s i
  destroy i s := LogGrows.onSlots s (api.destroy i)

section Runs

variable {p p' : Program V W} {q : Nat} {π : Equiv.Perm Nat}

/-- And they are the same up to `q`. -/
theorem Permuted.nodeOps_together (h : Permuted p p' q π) (fuel : Nat) :
    OpsTogether LogGrows (LogsApart q) p.plan.nodeCount q
      (nodeOps (idealSlots p.plan.toCompiledPlan V) p fuel)
      (nodeOps (idealSlots p'.plan.toCompiledPlan V) p' fuel) where
  parting := logs_parting q
  grows := nodeOps_grows _ p fuel
  grows' := h.nodeCount ▸ nodeOps_grows _ p' fuel
  apart _ hq hi s := enterNode_apart hq hi fuel s
  apart' _ hq hi s := enterNode_apart hq (h.nodeCount ▸ hi) fuel s
  enter _ hq _ := (h.sameNode hq).enterNode_eq fuel
  staging _ hq _ := h.staging_le hq
  stage _ hq _ := (h.sameNode hq).stageFanout_eq
  unstage _ _ _ := rfl
  destroy i hq _ := by
    funext s
    show (s.1.onSlots _, s.2) = (s.1.onSlots _, s.2)
    rw [(h.sameNode hq).destroy]

/-- The destructors add memory events only. -/
theorem runFrom_events (api : SlotsApi V S) (p : Program V W) (exec : ExecPolicy) (fuel : Nat)
    (w : W) : ∃ log : List MemoryEvent, (runFrom api p exec fuel w).2.1.events
      = log.map .memory
        ++ (traversal api p exec fuel ({ slots := api.initial }, w)).2.1.events := by
  unfold runFrom
  rw [runPlan_eq, Exec.onExit]
  rcases traversal api p exec fuel ({ slots := api.initial }, w) with ⟨_ | _ | _, s⟩
  · exact leaveRun_events api p s.1
  · exact leaveRun_events api p s.1
  · exact ⟨[], rfl⟩

/-- **The two traversals do the same until one of them is past `q`.** -/
theorem Permuted.traversal_together (h : Permuted p p' q π) (exec : ExecPolicy) (fuel : Nat) :
    Exec.Together (LogsApart q) (traversal (idealSlots p.plan.toCompiledPlan V) p exec fuel)
      (traversal (idealSlots p'.plan.toCompiledPlan V) p' exec fuel) := by
  have hops := h.nodeOps_together fuel
  have hbelow : ∀ {plan : PlanShape}, ∀ x ∈ plan.below.preorder, x < plan.nodeCount :=
    fun {plan} x hx => ((plan.below_preorder.2.2 x).mp hx).2
  have hbelow' : ∀ x ∈ p'.plan.below.preorder, x < p.plan.nodeCount :=
    fun x hx => h.nodeCount ▸ hbelow x hx
  unfold traversal
  exact hops.dfsNode exec.unwinds (Nat.zero_le q) p.plan.nodeCount_pos
    (hops.dfsChildren exec.unwinds _ _ h.below_sameWhile hbelow hbelow')
    (hops.grows.dfsChildren hops.parting exec.unwinds _ hbelow)
    (hops.grows'.dfsChildren hops.parting exec.unwinds _ hbelow')

/-- A node that has finished did so before any later node was entered. -/
theorem AccessLog.finished_before {events common : List (Event V)} (h : AccessLog p events)
    {i : Nat} {prev v : Option V} (hcommon : .entered i prev :: common <:+ events) (hq : q < i)
    (hv : .finished q v ∈ events) : .finished q v ∈ common := by
  obtain ⟨later, hlater⟩ := hcommon
  rw [← hlater, List.mem_append] at hv
  rcases hv with hv | hv
  · obtain ⟨after, before, hsplit⟩ := List.append_of_mem hv
    have hfinished := (h.finished q v (before ++ .entered i prev :: common)
      ⟨after, by rw [← hlater, hsplit]; simp⟩).2 i prev (by simp)
    omega
  · exact (List.mem_cons.mp hv).resolve_left (by nofun)

/-- **What `q` finishes with is the same in both runs.** -/
theorem Permuted.finished_eq (h : Permuted p p' q π) (exec : ExecPolicy) (fuel : Nat) (w : W)
    {v v' : Option V}
    (hv : .finished q v
      ∈ (runFrom (idealSlots p.plan.toCompiledPlan V) p exec fuel w).2.1.events)
    (hv' : .finished q v'
      ∈ (runFrom (idealSlots p'.plan.toCompiledPlan V) p' exec fuel w).2.1.events) : v = v' := by
  have hlog := ideal_accessLog p exec fuel w
  have hlog' := ideal_accessLog p' exec fuel w
  obtain ⟨memory, hmemory⟩ := runFrom_events (idealSlots p.plan.toCompiledPlan V) p exec fuel w
  obtain ⟨memory', hmemory'⟩ :=
    runFrom_events (idealSlots p'.plan.toCompiledPlan V) p' exec fuel w
  rw [hmemory] at hv hlog
  rw [hmemory'] at hv' hlog'
  rcases h.traversal_together exec fuel ({ slots := fun _ => none }, w) with heq | hapart
  · -- the two traversals are one
    have hmem : .finished q v'
        ∈ (traversal (idealSlots p'.plan.toCompiledPlan V) p' exec fuel
          ({ slots := fun _ => none }, w)).2.1.events := by
      refine (List.mem_append.mp hv').resolve_left fun hmem => ?_
      obtain ⟨e, -, he⟩ := List.mem_map.mp hmem
      cases he
    rw [← heq] at hmem
    exact hlog.finished_unique hv (List.mem_append_right _ hmem)
  · obtain ⟨common, i, prev, hi, hcommon, hcommon', hentered | hentered⟩ := hapart
    · have hbefore := hlog.finished_before (hentered.trans (List.suffix_append _ _)) hi hv
      exact hlog'.finished_unique
        ((hcommon'.trans (List.suffix_append _ _)).subset hbefore) hv'
    · have hbefore := hlog'.finished_before (hentered.trans (List.suffix_append _ _)) hi hv'
      exact hlog.finished_unique hv ((hcommon.trans (List.suffix_append _ _)).subset hbefore)

/-- **What a node's children receive.**  In every run, whatever the layout and
the executor: a child of `q` with prev access is entered with the value `q`'s
canonical slot held when `q`'s task finished, and every argument its first
attempt resolves from `q` is that value.  With the trees below `q` in another
order, under whatever layout, the child receives the same. -/
theorem children_receive (p : Program V W) (hfaithful : p.Faithful) (layout : SlotLayoutPolicy)
    (exec : ExecPolicy) (fuel : Nat) (w : W) (q : Nat) :
    let events := (runFrom (layout.slots p.plan.toCompiledPlan) p exec fuel w).2.1.events
    (∀ x prev before, p.plan.IsParent q x → (p.plan.task x).usesPrevAccess →
      .entered x prev :: before <:+ events →
        .finished q prev ∈ before ∧ ∀ v, .finished q v ∈ events → v = prev)
    ∧ (∀ x kind source v before, p.plan.IsParent q x →
      .resolved x kind source (some v) :: before <:+ events → attempts x before = 1 →
        .finished q (some v) ∈ before ∧ ∀ v', .finished q v' ∈ events → v' = some v)
    ∧ ∀ (p' : Program V W) (π : Equiv.Perm Nat) (layout' : SlotLayoutPolicy), Permuted p p' q π →
      let events' := (runFrom (layout'.slots p'.plan.toCompiledPlan) p' exec fuel w).2.1.events
      ∀ x, p.plan.IsParent q x →
        ((p.plan.task x).usesPrevAccess → ∀ prev prev', .entered x prev ∈ events →
          .entered (π x) prev' ∈ events' → prev = prev')
        ∧ ∀ kind kind' source source' v v' before before',
          .resolved x kind source (some v) :: before <:+ events → attempts x before = 1 →
          .resolved (π x) kind' source' (some v') :: before' <:+ events' →
          attempts (π x) before' = 1 → v = v' := by
  intro events
  -- what the log of one run says about the children of `q`
  have hreceive : ∀ (r : Program V W) (policy : SlotLayoutPolicy), r.Faithful →
      let log := (runFrom (policy.slots r.plan.toCompiledPlan) r exec fuel w).2.1.events
      AccessLog r log
      ∧ (∀ x prev before, r.plan.IsParent q x → (r.plan.task x).usesPrevAccess →
        .entered x prev :: before <:+ log → .finished q prev ∈ before)
      ∧ ∀ x kind source v before, r.plan.IsParent q x →
        .resolved x kind source (some v) :: before <:+ log → attempts x before = 1 →
        .finished q (some v) ∈ before := by
    intro r policy hr log
    have hlog := run_accessLog r policy exec fuel w
    refine ⟨hlog, ?_, ?_⟩
    · intro x prev before hx huses hentered
      have hfinished := hlog.entries hr x prev before hentered huses
      rwa [hx.2.2] at hfinished
    · intro x kind source v before hx hresolved hone
      have hfinished := hlog.first hr x kind source v before hresolved hone
      rwa [hx.2.2] at hfinished
  obtain ⟨hlog, hentries, hfirst⟩ := hreceive p layout hfaithful
  refine ⟨?_, ?_, ?_⟩
  · intro x prev before hx huses hentered
    have hfinished := hentries x prev before hx huses hentered
    have hmem := hentered.subset (List.mem_cons_of_mem _ hfinished)
    exact ⟨hfinished, fun v hv => hlog.finished_unique hv hmem⟩
  · intro x kind source v before hx hresolved hone
    have hfinished := hfirst x kind source v before hx hresolved hone
    have hmem := hresolved.subset (List.mem_cons_of_mem _ hfinished)
    exact ⟨hfinished, fun v' hv' => hlog.finished_unique hv' hmem⟩
  · intro p' π layout' hpermuted events' x hx
    have hfaithful' : p'.Faithful := by
      constructor
      · rw [hpermuted.copy]
        exact hfaithful.copy
      · rw [hpermuted.move]
        exact hfaithful.move
    obtain ⟨-, hentries', hfirst'⟩ := hreceive p' layout' hfaithful'
    have hx' : p'.plan.IsParent q (π x) := by
      have hparent := hpermuted.isParent_iff.mpr hx
      rwa [hpermuted.fixed q (Nat.le_refl q)] at hparent
    have heq : ∀ v v', .finished q v ∈ events → .finished q v' ∈ events' → v = v' := by
      intro v v' hv hv'
      obtain ⟨-, -, hevents, -⟩ := run_agrees (layout.refines p.plan) exec fuel w
      obtain ⟨-, -, hevents', -⟩ := run_agrees (layout'.refines p'.plan) exec fuel w
      exact hpermuted.finished_eq exec fuel w (hevents ▸ hv) (hevents' ▸ hv')
    constructor
    · intro huses prev prev' hentered hentered'
      have huses' : (p'.plan.task (π x)).usesPrevAccess := by
        rw [hpermuted.planTask hx.2.1]
        exact huses
      obtain ⟨_, before, hsplit⟩ := List.append_of_mem hentered
      obtain ⟨_, before', hsplit'⟩ := List.append_of_mem hentered'
      have hsuffix : .entered x prev :: before <:+ events := hsplit ▸ List.suffix_append _ _
      have hsuffix' : .entered (π x) prev' :: before' <:+ events' :=
        hsplit' ▸ List.suffix_append _ _
      apply heq
      · exact hsuffix.subset (List.mem_cons_of_mem _ (hentries x prev before hx huses hsuffix))
      · exact hsuffix'.subset (List.mem_cons_of_mem _
          (hentries' (π x) prev' before' hx' huses' hsuffix'))
    · intro kind kind' source source' v v' before before' hresolved hone hresolved' hone'
      apply Option.some.inj
      apply heq
      · exact hresolved.subset (List.mem_cons_of_mem _
          (hfirst x kind source v before hx hresolved hone))
      · exact hresolved'.subset (List.mem_cons_of_mem _
          (hfirst' (π x) kind' source' v' before' hx' hresolved' hone'))

end Runs

/-! ## §6. The staged fanout in both orders. -/

/-- The copying child first. -/
def swappedPlan : ValidPlan where
  toPlanShape := .twoChildren
  task i := fanoutTask (Equiv.swap 1 2 i)
  fanoutPolicy := fun _ => .consumeWithCopies
  bound := by decide
  runnable := by decide
  slotsFormed := by decide

def swappedProgram : Program Nat Nat where
  plan := swappedPlan
  behaviour i := fanoutProgram.behaviour (Equiv.swap 1 2 i)
  copy := fanoutProgram.copy
  move := fanoutProgram.move
  asserts := fanoutProgram.asserts

theorem swapped_permuted : Permuted fanoutProgram swappedProgram 0 (Equiv.swap 1 2) where
  node := by decide
  nodeCount := rfl
  lt_iff i := by
    show Equiv.swap 1 2 i < 3 ↔ i < 3
    rw [Equiv.swap_apply_def]
    split_ifs <;> omega
  fixed i hi := by
    rw [Nat.le_zero.mp hi]
    rfl
  parent i hpos hi := by
    have hi : i < 3 := hi
    match i with
    | 1 => decide
    | 2 => decide
  task i _ := by
    show (⟨fanoutTask (Equiv.swap 1 2 (Equiv.swap 1 2 i)),
      fanoutProgram.behaviour (Equiv.swap 1 2 (Equiv.swap 1 2 i))⟩ :
        (task : Task) × TaskBehaviour Nat Nat task) = _
    rw [Equiv.swap_apply_self]
    rfl
  fanoutPolicy _ _ := rfl
  copy := rfl
  move := rfl
  asserts := rfl

/-- The consuming child is node 1 in one plan and node 2 in the other one, and
both are entered. -/
theorem children_receive_swapped :
    .entered 1 (some 1) ∈ (runFrom (SlotLayoutPolicy.slots fanoutPlan.toCompiledPlan
      .serialDfsCompact) fanoutProgram .serialDfsExplicitHeapStack 2 0).2.1.events
    ∧ .entered 2 (some 1) ∈ (runFrom (SlotLayoutPolicy.slots swappedPlan.toCompiledPlan
      .oneToOne) swappedProgram .serialDfsExplicitHeapStack 2 0).2.1.events
    ∧ ∀ prev, .entered 2 prev ∈ (runFrom (SlotLayoutPolicy.slots swappedPlan.toCompiledPlan
      .oneToOne) swappedProgram .serialDfsExplicitHeapStack 2 0).2.1.events → prev = some 1 := by
  have hentered : .entered 1 (some 1) ∈ (runFrom (SlotLayoutPolicy.slots
      fanoutPlan.toCompiledPlan .serialDfsCompact) fanoutProgram
        .serialDfsExplicitHeapStack 2 0).2.1.events := by
    decide +kernel
  refine ⟨hentered, by decide +kernel, fun prev hprev => ?_⟩
  have hfaithful : fanoutProgram.Faithful := by
    constructor
    · intro w v v' hv
      exact (Option.some.inj hv).symm
    · intro w v v' hv
      exact (Option.some.inj hv).symm
  have hchild : fanoutPlan.IsParent 0 1 := ⟨by decide, by decide, by decide⟩
  obtain ⟨-, -, hswapped⟩ := children_receive fanoutProgram hfaithful .serialDfsCompact
    .serialDfsExplicitHeapStack 2 0 0
  exact ((hswapped swappedProgram (Equiv.swap 1 2) .oneToOne swapped_permuted 1 hchild).1
    (by decide) _ _ hentered hprev).symm

end YOrch
