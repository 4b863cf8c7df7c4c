/-
  YOrch.Executor.NodeEntry — what happens at a node, and whole runs.

  What a task does is a parameter: its arguments, callable and policies are
  functions of the world and of the values they receive.  The executor's own
  state is a `Machine`: the slots of a backend, the staged copies, and a record
  of what happened, the latest event first.

    • `resolveAs`, `attemptRaw`, `attemptInto` — one attempt of a bound task,
    • `finalizeDirectOutputStep`, `storeNodeOutput`, `enterNode` — entering a
      node,
    • `runPlan` — a run under either executor, on any backend,
    • `runTask`, `runTaskInto` — a task outside a plan's traversal.
-/
import YOrch.Executor.Adapters
import YOrch.Executor.Traversal
import YOrch.Slots.PlanExecSlots

namespace YOrch

open Library

variable {V W S : Type}

/-! ## §1. Machines. -/

/-- Contracts that are asserted, or whose violation leaves nothing to go on
with. -/
inductive Violation where
  /-- A prev-access spec or the staging finds no object to read. -/
  | missingSource (node : Nat)
  /-- A direct-output task succeeds without a payload. -/
  | missingOutput (node : Nat)
  /-- A successful `task_result` carries no value. -/
  | missingResult (node : Nat)
  /-- `emplace` on a live payload. -/
  | emplaceOverLive (node : Nat)
  deriving Repr, DecidableEq

/-- What a run does that can be observed.  `entered` comes with the object the
node's prev view is bound to; `attempted` with whether the sink holds a payload,
for a direct-output task; `resolved` with the argument, if its construction
returned; `finished` with what the node's canonical slot then holds. -/
inductive Event (V : Type) where
  | entered (node : Nat) (prev : Option V)
  | attempted (node : Nat) (sinkLive : Option Bool)
  | resolved (node : Nat) (kind : PrevAccessKind) (source : PrevSource) (arg : Option V)
  | finished (node : Nat) (payload : Option V)
  | memory (event : MemoryEvent)
  | violated (violation : Violation)
  deriving Repr, DecidableEq

/-- The executor's state over a backend's slots `S`. -/
structure Machine (S V : Type) where
  slots : S
  stage : Nat → Option V := fun _ => none
  events : List (Event V) := []

namespace Machine

variable (m : Machine S V)

def record (event : Event V) : Machine S V := { m with events := event :: m.events }

def violate (violation : Violation) : Machine S V := m.record (.violated violation)

/-- Run a slot operation and record what it does to memory. -/
def onSlots (op : S → List MemoryEvent × S) : Machine S V where
  slots := (op m.slots).2
  stage := m.stage
  events := (op m.slots).1.reverse.map .memory ++ m.events

/-- `maybe_storage::emplace` of the stage slot, once the copy has returned. -/
def emplaceStage (p : Nat) (v : V) : Machine S V where
  slots := m.slots
  stage := Function.update m.stage p (some v)
  events := .memory (.constructed (.stage p) ((m.stage p).map fun _ => .stage p)) :: m.events

/-- `maybe_storage::destroy` of the stage slot. -/
def destroyStage (p : Nat) : Machine S V :=
  match m.stage p with
  | none => m
  | some _ =>
      { slots := m.slots
        stage := Function.update m.stage p none
        events := .memory (.destroyed (.stage p) (some (.stage p))) :: m.events }

@[simp] theorem record_slots (event : Event V) : (m.record event).slots = m.slots := rfl
@[simp] theorem record_stage (event : Event V) : (m.record event).stage = m.stage := rfl
@[simp] theorem record_events (event : Event V) : (m.record event).events = event :: m.events :=
  rfl
@[simp] theorem violate_slots (violation : Violation) : (m.violate violation).slots = m.slots :=
  rfl
@[simp] theorem violate_stage (violation : Violation) : (m.violate violation).stage = m.stage :=
  rfl
@[simp] theorem violate_events (violation : Violation) :
    (m.violate violation).events = .violated violation :: m.events := rfl
@[simp] theorem onSlots_slots (op : S → List MemoryEvent × S) :
    (m.onSlots op).slots = (op m.slots).2 := rfl
@[simp] theorem onSlots_stage (op : S → List MemoryEvent × S) : (m.onSlots op).stage = m.stage :=
  rfl
@[simp] theorem onSlots_events (op : S → List MemoryEvent × S) :
    (m.onSlots op).events = (op m.slots).1.reverse.map .memory ++ m.events := rfl

@[simp] theorem destroyStage_slots (p : Nat) : (m.destroyStage p).slots = m.slots := by
  unfold destroyStage
  split <;> rfl

/-- Afterwards nothing is staged for the parent, whether or not there was a copy. -/
@[simp] theorem destroyStage_stage (p : Nat) :
    (m.destroyStage p).stage = Function.update m.stage p none := by
  unfold destroyStage
  split
  · next hnone => rw [← hnone, Function.update_eq_self]
  · rfl

/-- Without a staged copy nothing happens. -/
theorem destroyStage_none {m : Machine S V} {p : Nat} (h : m.stage p = none) :
    m.destroyStage p = m := by
  unfold destroyStage
  rw [h]

/-- A staged copy is destroyed where it was made. -/
theorem destroyStage_events {m : Machine S V} {p : Nat} {v : V} (h : m.stage p = some v) :
    (m.destroyStage p).events = .memory (.destroyed (.stage p) (some (.stage p))) :: m.events := by
  unfold destroyStage
  rw [h]

/-- Destroying a staged copy adds at most its destruction to the log. -/
theorem destroyStage_memory (m : Machine S V) (p : Nat) :
    ∃ log : List MemoryEvent, (m.destroyStage p).events = log.map .memory ++ m.events
      ∧ ∀ e ∈ log, e.IsDestruction := by
  cases hv : m.stage p with
  | none =>
      rw [destroyStage_none hv]
      exact ⟨[], rfl, fun _ he => absurd he List.not_mem_nil⟩
  | some v =>
      refine ⟨[.destroyed (.stage p) (some (.stage p))], destroyStage_events hv, ?_⟩
      intro e he
      rw [List.mem_singleton.mp he]
      trivial

/-- The nodes entered so far, in order, with what each entry's prev view was
bound to. -/
def entries : List (Nat × Option V) :=
  m.events.reverse.filterMap fun event =>
    match event with
    | .entered node prev => some (node, prev)
    | _ => none

end Machine

/-- Change the machine only. -/
def onMachine (f : Machine S V → Machine S V) : Exec (Machine S V × W) Unit :=
  Exec.modify fun s => (f s.1, s.2)

/-- Read the machine. -/
def look {α : Type} (f : Machine S V → α) : Exec (Machine S V × W) α :=
  Exec.reads fun s => f s.1

/-- `YORCH_ASSERT`: a failure is recorded, and ends the program if assertions
are enabled. -/
def contract (asserts : Bool) (violation : Violation) (holds : Machine S V → Bool) :
    Exec (Machine S V × W) Unit := do
  let fine ← look holds
  if fine then
    pure ()
  else do
    onMachine fun m => m.violate violation
    if asserts then Exec.halt else pure ()

/-! ## §2. Behaviour. -/

/-- What a direct-output callable does with its sink.  It ends with its exit,
what it leaves in a parent's payload it may write to, and the world.  The value
of `emplace` is what the payload's constructor makes, if it returns. -/
inductive SinkBody (V W : Type) where
  | finish (exit : Exit StepResult) (written : Option V) (world : W)
  | hasValue (next : Bool → SinkBody V W)
  | emplace (payload : Option V) (next : SinkBody V W)
  | destroy (next : SinkBody V W)

/-- What a task of the given form does. -/
structure TaskBehaviour (V W : Type) (task : Task) where
  /-- The bindings in the order their arguments are evaluated in. -/
  evaluated : List (Spec × CppType)
  evaluated_perm : List.Perm evaluated task.bound.bindings
  /-- Evaluate an argument that does not come from the parent; `false` throws. -/
  argument : Spec × CppType → W → Bool × W
  /-- The callable, from the arguments that come from the parent. -/
  body : List V → W → (Exit (task.bound.rawResultType.rawKind.Result V) × Option V) × W
  sinkBody : List V → W → SinkBody V W
  policies : task.Policies (fun task => task.rawKind.Result V) W
  /-- The policies as `invoke_into` uses them. -/
  policiesInto : task.Policies (fun _ => StepResult) W

/-- A plan to run, and everything it calls. -/
structure Program (V W : Type) where
  plan : ValidPlan
  behaviour : ∀ i, TaskBehaviour V W (plan.task i)
  /-- The entry points do not compile for other catch policies. -/
  supported : ∀ i < plan.nodeCount, (plan.task i).policiesSupported := by decide
  /-- The copy constructor, if it returns. -/
  copy : W → V → Option V × W
  /-- The move constructor, if it returns, and what it leaves. -/
  move : W → V → Option V × V × W
  /-- `YORCH_ENABLE_ASSERTS`. -/
  asserts : Bool

namespace Program

variable (p : Program V W)

/-- `resolve_as` for the four prev-access specs: the argument, what is left of
the object it is resolved from, and the world. -/
def resolvePrev (binding : Spec × CppType) (v : V) (w : W) : Option V × V × W :=
  match binding.1.kind with
  | .copy => ((p.copy w v).1, v, (p.copy w v).2)
  | .consume =>
      -- a `T&&` argument is bound, a `T` argument is move constructed
      if binding.2 = .rvalueRef binding.1.payloadType then (some v, v, w) else p.move w v
  | .borrow | .borrowMut | .none => (some v, v, w)

/-- The callable gets a reference through which it can write. -/
def writable (binding : Spec × CppType) : Bool :=
  match binding.1.kind with
  | .borrowMut => true
  | .consume => binding.2 = .rvalueRef binding.1.payloadType
  | .borrow | .copy | .none => false

/-- `extract_step_result`. -/
def extractStepResult : (kind : RawKind) → kind.Result V → StepResult
  | .void, _ => .success
  | .step, step => step
  | .taskResult, raw => raw.step
  | .value, _ => .success

end Program

/-! ## §3. Attempts. -/

section Attempts

variable (api : SlotsApi V S) (p : Program V W)

/-- The object node `i`'s prev view is bound to. -/
def readPrev (i : Nat) (m : Machine S V) : Option V :=
  match p.plan.prevSource i with
  | none => none
  | some (.stage q) => m.stage q
  | some (.slot _) => api.get (p.plan.parentIndex i) m.slots

/-- A view of a staged copy reads the stage of the parent. -/
theorem readPrev_stage {i q : Nat} (h : p.plan.prevSource i = some (.stage q))
    (m : Machine S V) : readPrev api p i m = m.stage q := by
  unfold readPrev
  rw [h]

/-- A view of a slot reads it through the parent, also where the parent forwards. -/
theorem readPrev_slot {i o : Nat} (h : p.plan.prevSource i = some (.slot o))
    (m : Machine S V) : readPrev api p i m = api.get (p.plan.parentIndex i) m.slots := by
  unfold readPrev
  rw [h]

/-- Assign to the object node `i`'s prev view is bound to.  A view of a staged
copy is const. -/
def writePrev (i : Nat) (v : V) (m : Machine S V) : Machine S V :=
  match p.plan.prevSource i with
  | some (.slot _) =>
      if (readPrev api p i m).isSome then
        { m with slots := api.set (p.plan.parentIndex i) v m.slots }
      else m
  | _ => m

/-- An assignment is no event of memory. -/
@[simp] theorem writePrev_events (i : Nat) (v : V) (m : Machine S V) :
    (writePrev api p i v m).events = m.events := by
  unfold writePrev
  split
  · split <;> rfl
  · rfl

/-- A staged copy is never assigned to. -/
@[simp] theorem writePrev_stage (i : Nat) (v : V) (m : Machine S V) :
    (writePrev api p i v m).stage = m.stage := by
  unfold writePrev
  split
  · split <;> rfl
  · rfl

/-- What resolving a binding from source `source` does to the machine. -/
def resolveStep (i : Nat) (binding : Spec × CppType) (source : PrevSource) (arg : Option V)
    (left : V) (m : Machine S V) : Machine S V :=
  let m := m.record (.resolved i binding.1.kind source arg)
  if binding.1.isExclusive then writePrev api p i left m else m

/-- Resolution leaves one record, whatever the access. -/
@[simp] theorem resolveStep_events (i : Nat) (binding : Spec × CppType) (source : PrevSource)
    (arg : Option V) (left : V) (m : Machine S V) :
    (resolveStep api p i binding source arg left m).events
      = .resolved i binding.1.kind source arg :: m.events := by
  unfold resolveStep
  dsimp only
  split
  · rw [writePrev_events, Machine.record_events]
  · rfl

/-- Consuming from a slot leaves the stage alone. -/
@[simp] theorem resolveStep_stage (i : Nat) (binding : Spec × CppType) (source : PrevSource)
    (arg : Option V) (left : V) (m : Machine S V) :
    (resolveStep api p i binding source arg left m).stage = m.stage := by
  unfold resolveStep
  dsimp only
  split
  · rw [writePrev_stage, Machine.record_stage]
  · rfl

/-- Resolve a binding.  An argument that comes from the parent is returned. -/
def resolveAs (i : Nat) (binding : Spec × CppType) : Exec (Machine S V × W) (Option V) :=
  if binding.1.isPrevAccess then do
    let found ← look (readPrev api p i)
    match p.plan.prevSource i, found with
    | some source, some v => do
        let arg ← Exec.act fun s =>
          let (arg, left, w) := p.resolvePrev binding v s.2
          (arg, (resolveStep api p i binding source arg left s.1, w))
        if arg.isSome then pure arg else Exec.throw
    | _, _ => do
        onMachine fun m => m.violate (.missingSource i)
        Exec.halt
  else do
    let returned ← onWorld ((p.behaviour i).argument binding)
    if returned then pure none else Exec.throw

/-- Resolve bindings in order and collect the arguments from the parent. -/
def resolveAll (i : Nat) : List (Spec × CppType) → Exec (Machine S V × W) (List V)
  | [] => pure []
  | binding :: rest => do
      let arg ← resolveAs api p i binding
      let args ← resolveAll i rest
      pure (arg.toList ++ args)

/-- What the callable wrote through a mutable reference. -/
def writeBack (i : Nat) (written : Option V) (m : Machine S V) : Machine S V :=
  match written with
  | none => m
  | some v =>
      if (p.behaviour i).evaluated.any Program.writable then writePrev api p i v m else m

/-- What a callable writes through its arguments is no event of memory either. -/
@[simp] theorem writeBack_events (i : Nat) (written : Option V) (m : Machine S V) :
    (writeBack api p i written m).events = m.events := by
  unfold writeBack
  split
  · rfl
  · split
    · rw [writePrev_events]
    · rfl

@[simp] theorem writeBack_stage (i : Nat) (written : Option V) (m : Machine S V) :
    (writeBack api p i written m).stage = m.stage := by
  unfold writeBack
  split
  · rfl
  · split
    · rw [writePrev_stage]
    · rfl

/-- Record an attempt, with what the sink of a direct-output task holds. -/
def beginAttempt (i : Nat) (m : Machine S V) : Machine S V :=
  m.record (.attempted i
    (if (p.plan.task i).usesDirectOutputProtocol then some (api.outHasValue i m.slots) else none))

/-- `invoke_raw` of the bound tasks. -/
def attemptRaw (i : Nat) : Exec (Machine S V × W)
    ((p.plan.task i).bound.rawResultType.rawKind.Result V) := do
  onMachine (beginAttempt api p i)
  let args ← resolveAll api p i (p.behaviour i).evaluated
  let (exit, written) ← onWorld ((p.behaviour i).body args)
  onMachine (writeBack api p i written)
  Exec.ofExit exit

/-- `direct_out::emplace`, where the constructor returns. -/
def emplaceSink (i : Nat) (payload : Option V) (m : Machine S V) : Machine S V :=
  match payload with
  | none => m
  | some v => m.onSlots (api.outEmplace i v)

/-- The callable of a direct-output task, on the sink `out<i>()`. -/
def runSink (i : Nat) : SinkBody V W → Exec (Machine S V × W) StepResult
  | .finish exit written world => do
      onWorld fun _ => ((), world)
      onMachine (writeBack api p i written)
      Exec.ofExit exit
  | .hasValue next => do
      let live ← look fun m => api.outHasValue i m.slots
      runSink i (next live)
  | .emplace payload next => do
      contract p.asserts (.emplaceOverLive i) fun m => !api.outHasValue i m.slots
      onMachine (emplaceSink api i payload)
      runSink i next
  | .destroy next => do
      onMachine fun m => m.onSlots (api.outDestroy i)
      runSink i next

/-- `invoke_into` of the bound direct-output tasks. -/
def attemptInto (i : Nat) : Exec (Machine S V × W) StepResult := do
  onMachine (beginAttempt api p i)
  let args ← resolveAll api p i (p.behaviour i).evaluated
  let body ← onWorld fun w => ((p.behaviour i).sinkBody args w, w)
  runSink api p i body

/-- What the retry loop does before another attempt. -/
def cleanUpSink (i : Nat) (m : Machine S V) : Machine S V :=
  if api.outHasValue i m.slots then m.onSlots (api.outDestroy i) else m

/-- `invoke_into` of node `i`'s task. -/
def invokeNodeInto (fuel i : Nat) : Exec (Machine S V × W) StepResult :=
  invokeInto fuel (cleanUpSink api i) (attemptInto api p i) (p.plan.task i)
    (p.behaviour i).policiesInto

/-! ## §4. Entering a node. -/

/-- `finalize_direct_output_step`. -/
def finalizeDirectOutputStep (i : Nat) (step : StepResult) : Exec (Machine S V × W) StepResult :=
  if step.ok then do
    contract p.asserts (.missingOutput i) fun m => api.hasValue i m.slots
    pure step
  else do
    onMachine fun m => m.onSlots (api.destroy i)
    pure step

/-- Move a value into node `i`'s slot.  The slot is empty before: its own
assertion never fails. -/
def moveIntoSlot (i : Nat) (v : V) : Exec (Machine S V × W) Unit := do
  let stored ← onWorld fun w => ((p.move w v).1, (p.move w v).2.2)
  match stored with
  | none => Exec.throw
  | some v => onMachine fun m => m.onSlots (api.emplace i v)

/-- `store_node_output`, for a successful raw result. -/
def storeNodeOutput (i : Nat) : (kind : RawKind) → kind.Result V → Exec (Machine S V × W) Bool
  | .void, _ => pure false
  | .step, _ => pure false
  | .taskResult, raw =>
      match raw.value with
      | some v => do
          moveIntoSlot api p i v
          pure true
      | none => do
          onMachine fun m => m.violate (.missingResult i)
          Exec.halt
  | .value, v => do
      moveIntoSlot api p i v
      pure true

/-- What node `i`'s canonical slot holds. -/
def nodeOutput (i : Nat) (m : Machine S V) : Option V :=
  if (p.plan.outputType i).isVoid then none else api.get i m.slots

/-- Record that node `i`'s task has succeeded. -/
def finishNode (i : Nat) (m : Machine S V) : Machine S V :=
  m.record (.finished i (nodeOutput api p i m))

/-- `enter_node<I>` for a direct-output task.  `invoke_into` is `noexcept`. -/
def enterInto (fuel i : Nat) : Exec (Machine S V × W) NodeEnterResult := do
  let step ← Exec.noexcept (invokeNodeInto api p fuel i)
  let step ← finalizeDirectOutputStep api p i step
  if step.ok then do
    -- `payload_live` is the status, whatever the slot holds
    onMachine (finishNode api p i)
    pure (.succeeded true)
  else
    pure (.unsuccessful step)

/-- `enter_node<I>` for any other task.  `invoke_raw` is `noexcept`; storing the
payload is not. -/
def enterRaw (fuel i : Nat) : Exec (Machine S V × W) NodeEnterResult := do
  let raw ← Exec.noexcept (invokeRaw fuel (p.plan.task i) (p.behaviour i).policies
    (attemptRaw api p i))
  if (Program.extractStepResult (p.plan.task i).rawKind raw).ok then do
    let payloadLive ← storeNodeOutput api p i (p.plan.task i).rawKind raw
    onMachine (finishNode api p i)
    pure (.succeeded payloadLive)
  else
    pure (.unsuccessful (Program.extractStepResult (p.plan.task i).rawKind raw))

/-- `enter_node<I>`. -/
def enterNode (fuel i : Nat) : Exec (Machine S V × W) NodeEnterResult := do
  onMachine fun m => m.record (.entered i (readPrev api p i m))
  if (p.plan.task i).usesDirectOutputProtocol then
    enterInto api p fuel i
  else
    enterRaw api p fuel i

/-! ## §5. Runs. -/

/-- The body of `prepare_fanout_staging<I>`. -/
def stageFanout (i : Nat) : Exec (Machine S V × W) Unit := do
  let found ← look fun m => api.get i m.slots
  match found with
  | none => do
      onMachine fun m => m.violate (.missingSource i)
      Exec.halt
  | some v => do
      let copied ← onWorld fun w => p.copy w v
      match copied with
      | none => Exec.throw
      | some v => onMachine fun m => m.emplaceStage i v

/-- The node operations of a run. -/
def nodeOps (fuel : Nat) : DfsOps (Machine S V × W) where
  enterNode := enterNode api p fuel
  destroyPayload i s := (s.1.onSlots (api.destroy i), s.2)
  requiresStaging := p.plan.parentRequiresFanoutStaging
  stage := stageFanout api p
  unstage i s := (s.1.destroyStage i, s.2)

/-- `exec_policy`. -/
inductive ExecPolicy where
  | serialDfsRecursive
  | serialDfsExplicitHeapStack
  deriving Repr, DecidableEq

/-- The destructors of the fanout state and of the slots. -/
def leaveRun (m : Machine S V) : Machine S V :=
  ((List.range p.plan.nodeCount).foldl (fun m i => m.destroyStage i) m).onSlots
    api.destroyActiveSlots

/-- `run_plan`. -/
def runPlan (exec : ExecPolicy) (fuel : Nat) : Exec (Machine S V × W) StepResult :=
  Exec.onExit true (fun s => (leaveRun api p s.1, s.2)) <|
    match exec with
    | .serialDfsRecursive => runNode p.plan.toPlanShape (nodeOps api p fuel) 0
    | .serialDfsExplicitHeapStack =>
        runExplicitHeapStack p.plan.toPlanShape (nodeOps api p fuel)

/-- Whether an exception unwinds the executor's frames. -/
def ExecPolicy.unwinds : ExecPolicy → Bool
  | .serialDfsRecursive => true
  | .serialDfsExplicitHeapStack => false

/-- The traversal a run performs before its destructors. -/
def traversal (exec : ExecPolicy) (fuel : Nat) :
    Exec (Machine S V × W) StepResult :=
  dfsNode exec.unwinds (nodeOps api p fuel) 0
    (dfsChildren exec.unwinds (nodeOps api p fuel) p.plan.below)

/-- A run is its traversal and the destructors. -/
theorem runPlan_eq (exec : ExecPolicy) (fuel : Nat) :
    runPlan api p exec fuel
      = Exec.onExit true (fun s => (leaveRun api p s.1, s.2)) (traversal api p exec fuel) := by
  cases exec with
  | serialDfsRecursive => rw [runPlan, traversal, runNode_root]; rfl
  | serialDfsExplicitHeapStack => rw [runPlan, traversal, runExplicitHeapStack_eq_dfs]; rfl

/-- A run from its start in the world `w`. -/
def runFrom (exec : ExecPolicy) (fuel : Nat) (w : W) : Exit StepResult × Machine S V × W :=
  runPlan api p exec fuel ({ slots := api.initial }, w)

/-- `run_task` of node `i`'s task, which has to be `noexcept`. -/
def runTask (fuel i : Nat) : Exec (Machine S V × W) StepResult := do
  let raw ← Exec.noexcept (invokeRaw fuel (p.plan.task i) (p.behaviour i).policies
    (attemptRaw api p i))
  pure (Program.extractStepResult (p.plan.task i).rawKind raw)

variable {api p} in
/-- A node is unsuccessful in a plan exactly if its task is outside of one. -/
theorem enterRaw_unsuccessful_iff {fuel i : Nat} {step : StepResult} {s s' : Machine S V × W}
    (hfailed : step.ok = false) :
    enterRaw api p fuel i s = (.ret (.unsuccessful step), s')
      ↔ runTask api p fuel i s = (.ret step, s') := by
  constructor
  · intro h
    obtain ⟨raw, t, hraw, h⟩ := Exec.bind_eq_ret.mp h
    refine Exec.bind_eq_ret.mpr ⟨raw, t, hraw, ?_⟩
    cases hok : (Program.extractStepResult (p.plan.task i).rawKind raw).ok with
    | true =>
        -- storing the payload does not change the status
        rw [if_pos hok] at h
        obtain ⟨live, u, -, h⟩ := Exec.bind_eq_ret.mp h
        obtain ⟨_, _, -, h⟩ := Exec.bind_eq_ret.mp h
        obtain rfl : StepResult.success = step :=
          congrArg NodeEnterResult.step (Exit.ret.inj (congrArg Prod.fst h))
        cases hfailed
    | false =>
        rw [if_neg (by simp [hok])] at h
        obtain rfl := congrArg NodeEnterResult.step (Exit.ret.inj (congrArg Prod.fst h))
        exact congrArg (Prod.mk _) (congrArg Prod.snd h)
  · intro h
    obtain ⟨raw, t, hraw, h⟩ := Exec.bind_eq_ret.mp h
    obtain rfl := Exit.ret.inj (congrArg Prod.fst h)
    refine Exec.bind_eq_ret.mpr ⟨raw, t, hraw, ?_⟩
    rw [if_neg (by simp [hfailed])]
    exact congrArg (Prod.mk _) (congrArg Prod.snd h)

/-- `run_task_into` of node `i`'s bound task under the adapters of `task`, on the
sink `out<i>()`. -/
def runTaskInto (fuel i : Nat) (task : Task) (policies : task.Policies (fun _ => StepResult) W) :
    Exec (Machine S V × W) StepResult := do
  let step ← invokeInto fuel (cleanUpSink api i) (attemptInto api p i) task policies
  if step.ok then do
    contract p.asserts (.missingOutput i) fun m => api.outHasValue i m.slots
    pure step
  else do
    onMachine (cleanUpSink api i)
    pure step

end Attempts

end YOrch
