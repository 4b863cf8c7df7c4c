/-
  YOrch.TaskTree.Builder — what a chain of builder calls records.

  `task_tree.root(f)(specs...).node<1>(g, policy, adapters(...))(specs...)` is a
  plan written down in preorder, with the level of every node.  Each call is one
  of eight forms, at a level or as the root, with an optional fanout policy and,
  for callables, an adapter chain.  Proved:

    • `applyAdapters_chain`, `chain_applyAdapters` — adapter chains and adapter
      stacks are the same thing, the first descriptor innermost,
    • `call_ok_iff` — every form records the node its builder yields,
    • `fluent_trees` — the call chains that compile are the labelled trees, and
      the compiled plan is the tree that was written.
-/
import YOrch.Bind.Builders
import YOrch.Plan.Acceptance
import Mathlib.Data.Set.List

namespace YOrch.TaskTree

open Library Builders

/-! ## §1. Adapter chains. -/

/-- What `adapt_retry` and the two overloads of `adapt_catch_as_failure` make.  Of
a catch policy only the type it returns is kept. -/
inductive AdapterDesc where
  | retry
  | catchAsFailure
  | catchAsFailureWithPolicy (policyResult : CppType)
  deriving Repr, DecidableEq

/-- `apply_adapter`. -/
def applyAdapter : AdapterDesc → Task → Task
  | .retry, task => .retryTask task
  | .catchAsFailure, task => .catchFailureTask task
  | .catchAsFailureWithPolicy policyResult, task => .catchFailureWithPolicyTask policyResult task

/-- `apply_adapters_from_const<I>`.  `std::get<I - 1>` is in range. -/
def applyAdaptersFrom (task : Task) (descriptors : List AdapterDesc) : Nat → Task
  | 0 => task
  | i + 1 =>
      match descriptors[i]? with
      | some desc => applyAdapter desc (applyAdaptersFrom task descriptors i)
      | none => applyAdaptersFrom task descriptors i

/-- `apply_adapters`. -/
def applyAdapters (task : Task) (descriptors : List AdapterDesc) : Task :=
  applyAdaptersFrom task descriptors descriptors.length

/-- The chain an adapter stack is written with. -/
def chain : Task → List AdapterDesc
  | .base _ => []
  | .retryTask task => chain task ++ [.retry]
  | .catchFailureTask task => chain task ++ [.catchAsFailure]
  | .catchFailureWithPolicyTask policyResult task =>
      chain task ++ [.catchAsFailureWithPolicy policyResult]

theorem applyAdaptersFrom_take (task : Task) (descriptors : List AdapterDesc) :
    ∀ i, applyAdaptersFrom task descriptors i
      = (descriptors.take i).foldl (fun task desc => applyAdapter desc task) task
  | 0 => rfl
  | i + 1 => by
      rw [applyAdaptersFrom, List.take_add_one, List.foldl_append, applyAdaptersFrom_take]
      cases descriptors[i]? <;> rfl

/-- The first descriptor is applied first. -/
theorem applyAdapters_eq (task : Task) (descriptors : List AdapterDesc) :
    applyAdapters task descriptors
      = descriptors.foldl (fun task desc => applyAdapter desc task) task := by
  rw [applyAdapters, applyAdaptersFrom_take, List.take_length]

theorem applyAdapters_concat (task : Task) (descriptors : List AdapterDesc) (desc : AdapterDesc) :
    applyAdapters task (descriptors ++ [desc])
      = applyAdapter desc (applyAdapters task descriptors) := by
  rw [applyAdapters_eq, applyAdapters_eq, List.foldl_append]
  rfl

/-- **Every adapter stack is written by its chain.** -/
theorem applyAdapters_chain : ∀ task : Task, applyAdapters (.base task.bound) (chain task) = task
  | .base _ => rfl
  | .retryTask task | .catchFailureTask task | .catchFailureWithPolicyTask _ task => by
      rw [chain, applyAdapters_concat]
      exact congrArg _ (applyAdapters_chain task)

/-- **And by no other one.** -/
theorem chain_applyAdapters (task : BaseTask) (descriptors : List AdapterDesc) :
    chain (applyAdapters (.base task) descriptors) = descriptors := by
  induction descriptors using List.reverseRecOn with
  | nil => rfl
  | append_singleton descriptors desc ih =>
      rw [applyAdapters_concat]
      cases desc <;> exact congrArg (· ++ _) ih

/-- Adapters leave the bound task alone. -/
theorem bound_applyAdapters (task : Task) (descriptors : List AdapterDesc) :
    (applyAdapters task descriptors).bound = task.bound := by
  induction descriptors using List.reverseRecOn with
  | nil => rfl
  | append_singleton descriptors desc ih =>
      rw [applyAdapters_concat]
      cases desc <;> exact ih

/-! ## §2. Recording nodes. -/

/-- `task_tree_node<Level, Task, FanoutPolicy>`. -/
structure TaskTreeNode extends TreeNode where
  fanoutPolicy : FanoutPolicy
  deriving Repr, DecidableEq

/-- `task_tree_builder<Nodes...>`: what has been recorded at valid levels. -/
@[ext] structure TaskTreeBuilder where
  nodes : List TaskTreeNode
  recorded : (recordLevels (nodes.map fun node => node.level)).isSome

namespace TaskTreeBuilder

/-- `task_tree`. -/
def taskTree : TaskTreeBuilder where
  nodes := []
  recorded := by decide

variable (tree : TaskTreeBuilder)

def levels : List Nat := tree.nodes.map fun node => node.level

/-- The overloads of `node<Level>` and `node_into<Level>` for task objects that
satisfy `argument`.  Without a fanout policy the node has the automatic one. -/
def nodeObject (argument : Task → Bool) (level : Nat) (task : Task)
    (fanoutPolicy : Option FanoutPolicy) : Except BuildError TaskTreeBuilder :=
  if h : appendLevelValid level tree.levels then
    constrained (argument task) <| .ok {
      nodes := tree.nodes ++ [⟨⟨level, task⟩, fanoutPolicy.getD .auto⟩]
      recorded := by
        rw [List.map_append]
        exact (recordLevels_append_iff _ level).mpr ⟨tree.recorded, h⟩ }
  else
    .error .noOverload

/-- `node<Level>(task)`, `node<Level>(task, fanout_policy)`. -/
def node (level : Nat) (task : Task) (fanoutPolicy : Option FanoutPolicy) :
    Except BuildError TaskTreeBuilder :=
  -- `ordinary_task_object_argument`
  tree.nodeObject (fun task => !task.usesDirectOutputProtocol) level task fanoutPolicy

/-- `node_into<Level>(task)`, `node_into<Level>(task, fanout_policy)`. -/
def nodeInto (level : Nat) (task : Task) (fanoutPolicy : Option FanoutPolicy) :
    Except BuildError TaskTreeBuilder :=
  -- `direct_output_task_object_argument`
  tree.nodeObject Task.usesDirectOutputProtocol level task fanoutPolicy

end TaskTreeBuilder

/-! ## §3. Binders. -/

section Binders

variable (append : Task → Except BuildError TaskTreeBuilder) (adapt : Task → Task)

/-- `tree_node_binder`. -/
def treeNodeBinder (f : Callable) (specs : List Spec) : Except BuildError TaskTreeBuilder :=
  binderCall append adapt (f.bindSignatureMatches specs) (task f specs)

/-- `tree_node_forward_prev_binder`. -/
def treeNodeForwardPrevBinder (f : Callable) (specs : List Spec) :
    Except BuildError TaskTreeBuilder :=
  binderCall append adapt (f.inferredForwardPrevSignatureMatches specs) (taskForwardPrev f specs)

/-- `tree_node_member_receiver_binder`. -/
def treeNodeMemberReceiverBinder (f : Callable) (receiver : Spec) (specs : List Spec) :
    Except BuildError TaskTreeBuilder :=
  binderCall append adapt (f.memberBoundSignatureMatches specs) (taskMember f receiver specs)

/-- `tree_node_forward_prev_member_receiver_binder`. -/
def treeNodeForwardPrevMemberReceiverBinder (f : Callable) (receiver : Spec) (specs : List Spec) :
    Except BuildError TaskTreeBuilder :=
  binderCall append adapt (f.memberBoundSignatureMatches specs)
    (taskForwardPrevMember f receiver specs)

end Binders

/-! ## §4. Calls. -/

/-- The forms of `node` and `root`. -/
inductive NodeForm where
  /-- `node<Level>(task)`. -/
  | object (task : Task)
  /-- `node_into<Level>(task)`. -/
  | objectInto (task : Task)
  /-- `node<Level>(f)(specs...)`. -/
  | plain (f : Callable) (specs : List Spec)
  /-- `node_into<Level>(f)(specs...)`. -/
  | into (f : Callable) (specs : List Spec)
  /-- `node_forward_prev<Level>(f)(specs...)`. -/
  | forwardPrev (f : Callable) (specs : List Spec)
  /-- `node_member<Level>(f, receiver)(specs...)`. -/
  | member (f : Callable) (receiver : Spec) (specs : List Spec)
  /-- `node_into_member<Level>(f, receiver)(specs...)`. -/
  | intoMember (f : Callable) (receiver : Spec) (specs : List Spec)
  /-- `node_forward_prev_member<Level>(f, receiver)(specs...)`. -/
  | forwardPrevMember (f : Callable) (receiver : Spec) (specs : List Spec)
  deriving Repr, DecidableEq

/-- What a call says of its node.  An object comes with its adapters. -/
structure NodeArgs where
  form : NodeForm
  fanoutPolicy : Option FanoutPolicy := none
  adapterSpecs : List AdapterDesc := []
  deriving Repr, DecidableEq

/-- A call: `node...<level>` or, without a level, `root...`. -/
structure Call extends NodeArgs where
  level : Option Nat
  deriving Repr, DecidableEq

/-- The concept a form's first argument satisfies. -/
def NodeForm.argument : NodeForm → Bool
  | .object task => !task.usesDirectOutputProtocol
  | .objectInto task => task.usesDirectOutputProtocol
  | .plain f _ | .forwardPrev f _ => f.ordinaryBindCallable
  | .into f _ => f.inferableDirectOutputCallable
  | .member f _ _ | .forwardPrevMember f _ _ => f.ordinaryMemberBindCallable
  | .intoMember f _ _ => f.inferableDirectOutputMemberCallable

/-- The node a form appends, once its overload is chosen. -/
def NodeForm.append (tree : TaskTreeBuilder) (level : Nat) (fanoutPolicy : Option FanoutPolicy)
    (adapterSpecs : List AdapterDesc) (form : NodeForm) : Except BuildError TaskTreeBuilder :=
  let node := fun task => tree.node level task fanoutPolicy
  let nodeInto := fun task => tree.nodeInto level task fanoutPolicy
  let adapt := fun task => applyAdapters task adapterSpecs
  match form with
  | .object task => node task
  | .objectInto task => nodeInto task
  | .plain f specs => treeNodeBinder node adapt f specs
  | .into f specs => treeNodeIntoBinder nodeInto adapt f specs
  | .forwardPrev f specs => treeNodeForwardPrevBinder node adapt f specs
  | .member f receiver specs => treeNodeMemberReceiverBinder node adapt f receiver specs
  | .intoMember f receiver specs => treeNodeIntoMemberReceiverBinder nodeInto adapt f receiver specs
  | .forwardPrevMember f receiver specs =>
      treeNodeForwardPrevMemberReceiverBinder node adapt f receiver specs

/-- One call on a builder.  `root` wants it empty and records at level zero. -/
def TaskTreeBuilder.call (tree : TaskTreeBuilder) (call : Call) :
    Except BuildError TaskTreeBuilder :=
  match call.level with
  | none =>
      constrained (tree.nodes.isEmpty && call.form.argument) <|
        call.form.append tree 0 call.fanoutPolicy call.adapterSpecs
  | some level =>
      constrained (appendLevelValid level tree.levels && call.form.argument) <|
        call.form.append tree level call.fanoutPolicy call.adapterSpecs

/-- A chain of calls on `task_tree`. -/
def record (calls : List Call) : Except BuildError TaskTreeBuilder :=
  calls.foldlM TaskTreeBuilder.call .taskTree

/-! ## §5. What a call records. -/

/-- The task a call is about: an object of the right kind, or what the builder of
the same name yields under the adapters. -/
def NodeArgs.task (args : NodeArgs) : Except BuildError Task :=
  match args.form with
  | .object task => constrained (!task.usesDirectOutputProtocol) (.ok task)
  | .objectInto task => constrained task.usesDirectOutputProtocol (.ok task)
  | .plain f specs => adapted (Builders.task f specs)
  | .into f specs => adapted (taskInto f specs)
  | .forwardPrev f specs => adapted (taskForwardPrev f specs)
  | .member f receiver specs => adapted (taskMember f receiver specs)
  | .intoMember f receiver specs => adapted (taskIntoMember f receiver specs)
  | .forwardPrevMember f receiver specs => adapted (taskForwardPrevMember f receiver specs)
where
  adapted (built : Except BuildError BaseTask) : Except BuildError Task :=
    built.map fun task => applyAdapters (.base task) args.adapterSpecs

/-- The level a call records at. -/
def Call.depth (call : Call) : Nat := call.level.getD 0

/-- The node a call records. -/
def Call.nodeOf (call : Call) (task : Task) : TaskTreeNode :=
  ⟨⟨call.depth, task⟩, call.fanoutPolicy.getD .auto⟩

/-- A builder's task satisfies the concept of its form and the signature of its
binder, and is of the binder's kind. -/
structure Fits (argument signature direct : Bool) (built : Except BuildError BaseTask) : Prop where
  argument : ∀ task, built = .ok task → argument = true
  signature : ∀ task, built = .ok task → signature = true
  kind : ∀ task, built = .ok task → (task.outputProtocol == .directOutput) = direct

theorem fits_constrained {argument signature direct : Bool} {built : Except BuildError BaseTask}
    (hkind : ∀ task, built = .ok task → (task.outputProtocol == .directOutput) = direct) :
    Fits argument signature direct (constrained argument (constrained signature built)) where
  argument _ h := (constrained_ok_iff.mp h).1
  signature _ h := (constrained_ok_iff.mp (constrained_ok_iff.mp h).2).1
  kind task h := hkind task (constrained_ok_iff.mp (constrained_ok_iff.mp h).2).2

theorem fits_inferOutput {f : Callable} {argument signature : Bool}
    {bindAs : CppType → Except BuildError BaseTask}
    (hkind : ∀ T task, bindAs T = .ok task → (task.outputProtocol == .directOutput) = true) :
    Fits argument signature true (constrained argument (inferOutput f signature bindAs)) where
  argument _ h := (constrained_ok_iff.mp h).1
  signature _ h := (inferOutput_ok_iff.mp (constrained_ok_iff.mp h).2).1
  kind task h := by
    obtain ⟨-, T, -, hbuilt⟩ := inferOutput_ok_iff.mp (constrained_ok_iff.mp h).2
    exact hkind T task hbuilt

/-- What a factory yields is the task it was given. -/
theorem factory_task {ε : Type} [DecidableEq ε] {error ok : ε} {diagnostic : ε → BuildError}
    {task built : BaseTask} (h : factory error ok diagnostic task = .ok built) : built = task :=
  (factory_ok_iff.mp h).2

section Forms

variable (f : Callable) (receiver : Spec) (specs : List Spec)

theorem fits_task : Fits f.ordinaryBindCallable (f.bindSignatureMatches specs) false
    (Builders.task f specs) :=
  fits_constrained fun _ h => by rw [factory_task h]; rfl

theorem fits_taskInto : Fits f.inferableDirectOutputCallable
    (f.inferredBindIntoSignatureMatches specs) true (taskInto f specs) :=
  fits_inferOutput fun _ _ h => by rw [factory_task h]; rfl

theorem fits_taskForwardPrev : Fits f.ordinaryBindCallable
    (f.inferredForwardPrevSignatureMatches specs) false (taskForwardPrev f specs) :=
  fits_constrained fun _ h => by rw [factory_task (inferPrevPayload_ok h)]; rfl

theorem fits_taskMember : Fits f.ordinaryMemberBindCallable (f.memberBoundSignatureMatches specs)
    false (taskMember f receiver specs) :=
  fits_constrained fun _ h => by rw [factory_task h]; rfl

theorem fits_taskIntoMember : Fits f.inferableDirectOutputMemberCallable
    (f.inferredMemberBoundIntoSignatureMatches specs) true (taskIntoMember f receiver specs) :=
  fits_inferOutput fun _ _ h => by rw [factory_task h]; rfl

theorem fits_taskForwardPrevMember : Fits f.ordinaryMemberBindCallable
    (f.memberBoundSignatureMatches specs) false (taskForwardPrevMember f receiver specs) :=
  fits_constrained fun _ h => by rw [factory_task (inferPrevPayload_ok h)]; rfl

end Forms

section Append

variable {tree tree' : TaskTreeBuilder} {level : Nat} {fanoutPolicy : Option FanoutPolicy}
  {adapterSpecs : List AdapterDesc}

theorem nodeObject_ok_iff {argument : Task → Bool} {task : Task} :
    tree.nodeObject argument level task fanoutPolicy = .ok tree' ↔
      appendLevelValid level tree.levels ∧ argument task
        ∧ tree'.nodes = tree.nodes ++ [⟨⟨level, task⟩, fanoutPolicy.getD .auto⟩] := by
  unfold TaskTreeBuilder.nodeObject
  split
  · next hvalid =>
      rw [constrained_ok_iff, Except.ok.injEq, TaskTreeBuilder.ext_iff]
      exact ⟨fun h => ⟨hvalid, h.1, h.2.symm⟩, fun h => ⟨h.2.1, h.2.2.symm⟩⟩
  · next hinvalid => exact ⟨nofun, fun h => absurd h.1 hinvalid⟩

/-- A callable's form, under the concepts its overload asks for. -/
theorem callable_ok_iff {argument signature direct : Bool} {built : Except BuildError BaseTask}
    (hfits : Fits argument signature direct built) {kind : Task → Bool}
    (hkind : ∀ task, kind task = (task.usesDirectOutputProtocol == direct)) :
    constrained (appendLevelValid level tree.levels && argument)
        (binderCall (fun task => tree.nodeObject kind level task fanoutPolicy)
          (fun task => applyAdapters task adapterSpecs) signature built) = .ok tree' ↔
      appendLevelValid level tree.levels
        ∧ ∃ task, built.map (fun task => applyAdapters (.base task) adapterSpecs) = .ok task
          ∧ tree'.nodes = tree.nodes ++ [⟨⟨level, task⟩, fanoutPolicy.getD .auto⟩] := by
  rw [constrained_ok_iff, Bool.and_eq_true, binderCall, constrained_ok_iff]
  cases built with
  | error e =>
      constructor
      · rintro ⟨-, -, h⟩
        cases h
      · rintro ⟨-, _, h, -⟩
        cases h
  | ok task =>
      -- the adapters keep the kind of the task, which is its binder's
      have hbind : ((Except.ok task : Except BuildError BaseTask) >>= fun task =>
          tree.nodeObject kind level (applyAdapters (.base task) adapterSpecs) fanoutPolicy)
          = tree.nodeObject kind level (applyAdapters (.base task) adapterSpecs) fanoutPolicy := rfl
      have hadapted : kind (applyAdapters (.base task) adapterSpecs) = true := by
        rw [hkind, Task.usesDirectOutputProtocol, Task.outputProtocol, bound_applyAdapters]
        exact beq_iff_eq.mpr (hfits.kind task rfl)
      rw [hbind, nodeObject_ok_iff]
      constructor
      · rintro ⟨⟨hvalid, -⟩, -, -, -, hnodes⟩
        exact ⟨hvalid, _, rfl, hnodes⟩
      · rintro ⟨hvalid, _, hok, hnodes⟩
        obtain rfl := Except.ok.inj hok
        exact ⟨⟨hvalid, hfits.argument task rfl⟩, hfits.signature task rfl, hvalid, hadapted,
          hnodes⟩

/-- A task object's form, under the concept of its overload. -/
theorem object_ok_iff (argument : Task → Bool) {task : Task} :
    constrained (appendLevelValid level tree.levels && argument task)
        (tree.nodeObject argument level task fanoutPolicy) = .ok tree' ↔
      appendLevelValid level tree.levels
        ∧ ∃ built, constrained (argument task) (.ok task) = .ok built
          ∧ tree'.nodes = tree.nodes ++ [⟨⟨level, built⟩, fanoutPolicy.getD .auto⟩] := by
  rw [constrained_ok_iff, Bool.and_eq_true, nodeObject_ok_iff]
  constructor
  · rintro ⟨⟨hvalid, hargument⟩, -, -, hnodes⟩
    exact ⟨hvalid, task, constrained_ok_iff.mpr ⟨hargument, rfl⟩, hnodes⟩
  · rintro ⟨hvalid, built, hbuilt, hnodes⟩
    obtain ⟨hargument, hbuilt⟩ := constrained_ok_iff.mp hbuilt
    obtain rfl := Except.ok.inj hbuilt
    exact ⟨⟨hvalid, hargument⟩, hvalid, hargument, hnodes⟩

end Append

/-- `root` is `node<0>` of the empty builder. -/
theorem call_eq (tree : TaskTreeBuilder) (call : Call) :
    tree.call call = constrained (appendLevelValid call.depth tree.levels && call.form.argument)
      (call.form.append tree call.depth call.fanoutPolicy call.adapterSpecs) := by
  obtain ⟨args, level | level⟩ := call
  · have hempty : tree.nodes.isEmpty = appendLevelValid 0 tree.levels := by
      unfold appendLevelValid TaskTreeBuilder.levels
      rcases tree.nodes.eq_nil_or_concat with hnodes | ⟨nodes, last, hnodes⟩
      · rw [hnodes]
        rfl
      · rw [hnodes, List.concat_eq_append, List.map_append, List.map_singleton,
          List.getLast?_concat]
        simp
    show constrained (tree.nodes.isEmpty && args.form.argument) _ = _
    rw [hempty]
    rfl
  · rfl

/-- **A call records the node of its task**, where its level can follow. -/
theorem call_ok_iff {tree tree' : TaskTreeBuilder} {call : Call} :
    tree.call call = .ok tree' ↔
      appendLevelValid call.depth tree.levels
        ∧ ∃ task, call.task = .ok task ∧ tree'.nodes = tree.nodes ++ [call.nodeOf task] := by
  have hordinary : ∀ task : Task,
      (!task.usesDirectOutputProtocol) = (task.usesDirectOutputProtocol == false) := by
    intro task
    cases task.usesDirectOutputProtocol <;> rfl
  have hdirect : ∀ task : Task,
      task.usesDirectOutputProtocol = (task.usesDirectOutputProtocol == true) := by
    intro task
    cases task.usesDirectOutputProtocol <;> rfl
  rw [call_eq]
  obtain ⟨⟨form, fanoutPolicy, adapterSpecs⟩, level⟩ := call
  cases form with
  | object task => exact object_ok_iff fun task => !task.usesDirectOutputProtocol
  | objectInto task => exact object_ok_iff Task.usesDirectOutputProtocol
  | plain f specs => exact callable_ok_iff (fits_task f specs) hordinary
  | into f specs => exact callable_ok_iff (fits_taskInto f specs) hdirect
  | forwardPrev f specs => exact callable_ok_iff (fits_taskForwardPrev f specs) hordinary
  | member f receiver specs => exact callable_ok_iff (fits_taskMember f receiver specs) hordinary
  | intoMember f receiver specs =>
      exact callable_ok_iff (fits_taskIntoMember f receiver specs) hdirect
  | forwardPrevMember f receiver specs =>
      exact callable_ok_iff (fits_taskForwardPrevMember f receiver specs) hordinary

/-! ## §6. What a chain of calls records. -/

/-- The node a call is about, if its task can be built. -/
def Call.node (call : Call) : Except BuildError TaskTreeNode := call.task.map call.nodeOf

theorem node_ok_iff {call : Call} {node : TaskTreeNode} : call.node = .ok node ↔
    ∃ task, call.task = .ok task ∧ node = call.nodeOf task := by
  unfold Call.node
  cases call.task with
  | error e => exact ⟨nofun, fun ⟨_, h, _⟩ => nomatch h⟩
  | ok task =>
      exact ⟨fun h => ⟨task, rfl, (Except.ok.inj h).symm⟩,
        fun ⟨_, htask, h⟩ => Except.ok.inj htask ▸ congrArg Except.ok h.symm⟩

theorem levels_of_nodes {calls : List Call} : ∀ {nodes : List TaskTreeNode},
    calls.map Call.node = nodes.map .ok →
      (nodes.map fun node => node.level) = calls.map Call.depth := by
  induction calls with
  | nil =>
      intro nodes h
      rw [List.map_eq_nil_iff.mp h.symm]
      rfl
  | cons call calls ih =>
      intro nodes h
      cases nodes with
      | nil => cases h
      | cons node nodes =>
          obtain ⟨hnode, hnodes⟩ := List.cons.inj h
          obtain ⟨task, -, rfl⟩ := node_ok_iff.mp hnode
          rw [List.map_cons, List.map_cons, ih hnodes]
          rfl

theorem record_concat (calls : List Call) (call : Call) :
    record (calls ++ [call]) = (record calls >>= fun tree => tree.call call) := by
  simp only [record, List.foldlM_append, List.foldlM_cons, List.foldlM_nil, bind_pure]

/-- **A chain records one node for each call**, in order, if the levels follow
each other and every task can be built. -/
theorem record_ok_iff {calls : List Call} {tree : TaskTreeBuilder} :
    record calls = .ok tree ↔
      (recordLevels (calls.map Call.depth)).isSome
        ∧ calls.map Call.node = tree.nodes.map .ok := by
  induction calls using List.reverseRecOn generalizing tree with
  | nil =>
      have hrecord : record [] = .ok .taskTree := rfl
      rw [hrecord, Except.ok.injEq, TaskTreeBuilder.ext_iff, List.map_nil, List.map_nil,
        eq_comm (b := tree.nodes.map _), List.map_eq_nil_iff, eq_comm]
      exact ⟨fun h => ⟨rfl, h⟩, fun h => h.2⟩
  | append_singleton calls call ih =>
      have hbind : record (calls ++ [call]) = .ok tree ↔
          ∃ before, record calls = .ok before ∧ before.call call = .ok tree := by
        rw [record_concat]
        cases record calls with
        | error e => exact ⟨nofun, fun ⟨_, h, _⟩ => nomatch h⟩
        | ok before =>
            exact ⟨fun h => ⟨before, rfl, h⟩, fun ⟨_, hbefore, h⟩ => Except.ok.inj hbefore ▸ h⟩
      rw [hbind, List.map_append, List.map_append, List.map_singleton, List.map_singleton,
        recordLevels_append_iff]
      constructor
      · rintro ⟨before, hbefore, hcall⟩
        obtain ⟨hlevels, hnodes⟩ := ih.mp hbefore
        obtain ⟨hvalid, task, htask, htree⟩ := call_ok_iff.mp hcall
        refine ⟨⟨hlevels, ?_⟩, ?_⟩
        · rwa [← levels_of_nodes hnodes]
        · rw [htree, List.map_append, hnodes, Call.node, htask]
          rfl
      · rintro ⟨⟨hlevels, hvalid⟩, hnodes⟩
        obtain ⟨nodes, lasts, htree, hinit, hlasts⟩ := List.map_eq_append_iff.mp hnodes.symm
        obtain ⟨last, rfl, hlast⟩ := List.map_eq_singleton_iff.mp hlasts
        obtain ⟨task, htask, rfl⟩ := node_ok_iff.mp hlast.symm
        have hdepths := levels_of_nodes hinit.symm
        -- what is recorded before the last call
        let before : TaskTreeBuilder := ⟨nodes, by rwa [hdepths]⟩
        refine ⟨before, ih.mpr ⟨hlevels, hinit.symm⟩, call_ok_iff.mpr ⟨?_, task, htask, htree⟩⟩
        show appendLevelValid call.depth (nodes.map fun node => node.level)
        rwa [hdepths]

/-! ## §7. Chains are labelled trees. -/

namespace TaskTreeBuilder

variable (tree : TaskTreeBuilder)

/-- `entry<I>()`.  An index out of range does not compile. -/
def entry (i : Nat) : TaskTreeNode :=
  tree.nodes.getD i ⟨⟨0, .base (.boundTask .unsupported [])⟩, .auto⟩

/-- `compiled_plan_t<Tree>` of a populated builder, with the builder's nodes. -/
def compiledPlan : Option CompiledPlan :=
  if h : tree.nodes ≠ [] then
    some {
      levels := tree.levels
      nonempty := fun hlevels => h (List.map_eq_nil_iff.mp hlevels)
      accepted := tree.recorded
      task := fun i => (tree.entry i).task
      fanoutPolicy := fun i => (tree.entry i).fanoutPolicy }
  else none

/-- `compile_plan`.  `emit_plan_diagnostic` fails for a plan that `validate_plan`
finds an error in, and `validate_plan` names the output type of every node, which
`task_output_type` asserts is not made of a reference. -/
def compilePlan : Option CompiledPlan :=
  tree.compiledPlan.filter fun plan => plan.outputTypesFormed && plan.compilePlanAccepts

end TaskTreeBuilder

/-- The chain spells a tree: its nodes in preorder, each at its depth. -/
def Writes (calls : List Call) (t : Forest NodeArgs) : Prop :=
  calls.map Call.toNodeArgs = t.preorder ∧ calls.map Call.depth = t.depths 0

/-- What a node of the tree asks for: a task and a fanout policy. -/
def NodeArgs.label (args : NodeArgs) : Except BuildError (Task × FanoutPolicy) :=
  args.task.map fun task => (task, args.fanoutPolicy.getD .auto)

/-- The tasks and policies of a compiled plan, hung on its tree. -/
def labels (plan : CompiledPlan) : Forest (Except BuildError (Task × FanoutPolicy)) :=
  plan.tree.map fun i => .ok (plan.task i, plan.fanoutPolicy i)

/-- A task object, if that is what the call has, is one its factory accepted. -/
def NodeArgs.Bound (args : NodeArgs) : Prop :=
  match args.form with
  | .object task | .objectInto task => task.bound.accepted
  | _ => True

/-- What the other forms build is accepted by construction. -/
theorem NodeArgs.accepted {args : NodeArgs} {task : Task} (h : args.task = .ok task)
    (hbound : args.Bound) : task.bound.accepted := by
  have hadapted : ∀ {built : Except BuildError BaseTask}, (∀ base, built = .ok base → Built base) →
      built.map (fun base => applyAdapters (.base base) args.adapterSpecs) = .ok task →
        task.bound.accepted := by
    intro built hbuilt h
    cases built with
    | error e => cases h
    | ok base =>
        rw [← Except.ok.inj h, bound_applyAdapters]
        exact (hbuilt base rfl).accepted
  unfold NodeArgs.task at h
  obtain ⟨form, fanoutPolicy, adapterSpecs⟩ := args
  cases form with
  | object object | objectInto object =>
      rw [← Except.ok.inj (constrained_ok_iff.mp h).2]
      exact hbound
  | plain f specs => exact hadapted (fun _ => .task) h
  | into f specs => exact hadapted (fun _ => .taskInto) h
  | forwardPrev f specs => exact hadapted (fun _ => .taskForwardPrev) h
  | member f receiver specs => exact hadapted (fun _ => .taskMember) h
  | intoMember f receiver specs => exact hadapted (fun _ => .taskIntoMember) h
  | forwardPrevMember f receiver specs => exact hadapted (fun _ => .taskForwardPrevMember) h

theorem label_eq (call : Call) : call.toNodeArgs.label
    = call.node.map fun node => (node.task, node.fanoutPolicy) := by
  rw [NodeArgs.label, Call.node]
  cases call.task <;> rfl

section Fluent

variable {calls : List Call} {tree : TaskTreeBuilder} {plan : CompiledPlan}

theorem compiledPlan_levels (hplan : tree.compiledPlan = some plan) :
    plan.levels = tree.levels := by
  unfold TaskTreeBuilder.compiledPlan at hplan
  split at hplan
  · rw [← Option.some.inj hplan]
  · cases hplan

/-- The plan's nodes are the builder's. -/
theorem compiledPlan_nodes (hplan : tree.compiledPlan = some plan) :
    tree.nodes = (List.range plan.nodeCount).map fun i => tree.entry i := by
  have hcount : plan.nodeCount = tree.nodes.length := by
    rw [PlanShape.nodeCount, compiledPlan_levels hplan, TaskTreeBuilder.levels, List.length_map]
  refine List.ext_getElem (by simp [hcount]) fun i hi _ => ?_
  simp [TaskTreeBuilder.entry, hi]

theorem compiledPlan_entry (hplan : tree.compiledPlan = some plan) (i : Nat) :
    plan.task i = (tree.entry i).task ∧ plan.fanoutPolicy i = (tree.entry i).fanoutPolicy := by
  unfold TaskTreeBuilder.compiledPlan at hplan
  split at hplan
  · rw [← Option.some.inj hplan]
    exact ⟨rfl, rfl⟩
  · cases hplan

/-- The labels of a chain's plan are what its calls ask for. -/
theorem labels_preorder (hrecord : record calls = .ok tree)
    (hplan : tree.compiledPlan = some plan) :
    (labels plan).preorder = calls.map fun call => call.toNodeArgs.label := by
  obtain ⟨-, hnodes⟩ := record_ok_iff.mp hrecord
  have hcalls : calls.map (fun call => call.toNodeArgs.label)
      = tree.nodes.map fun node => .ok (node.task, node.fanoutPolicy) := by
    simp only [label_eq]
    rw [← Function.comp_def, ← List.map_map, hnodes, List.map_map]
    rfl
  rw [hcalls, compiledPlan_nodes hplan, List.map_map, labels, Forest.preorder_map,
    plan.tree_spec.1]
  refine List.map_congr_left fun i _ => ?_
  obtain ⟨htask, hpolicy⟩ := compiledPlan_entry hplan i
  rw [htask, hpolicy]
  rfl

/-- What a chain records is the tree it spells. -/
theorem labels_eq (hrecord : record calls = .ok tree) (hplan : tree.compiledPlan = some plan)
    {t : Forest NodeArgs} (hwrites : Writes calls t) : labels plan = t.map NodeArgs.label := by
  refine Forest.depths_inj _ _ 0 ?_ ?_
  · rw [labels, Forest.depths_map, plan.tree_spec.2.1, Forest.depths_map, ← hwrites.2,
      compiledPlan_levels hplan]
    exact levels_of_nodes (record_ok_iff.mp hrecord).2
  · rw [labels_preorder hrecord hplan, Forest.preorder_map, ← hwrites.1, List.map_map]
    rfl

/-- Every node's task is one its factory accepts. -/
theorem compiledPlan_accepted (hrecord : record calls = .ok tree)
    (hplan : tree.compiledPlan = some plan) (hbound : ∀ call ∈ calls, call.toNodeArgs.Bound)
    {i : Nat} (hi : i < plan.nodeCount) : (plan.task i).bound.accepted := by
  obtain ⟨-, hnodes⟩ := record_ok_iff.mp hrecord
  have hentry : tree.entry i ∈ tree.nodes := by
    rw [compiledPlan_nodes hplan]
    exact List.mem_map.mpr ⟨i, List.mem_range.mpr hi, rfl⟩
  have hmem : Except.ok (tree.entry i) ∈ calls.map Call.node := by
    rw [hnodes]
    exact List.mem_map_of_mem hentry
  obtain ⟨call, hcall, hnode⟩ := List.mem_map.mp hmem
  obtain ⟨task, htask, hentry⟩ := node_ok_iff.mp hnode
  rw [(compiledPlan_entry hplan i).1, hentry]
  exact NodeArgs.accepted htask (hbound call hcall)

/-- A chain's plan is determined by its labels, up to what follows its nodes. -/
theorem accepts_of_labels {plan' : CompiledPlan} (h : labels plan' = labels plan)
    (haccepts : plan.outputTypesFormed ∧ plan.compilePlanAccepts) :
    plan'.outputTypesFormed ∧ plan'.compilePlanAccepts := by
  have hlevels : plan'.levels = plan.levels := by
    have hdepths := congrArg (fun t : Forest _ => t.depths 0) h
    simpa only [labels, Forest.depths_map, PlanShape.tree_spec] using hdepths
  have hshape : plan'.toPlanShape = plan.toPlanShape := by
    obtain ⟨⟨levels', _, _⟩, _, _⟩ := plan'
    obtain ⟨⟨levels, _, _⟩, _, _⟩ := plan
    obtain rfl : levels' = levels := hlevels
    rfl
  have hnodes : ∀ i < plan.nodeCount,
      (plan'.task i, plan'.fanoutPolicy i) = (plan.task i, plan.fanoutPolicy i) := by
    intro i hi
    have hpreorder := congrArg (fun t : Forest _ => t.preorder[i]?) h
    have hi' : i < plan'.nodeCount := by rwa [hshape]
    simpa [labels, Forest.preorder_map, PlanShape.tree_spec, hi, hi'] using hpreorder
  have htask : ∀ i < plan.nodeCount, plan'.task i = plan.task i := fun i hi =>
    (Prod.mk.inj (hnodes i hi)).1
  have hpolicy : ∀ i < plan.nodeCount, plan'.fanoutPolicy i = plan.fanoutPolicy i := fun i hi =>
    (Prod.mk.inj (hnodes i hi)).2
  constructor
  · apply CompiledPlan.allNodes_iff.mpr
    intro i hi
    have hi : i < plan.nodeCount := by rwa [← hshape]
    rw [htask i hi]
    exact CompiledPlan.allNodes_iff.mp haccepts.1 i hi
  · exact CompiledPlan.compilePlanAccepts_congr hshape htask hpolicy haccepts.2

theorem compilePlan_iff : tree.compilePlan = some plan ↔
    tree.compiledPlan = some plan ∧ plan.outputTypesFormed ∧ plan.compilePlanAccepts := by
  rw [TaskTreeBuilder.compilePlan, Option.filter_eq_some_iff, Bool.and_eq_true]

/-- The chains that make a populated builder: their levels are those of a rooted
tree, and each of their tasks can be built. -/
theorem populated_iff : (∃ tree plan, record calls = .ok tree ∧ tree.compiledPlan = some plan) ↔
    ∃ root below, Writes calls (.cons root below .nil)
      ∧ ∀ args ∈ (Forest.cons root below .nil).preorder, ∃ task, args.task = .ok task := by
  constructor
  · rintro ⟨tree, plan, hrecord, hplan⟩
    obtain ⟨-, hnodes⟩ := record_ok_iff.mp hrecord
    obtain ⟨rest, hlevels, hseq⟩ := plan.exists_levels
    rw [compiledPlan_levels hplan, TaskTreeBuilder.levels, levels_of_nodes hnodes] at hlevels
    obtain ⟨root, calls, rfl, hroot, hrest⟩ := List.map_eq_cons_iff.mp hlevels
    -- a depth sequence and as many labels make a tree
    obtain ⟨below, hpre, hdep⟩ := Forest.exists_of_depths rest.length rest
      (calls.map Call.toNodeArgs) 1 rfl (by rw [← hrest, List.length_map, List.length_map]) hseq
    have hwrites : Writes (root :: calls) (.cons root.toNodeArgs below .nil) := by
      refine ⟨?_, ?_⟩
      · rw [Forest.preorder_cons, hpre, Forest.preorder_nil, List.append_nil, List.map_cons]
      · rw [Forest.depths_cons, hdep, Forest.depths_nil, List.append_nil, hlevels]
    refine ⟨root.toNodeArgs, below, hwrites, fun args hargs => ?_⟩
    rw [← hwrites.1] at hargs
    obtain ⟨call, hcall, rfl⟩ := List.mem_map.mp hargs
    have hmem : call.node ∈ tree.nodes.map Except.ok := by
      rw [← hnodes]
      exact List.mem_map_of_mem hcall
    obtain ⟨node, -, hnode⟩ := List.mem_map.mp hmem
    obtain ⟨task, htask, -⟩ := node_ok_iff.mp hnode.symm
    exact ⟨task, htask⟩
  · rintro ⟨root, below, ⟨hargs, hdepths⟩, htasks⟩
    have hlevels : (recordLevels (calls.map Call.depth)).isSome := by
      rw [hdepths, Forest.depths_cons, Forest.depths_nil, List.append_nil, recordLevels_cons_iff]
      exact ⟨rfl, Forest.depthSeq_depths below 1⟩
    have hrange : calls.map Call.node ∈ Set.range (List.map Except.ok) := by
      rw [Set.range_list_map]
      intro node hnode
      obtain ⟨call, hcall, rfl⟩ := List.mem_map.mp hnode
      obtain ⟨task, htask⟩ := htasks call.toNodeArgs (hargs ▸ List.mem_map_of_mem hcall)
      exact ⟨call.nodeOf task, (node_ok_iff.mpr ⟨task, htask, rfl⟩).symm⟩
    obtain ⟨nodes, hnodes⟩ := hrange
    let tree : TaskTreeBuilder := ⟨nodes, by rwa [levels_of_nodes hnodes.symm]⟩
    have hrecord : record calls = .ok tree := record_ok_iff.mpr ⟨hlevels, hnodes.symm⟩
    have hne : tree.nodes ≠ [] := by
      intro hempty
      have hcalls : calls.map Call.node = [] := by rw [← hnodes]; exact congrArg _ hempty
      rw [List.map_eq_nil_iff.mp hcalls] at hargs
      cases hargs
    exact ⟨tree, _, hrecord, dif_pos hne⟩

end Fluent

/-- **Chains of builder calls are labelled trees.**  A chain compiles to a plan
exactly if it spells a rooted tree, in preorder and by depth, each of whose tasks
can be built and has an output type, and `validate_plan` accepts the plan with
these tasks on that tree.
The tree of the compiled plan is then the one that was spelled, every node with
its task under its adapters and with its fanout policy.  If the task objects are
accepted ones and the slots can be formed, the plan is a valid one. -/
theorem fluent_trees (calls : List Call) :
    ((∃ tree plan, record calls = .ok tree ∧ tree.compilePlan = some plan) ↔
      ∃ root below, Writes calls (.cons root below .nil)
        ∧ (∀ args ∈ (Forest.cons root below .nil).preorder, ∃ task, args.task = .ok task)
        ∧ ∀ plan, labels plan = (Forest.cons root below .nil).map NodeArgs.label →
            plan.outputTypesFormed ∧ plan.compilePlanAccepts) ∧
    ∀ tree plan, record calls = .ok tree → tree.compilePlan = some plan →
      (∀ t, Writes calls t → labels plan = t.map NodeArgs.label) ∧
      ((∀ call ∈ calls, call.toNodeArgs.Bound) → (∀ i < plan.nodeCount, plan.nodeSlotFormed i) →
        ∃ valid : ValidPlan, valid.toCompiledPlan = plan) := by
  refine ⟨⟨?_, ?_⟩, fun tree plan hrecord hcompile => ?_⟩
  · rintro ⟨tree, plan, hrecord, hcompile⟩
    obtain ⟨hplan, haccepts⟩ := compilePlan_iff.mp hcompile
    obtain ⟨root, below, hwrites, htasks⟩ := populated_iff.mp ⟨tree, plan, hrecord, hplan⟩
    refine ⟨root, below, hwrites, htasks, fun plan' hlabels => ?_⟩
    exact accepts_of_labels (hlabels.trans (labels_eq hrecord hplan hwrites).symm) haccepts
  · rintro ⟨root, below, hwrites, htasks, haccepts⟩
    obtain ⟨tree, plan, hrecord, hplan⟩ := populated_iff.mpr ⟨root, below, hwrites, htasks⟩
    have hlabels := labels_eq hrecord hplan hwrites
    exact ⟨tree, plan, hrecord, compilePlan_iff.mpr ⟨hplan, haccepts plan hlabels⟩⟩
  · obtain ⟨hplan, haccepts⟩ := compilePlan_iff.mp hcompile
    refine ⟨fun t => labels_eq hrecord hplan, fun hbound hslots => ?_⟩
    have hrunnable := CompiledPlan.compile_iff_run.mp haccepts.2
    exact ⟨⟨plan, fun i hi => compiledPlan_accepted hrecord hplan hbound hi, hrunnable, hslots⟩,
      rfl⟩

/-- A root that may throw, a retried child that borrows its payload, a forwarder
below that one, and a second child. -/
def relayRoot : NodeArgs where
  form := .plain (.function [] (.object 0)) []
  adapterSpecs := [.catchAsFailureWithPolicy .stepResult]

def relayEmplacer : NodeArgs where
  form := .into
    (.function [.lvalueRef (.cv .const (.object 0)), .directOut (.object 1)] .stepResult)
    [.borrowPrev (.object 0)]
  adapterSpecs := [.catchAsFailure, .retry]

def relayForwarder : NodeArgs where
  form := .forwardPrev (.function [.lvalueRef (.object 1)] .void) [.borrowPrevMut (.object 1)]

def relaySibling : NodeArgs where
  form := .object (.base (.boundTask (.function [] .void) []))
  fanoutPolicy := some .sharedReadonly

def relayCalls : List Call :=
  [⟨relayRoot, none⟩, ⟨relayEmplacer, some 1⟩, ⟨relayForwarder, some 2⟩, ⟨relaySibling, some 1⟩]

theorem fluent_trees_relay : ∃ valid : ValidPlan, labels valid.toCompiledPlan
    = (Forest.cons relayRoot (.cons relayEmplacer (.cons relayForwarder .nil .nil)
        (.cons relaySibling .nil .nil)) .nil).map NodeArgs.label := by
  obtain ⟨tree, plan, hrecord, hplan, haccepts, hslots⟩ : ∃ tree plan,
      record relayCalls = .ok tree ∧ tree.compiledPlan = some plan
        ∧ (plan.outputTypesFormed ∧ plan.compilePlanAccepts) ∧ plan.allNodes plan.nodeSlotFormed :=
    ⟨_, _, rfl, rfl, by decide, by decide⟩
  have hbound : ∀ call ∈ relayCalls, call.toNodeArgs.Bound := by
    intro call hcall
    simp only [relayCalls, List.mem_cons, List.not_mem_nil, or_false] at hcall
    rcases hcall with rfl | rfl | rfl | rfl
    · trivial
    · trivial
    · trivial
    · show BaseTask.accepted (.boundTask (.function [] .void) []) = true
      rfl
  have hcompile := compilePlan_iff.mpr ⟨hplan, haccepts⟩
  obtain ⟨hlabels, hvalid⟩ := (fluent_trees relayCalls).2 tree plan hrecord hcompile
  obtain ⟨valid, rfl⟩ := hvalid hbound (CompiledPlan.allNodes_iff.mp hslots)
  exact ⟨valid, hlabels _ ⟨rfl, rfl⟩⟩

/-- A root that borrows from a parent can be recorded, and `compile_plan` refuses
it. -/
example :
    let calls : List Call := [
      { form := .plain (.function [CppType.constRef (.object 0)] .void) [.borrowPrev (.object 0)]
        level := none }]
    ∃ tree, record calls = .ok tree ∧ tree.compiledPlan.isSome ∧ tree.compilePlan = none :=
  ⟨_, rfl, by decide, by decide⟩

end YOrch.TaskTree
