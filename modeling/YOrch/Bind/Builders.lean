/-
  YOrch.Bind.Builders — the builders that infer what the binders are told.

  `task(f)(specs...)` and its five siblings build the bound tasks; the two
  direct-output builders read the output type off the callable's last
  parameter, the two forward-prev builders off the specs.  An expression that
  does not compile is an error here.  Proved:

    • `taskInto_agrees_iff` — the direct-output builders agree with the explicit
      binders exactly if the last parameter is not a reference, or the explicit
      binder refuses as well,
    • `uniquePrevPayload_iff` — the payload the forward-prev builders infer is
      there for an odd number of prev accesses, not only for one; the exact
      lists on which their guard means what it says.
-/
import YOrch.Bind.Tasks

namespace YOrch

/-! ## §1. Signatures. -/

namespace Callable

/-- The function type of a callable declared with these parameters: top-level
cv-qualifiers of a parameter are no part of it. -/
def functionType : Callable → Callable
  | .unsupported => .unsupported
  | .function params result => .function (params.map CppType.removeCv) result
  | .member classType isConst params result =>
      .member classType isConst (params.map CppType.removeCv) result

/-- `bind_signature_matches`. -/
def bindSignatureMatches (f : Callable) (specs : List Spec) : Bool :=
  f.ordinaryBindCallable && f.arity == specs.length

/-- `member_bound_signature_matches`. -/
def memberBoundSignatureMatches (f : Callable) (specs : List Spec) : Bool :=
  f.ordinaryMemberBindCallable && f.arity == specs.length

/-- `inferred_bind_into_signature_matches`. -/
def inferredBindIntoSignatureMatches (f : Callable) (specs : List Spec) : Bool :=
  f.inferableDirectOutputCallable && f.arity == specs.length + 1

/-- `inferred_forward_prev_signature_matches`. -/
def inferredForwardPrevSignatureMatches (f : Callable) (specs : List Spec) : Bool :=
  f.ordinaryBindCallable && f.arity == specs.length

/-- `inferable_direct_output_member_callable`. -/
def inferableDirectOutputMemberCallable (f : Callable) : Bool :=
  f.memberBindCallable && f.lastIsDirectOut

/-- `inferred_member_bound_into_signature_matches`. -/
def inferredMemberBoundIntoSignatureMatches (f : Callable) (specs : List Spec) : Bool :=
  f.inferableDirectOutputMemberCallable && f.arity == specs.length + 1

end Callable

/-- `direct_out_payload<Arg>::type`, which only `direct_out<T>` itself has. -/
def directOutPayload : CppType → Option CppType
  | .directOut T => some T
  | _ => none

namespace Builders

/-! ## §2. The factories. -/

/-- Why a builder expression does not compile. -/
inductive BuildError where
  /-- No overload has its constraints satisfied. -/
  | noOverload
  /-- `direct_out_payload<Arg>` is not specialised for the parameter. -/
  | noDirectOutPayload
  /-- A static assertion of a builder. -/
  | staticAssert (message : String)
  | bind (error : BindError)
  | bindInto (error : BindIntoError)
  | bindMember (error : BindMemberError)
  | bindIntoMember (error : BindIntoMemberError)
  | bindForwardPrev (error : BindForwardPrevError)
  | bindForwardPrevMember (error : BindForwardPrevMemberError)
  deriving Repr, DecidableEq

/-- A factory emits the diagnostic of its check, or builds the task. -/
def factory {ε : Type} [DecidableEq ε] (error ok : ε) (diagnostic : ε → BuildError)
    (task : BaseTask) : Except BuildError BaseTask :=
  if error = ok then .ok task else .error (diagnostic error)

/-- `bind`. -/
def bind (f : Callable) (specs : List Spec) : Except BuildError BaseTask :=
  factory (validateBind f specs) .ok .bind (.boundTask f specs)

/-- `bind_into<T>`. -/
def bindInto (T : CppType) (f : Callable) (specs : List Spec) : Except BuildError BaseTask :=
  factory (validateBindInto T f specs) .ok .bindInto (.boundOutputTask T f specs)

/-- `bind_forward_prev<T>`. -/
def bindForwardPrev (T : CppType) (f : Callable) (specs : List Spec) :
    Except BuildError BaseTask :=
  factory (validateBindForwardPrev T f specs) .ok .bindForwardPrev
    (.boundForwardPrevTask T f specs)

/-- `bind_member`. -/
def bindMember (f : Callable) (receiver : Spec) (specs : List Spec) :
    Except BuildError BaseTask :=
  factory (validateBindMember f specs) .ok .bindMember (.boundMemberTask f receiver specs)

/-- `bind_into_member<T>`. -/
def bindIntoMember (T : CppType) (f : Callable) (receiver : Spec) (specs : List Spec) :
    Except BuildError BaseTask :=
  factory (validateBindIntoMember T f specs) .ok .bindIntoMember
    (.boundMemberOutputTask T f receiver specs)

/-- `bind_forward_prev_member<T>`. -/
def bindForwardPrevMember (T : CppType) (f : Callable) (receiver : Spec) (specs : List Spec) :
    Except BuildError BaseTask :=
  factory (validateBindForwardPrevMember T f receiver specs) .ok .bindForwardPrevMember
    (.boundMemberForwardPrevTask T f receiver specs)

/-! ## §3. The builders. -/

/-- A `requires` clause in front of an expression. -/
def constrained {α : Type} (constraint : Bool) (expression : Except BuildError α) :
    Except BuildError α :=
  if constraint then expression else .error .noOverload

/-- `task(f)(specs...)`. -/
def task (f : Callable) (specs : List Spec) : Except BuildError BaseTask :=
  constrained f.ordinaryBindCallable <|
    constrained (f.bindSignatureMatches specs) <| bind f specs

/-- `task_member(f, receiver)(specs...)`. -/
def taskMember (f : Callable) (receiver : Spec) (specs : List Spec) :
    Except BuildError BaseTask :=
  constrained f.ordinaryMemberBindCallable <|
    constrained (f.memberBoundSignatureMatches specs) <| bindMember f receiver specs

/-- A binder that infers its output type from the last parameter.  The type is
a member of the binder, so it is named before the binder is called. -/
def inferOutput (f : Callable) (signature : Bool)
    (bindAs : CppType → Except BuildError BaseTask) : Except BuildError BaseTask :=
  match f.params.getLast?.bind directOutPayload with
  -- a missing member type is no failed constraint: the expression is ill-formed
  | none => .error .noDirectOutPayload
  | some T => constrained signature (bindAs T)

/-- `task_into(f)(specs...)`. -/
def taskInto (f : Callable) (specs : List Spec) : Except BuildError BaseTask :=
  constrained f.inferableDirectOutputCallable <|
    inferOutput f (f.inferredBindIntoSignatureMatches specs) fun T => bindInto T f specs

/-- `task_into_member(f, receiver)(specs...)`. -/
def taskIntoMember (f : Callable) (receiver : Spec) (specs : List Spec) :
    Except BuildError BaseTask :=
  constrained f.inferableDirectOutputMemberCallable <|
    inferOutput f (f.inferredMemberBoundIntoSignatureMatches specs) fun T =>
      bindIntoMember T f receiver specs

/-- A binder that infers its output type from the one prev access, and asserts
that there is one. -/
def inferPrevPayload (message : String) (specs : List Spec)
    (bindAs : CppType → Except BuildError BaseTask) : Except BuildError BaseTask :=
  if (forwardPrevUniquePrevPayload specs).isVoid then .error (.staticAssert message)
  else bindAs (forwardPrevUniquePrevPayload specs)

/-- `task_forward_prev(f)(specs...)`. -/
def taskForwardPrev (f : Callable) (specs : List Spec) : Except BuildError BaseTask :=
  constrained f.ordinaryBindCallable <|
    constrained (f.inferredForwardPrevSignatureMatches specs) <|
      inferPrevPayload "yorch::task_forward_prev(...) requires exactly one prev-access binding"
        specs fun T => bindForwardPrev T f specs

/-- `task_forward_prev_member(f, receiver)(specs...)`: the receiver counts. -/
def taskForwardPrevMember (f : Callable) (receiver : Spec) (specs : List Spec) :
    Except BuildError BaseTask :=
  constrained f.ordinaryMemberBindCallable <|
    constrained (f.memberBoundSignatureMatches specs) <|
      inferPrevPayload ("yorch::task_forward_prev_member(...) requires exactly one prev-access "
          ++ "binding across receiver and member-function parameters")
        (receiver :: specs) fun T => bindForwardPrevMember T f receiver specs

/-! ## §4. Recording direct-output nodes. -/

/-- `task_tree_node`. -/
structure TreeNode where
  level : Nat
  task : Task
  deriving Repr, DecidableEq

/-- `task_tree_builder::node_into<Level>(task)`. -/
def nodeIntoTask (nodes : List TreeNode) (level : Nat) (task : Task) :
    Except BuildError (List TreeNode) :=
  constrained (appendLevelValid level (nodes.map TreeNode.level) && task.usesDirectOutputProtocol)
    (.ok (nodes ++ [⟨level, task⟩]))

/-- `operator()` of a tree binder: build the task, put its adapters on and append
it. -/
def binderCall {R : Type} (append : Task → Except BuildError R) (adapt : Task → Task)
    (signature : Bool) (built : Except BuildError BaseTask) : Except BuildError R :=
  constrained signature do
    let task ← built
    append (adapt (.base task))

/-- `tree_node_into_binder`. -/
def treeNodeIntoBinder {R : Type} (append : Task → Except BuildError R) (adapt : Task → Task)
    (f : Callable) (specs : List Spec) : Except BuildError R :=
  binderCall append adapt (f.inferredBindIntoSignatureMatches specs) (taskInto f specs)

/-- `tree_node_into_member_receiver_binder`. -/
def treeNodeIntoMemberReceiverBinder {R : Type} (append : Task → Except BuildError R)
    (adapt : Task → Task) (f : Callable) (receiver : Spec) (specs : List Spec) :
    Except BuildError R :=
  binderCall append adapt (f.inferredMemberBoundIntoSignatureMatches specs)
    (taskIntoMember f receiver specs)

/-- `task_tree.root_into(f)(specs...)`. -/
def rootInto (nodes : List TreeNode) (f : Callable) (specs : List Spec) :
    Except BuildError (List TreeNode) :=
  constrained (nodes.isEmpty && f.inferableDirectOutputCallable) <|
    treeNodeIntoBinder (nodeIntoTask nodes 0) id f specs

/-- `node_into<Level>(f)(specs...)`. -/
def nodeInto (nodes : List TreeNode) (level : Nat) (f : Callable) (specs : List Spec) :
    Except BuildError (List TreeNode) :=
  constrained (appendLevelValid level (nodes.map TreeNode.level)
      && f.inferableDirectOutputCallable) <|
    treeNodeIntoBinder (nodeIntoTask nodes level) id f specs

/-- `task_tree.root_into_member(f, receiver)(specs...)`. -/
def rootIntoMember (nodes : List TreeNode) (f : Callable) (receiver : Spec)
    (specs : List Spec) : Except BuildError (List TreeNode) :=
  constrained (nodes.isEmpty && f.inferableDirectOutputMemberCallable) <|
    treeNodeIntoMemberReceiverBinder (nodeIntoTask nodes 0) id f receiver specs

/-- `node_into_member<Level>(f, receiver)(specs...)`. -/
def nodeIntoMember (nodes : List TreeNode) (level : Nat) (f : Callable) (receiver : Spec)
    (specs : List Spec) : Except BuildError (List TreeNode) :=
  constrained (appendLevelValid level (nodes.map TreeNode.level)
      && f.inferableDirectOutputMemberCallable) <|
    treeNodeIntoMemberReceiverBinder (nodeIntoTask nodes level) id f receiver specs

/-! ## §5. What a builder yields. -/

theorem factory_ok_iff {ε : Type} [DecidableEq ε] {error ok : ε} {diagnostic : ε → BuildError}
    {task built : BaseTask} :
    factory error ok diagnostic task = .ok built ↔ error = ok ∧ built = task := by
  unfold factory
  by_cases h : error = ok
  · simp [h, eq_comm]
  · simp [h]

theorem constrained_ok_iff {α : Type} {constraint : Bool} {expression : Except BuildError α}
    {a : α} : constrained constraint expression = .ok a ↔ constraint ∧ expression = .ok a := by
  cases constraint <;> simp [constrained]

theorem inferOutput_ok_iff {f : Callable} {signature : Bool}
    {bindAs : CppType → Except BuildError BaseTask} {built : BaseTask} :
    inferOutput f signature bindAs = .ok built ↔
      signature ∧ ∃ T, f.params.getLast? = some (.directOut T) ∧ bindAs T = .ok built := by
  unfold inferOutput
  rcases hlast : f.params.getLast? with _ | last
  · simp
  · cases last <;> simp [directOutPayload, constrained_ok_iff]

/-- What a direct-output binder records of a bare task. -/
theorem binderCall_ok_iff {nodes recorded : List TreeNode} {level : Nat} {signature : Bool}
    {built : Except BuildError BaseTask} :
    binderCall (nodeIntoTask nodes level) id signature built = .ok recorded ↔
      signature ∧ ∃ task, built = .ok task ∧ appendLevelValid level (nodes.map TreeNode.level)
        ∧ task.outputProtocol = .directOutput ∧ recorded = nodes ++ [⟨level, .base task⟩] := by
  rw [binderCall, constrained_ok_iff]
  apply and_congr_right
  intro _
  cases built with
  | error e => simp [Except.bind, Bind.bind]
  | ok task =>
      have hbind : ((Except.ok task : Except BuildError BaseTask) >>= fun task =>
          nodeIntoTask nodes level (id (.base task))) = nodeIntoTask nodes level (.base task) := rfl
      rw [hbind, nodeIntoTask, constrained_ok_iff, Bool.and_eq_true, Except.ok.injEq,
        Task.usesDirectOutputProtocol, beq_iff_eq, eq_comm (b := recorded)]
      constructor
      · rintro ⟨⟨hlevel, hprotocol⟩, hrecorded⟩
        exact ⟨task, rfl, hlevel, hprotocol, hrecorded⟩
      · rintro ⟨_, hok, hlevel, hprotocol, hrecorded⟩
        obtain rfl := Except.ok.inj hok
        exact ⟨⟨hlevel, hprotocol⟩, hrecorded⟩

/-- A task some builder yields. -/
inductive Built : BaseTask → Prop where
  | task {f specs built} : Builders.task f specs = .ok built → Built built
  | taskInto {f specs built} : Builders.taskInto f specs = .ok built → Built built
  | taskForwardPrev {f specs built} : Builders.taskForwardPrev f specs = .ok built → Built built
  | taskMember {f receiver specs built} :
      Builders.taskMember f receiver specs = .ok built → Built built
  | taskIntoMember {f receiver specs built} :
      Builders.taskIntoMember f receiver specs = .ok built → Built built
  | taskForwardPrevMember {f receiver specs built} :
      Builders.taskForwardPrevMember f receiver specs = .ok built → Built built

theorem inferPrevPayload_ok {message : String} {specs : List Spec}
    {bindAs : CppType → Except BuildError BaseTask} {built : BaseTask}
    (h : inferPrevPayload message specs bindAs = .ok built) :
    bindAs (forwardPrevUniquePrevPayload specs) = .ok built := by
  unfold inferPrevPayload at h
  split at h
  · cases h
  · exact h

/-- **Every task a builder yields is one its binder accepts.** -/
theorem Built.accepted {built : BaseTask} (h : Built built) : built.accepted := by
  cases h with
  | task h =>
      simp only [Builders.task, constrained_ok_iff] at h
      obtain ⟨hok, rfl⟩ := factory_ok_iff.mp h.2.2
      exact beq_iff_eq.mpr hok
  | taskInto h =>
      simp only [Builders.taskInto, constrained_ok_iff, inferOutput_ok_iff] at h
      obtain ⟨-, -, T, -, h⟩ := h
      obtain ⟨hok, rfl⟩ := factory_ok_iff.mp h
      exact beq_iff_eq.mpr hok
  | taskForwardPrev h =>
      simp only [Builders.taskForwardPrev, constrained_ok_iff] at h
      obtain ⟨hok, rfl⟩ := factory_ok_iff.mp (inferPrevPayload_ok h.2.2)
      exact beq_iff_eq.mpr hok
  | taskMember h =>
      simp only [Builders.taskMember, constrained_ok_iff] at h
      obtain ⟨hok, rfl⟩ := factory_ok_iff.mp h.2.2
      exact beq_iff_eq.mpr hok
  | taskIntoMember h =>
      simp only [Builders.taskIntoMember, constrained_ok_iff, inferOutput_ok_iff] at h
      obtain ⟨-, -, T, -, h⟩ := h
      obtain ⟨hok, rfl⟩ := factory_ok_iff.mp h
      exact beq_iff_eq.mpr hok
  | taskForwardPrevMember h =>
      simp only [Builders.taskForwardPrevMember, constrained_ok_iff] at h
      obtain ⟨hok, rfl⟩ := factory_ok_iff.mp (inferPrevPayload_ok h.2.2)
      exact beq_iff_eq.mpr hok

/-! ## §6. Direct output: builders and binders. -/

section DirectOutput

variable {f : Callable} {T last : CppType} {specs : List Spec}

/-- A callable whose last parameter is a sink for `T`. -/
theorem sink_of_last (hlast : f.params.getLast? = some last)
    (hout : last.removeCvref = .directOut T) :
    f.bindCallable = true ∧ f.arity ≠ 0 ∧ f.lastIsDirectOutOf T = true
      ∧ f.lastIsDirectOut = true := by
  refine ⟨?_, fun hzero => ?_, ?_, ?_⟩
  · cases f with
    | unsupported => cases hlast
    | _ => rfl
  · rw [Callable.arity, List.length_eq_zero_iff] at hzero
    rw [hzero] at hlast
    cases hlast
  · rw [Callable.lastIsDirectOutOf, hlast]
    exact beq_iff_eq.mpr hout
  · rw [Callable.lastIsDirectOut, hlast]
    simp only [CppType.isDirectOut, hout]

/-- What the explicit binder checks, once the last parameter is a sink for `T`. -/
theorem validateBindInto_ok_iff (hlast : f.params.getLast? = some last)
    (hout : last.removeCvref = .directOut T) : validateBindInto T f specs = .ok ↔
      T.isReference = false ∧ T.isVoid = false ∧ f.memberBindCallable = false
        ∧ specs.length + 1 = f.arity := by
  obtain ⟨hcallable, harity, hsink, -⟩ := sink_of_last hlast hout
  unfold validateBindInto
  simp [check_passed, hcallable, harity, hsink, and_assoc]

theorem validateBindIntoMember_ok_iff (hlast : f.params.getLast? = some last)
    (hout : last.removeCvref = .directOut T) : validateBindIntoMember T f specs = .ok ↔
      T.isReference = false ∧ T.isVoid = false ∧ f.memberBindCallable = true
        ∧ specs.length + 1 = f.arity := by
  obtain ⟨-, harity, hsink, -⟩ := sink_of_last hlast hout
  unfold validateBindIntoMember
  simp [check_passed, harity, hsink, and_assoc]

theorem inferring_constraints {overload signature : Bool}
    {bindAs : CppType → Except BuildError BaseTask} {built : BaseTask}
    (h : constrained overload (inferOutput f signature bindAs) = .ok built) :
    overload ∧ signature := by
  rw [constrained_ok_iff, inferOutput_ok_iff] at h
  exact ⟨h.1, h.2.1⟩

/-- A builder that infers its output type is the binder for `T`, where the last
parameter is `direct_out<T>` itself; elsewhere it does not compile. -/
theorem inferring_ok_iff {accepts : Prop} {overload signature : Bool} {task built : BaseTask}
    {bindAs : CppType → Except BuildError BaseTask} (hlast : f.params.getLast? = some last)
    (hout : last.removeCvref = .directOut T)
    (hbind : bindAs T = .ok built ↔ accepts ∧ built = task)
    (hconstraints : accepts → overload ∧ signature) :
    constrained overload (inferOutput f signature bindAs) = .ok built ↔
      last = .directOut T ∧ accepts ∧ built = task := by
  rw [constrained_ok_iff, inferOutput_ok_iff, hlast]
  constructor
  · rintro ⟨-, -, T', hT', hok⟩
    -- the payload comes from the parameter as it stands, and stripping it changes nothing
    obtain rfl := Option.some.inj hT'
    obtain rfl := CppType.directOut.inj hout
    exact ⟨rfl, hbind.mp hok⟩
  · rintro ⟨rfl, hok⟩
    obtain ⟨hoverload, hsignature⟩ := hconstraints hok.1
    exact ⟨hoverload, hsignature, T, rfl, hbind.mpr hok⟩

/-- What `validate_bind_into` checks covers the constraints of `task_into`. -/
theorem bindInto_constraints (hlast : f.params.getLast? = some last)
    (hout : last.removeCvref = .directOut T) (h : validateBindInto T f specs = .ok) :
    f.inferableDirectOutputCallable ∧ f.inferredBindIntoSignatureMatches specs := by
  obtain ⟨hcallable, -, -, hsink⟩ := sink_of_last hlast hout
  obtain ⟨-, -, hmember, harity⟩ := (validateBindInto_ok_iff hlast hout).mp h
  have hinfer : f.inferableDirectOutputCallable = true := by
    rw [Callable.inferableDirectOutputCallable, hcallable, hmember, hsink]
    rfl
  refine ⟨hinfer, ?_⟩
  rw [Callable.inferredBindIntoSignatureMatches, hinfer, Bool.true_and, beq_iff_eq, harity]

theorem bindIntoMember_constraints (hlast : f.params.getLast? = some last)
    (hout : last.removeCvref = .directOut T) (h : validateBindIntoMember T f specs = .ok) :
    f.inferableDirectOutputMemberCallable ∧ f.inferredMemberBoundIntoSignatureMatches specs := by
  obtain ⟨-, -, -, hsink⟩ := sink_of_last hlast hout
  obtain ⟨-, -, hmember, harity⟩ := (validateBindIntoMember_ok_iff hlast hout).mp h
  have hinfer : f.inferableDirectOutputMemberCallable = true := by
    rw [Callable.inferableDirectOutputMemberCallable, hmember, hsink]
    rfl
  refine ⟨hinfer, ?_⟩
  rw [Callable.inferredMemberBoundIntoSignatureMatches, hinfer, Bool.true_and, beq_iff_eq, harity]

/-- A builder agrees with a binder: it is well formed exactly on what the binder
accepts, yields the task given, and its root and node forms record that task. -/
structure Agrees (accepts : Prop) (task : BaseTask) (built : Except BuildError BaseTask)
    (root : Except BuildError (List TreeNode))
    (node : List TreeNode → Nat → Except BuildError (List TreeNode)) : Prop where
  built_iff : ∀ t, built = .ok t ↔ accepts ∧ t = task
  root_iff : ∀ recorded, root = .ok recorded ↔ accepts ∧ recorded = [⟨0, .base task⟩]
  node_iff : ∀ nodes level, appendLevelValid level (nodes.map TreeNode.level) →
    ∀ recorded, node nodes level = .ok recorded ↔
      accepts ∧ recorded = nodes ++ [⟨level, .base task⟩]

/-- A root or node form is its builder behind the same constraints, so it adds
nothing to what the builder decides. -/
theorem agrees_iff {accepts exact : Prop} {overload signature : Bool} {task : BaseTask}
    {built : Except BuildError BaseTask} {root : Except BuildError (List TreeNode)}
    {node : List TreeNode → Nat → Except BuildError (List TreeNode)}
    (hprotocol : task.outputProtocol = .directOutput)
    (hconstraints : ∀ t, built = .ok t → overload ∧ signature)
    (hbuilt : ∀ t, built = .ok t ↔ exact ∧ accepts ∧ t = task)
    (hroot : root = constrained overload (binderCall (nodeIntoTask [] 0) id signature built))
    (hnode : ∀ nodes level, appendLevelValid level (nodes.map TreeNode.level) →
      node nodes level = constrained overload
        (binderCall (nodeIntoTask nodes level) id signature built)) :
    Agrees accepts task built root node ↔ (accepts → exact) := by
  constructor
  · -- what the binder accepts the builder builds, and it builds nothing else
    intro h haccepts
    exact ((hbuilt task).mp ((h.built_iff task).mpr ⟨haccepts, rfl⟩)).1
  · intro hexact
    have hok : ∀ t, built = .ok t ↔ accepts ∧ t = task := fun t =>
      ⟨fun ht => ((hbuilt t).mp ht).2, fun ht => (hbuilt t).mpr ⟨hexact ht.1, ht⟩⟩
    -- the constraints of the recording forms are those the builder passed itself
    have hrecorded : ∀ nodes level, appendLevelValid level (nodes.map TreeNode.level) →
        ∀ recorded, constrained overload
            (binderCall (nodeIntoTask nodes level) id signature built) = .ok recorded ↔
          accepts ∧ recorded = nodes ++ [⟨level, .base task⟩] := by
      intro nodes level hlevel recorded
      rw [constrained_ok_iff, binderCall_ok_iff]
      constructor
      · rintro ⟨-, -, t, ht, -, -, hrecorded⟩
        obtain ⟨haccepts, rfl⟩ := (hok t).mp ht
        exact ⟨haccepts, hrecorded⟩
      · rintro ⟨haccepts, hrecorded⟩
        have ht : built = .ok task := (hok task).mpr ⟨haccepts, rfl⟩
        obtain ⟨hoverload, hsignature⟩ := hconstraints task ht
        exact ⟨hoverload, hsignature, task, ht, hlevel, hprotocol, hrecorded⟩
    refine ⟨hok, fun recorded => ?_, fun nodes level hlevel recorded => ?_⟩
    · rw [hroot]
      exact hrecorded [] 0 rfl recorded
    · rw [hnode nodes level hlevel]
      exact hrecorded nodes level hlevel recorded

/-- `task_into`, `root_into` and `node_into` against `validate_bind_into`. -/
def TaskIntoAgrees (T : CppType) (f : Callable) (specs : List Spec) : Prop :=
  Agrees (validateBindInto T f specs = .ok) (.boundOutputTask T f specs) (taskInto f specs)
    (rootInto [] f specs) (fun nodes level => nodeInto nodes level f specs)

/-- `task_into_member`, `root_into_member` and `node_into_member` against
`validate_bind_into_member`. -/
def TaskIntoMemberAgrees (T : CppType) (f : Callable) (receiver : Spec) (specs : List Spec) :
    Prop :=
  Agrees (validateBindIntoMember T f specs = .ok) (.boundMemberOutputTask T f receiver specs)
    (taskIntoMember f receiver specs) (rootIntoMember [] f receiver specs)
    (fun nodes level => nodeIntoMember nodes level f receiver specs)

theorem taskIntoAgrees_iff (hlast : f.params.getLast? = some last)
    (hout : last.removeCvref = .directOut T) :
    TaskIntoAgrees T f specs ↔ (validateBindInto T f specs = .ok → last = .directOut T) := by
  refine agrees_iff rfl (fun _ => inferring_constraints)
    (fun _ => inferring_ok_iff hlast hout factory_ok_iff (bindInto_constraints hlast hout)) rfl
    fun nodes level hlevel => ?_
  rw [nodeInto, hlevel, Bool.true_and]
  rfl

theorem taskIntoMemberAgrees_iff {receiver : Spec} (hlast : f.params.getLast? = some last)
    (hout : last.removeCvref = .directOut T) :
    TaskIntoMemberAgrees T f receiver specs ↔
      (validateBindIntoMember T f specs = .ok → last = .directOut T) := by
  refine agrees_iff rfl (fun _ => inferring_constraints)
    (fun _ => inferring_ok_iff hlast hout factory_ok_iff (bindIntoMember_constraints hlast hout))
    rfl fun nodes level hlevel => ?_
  rw [nodeIntoMember, hlevel, Bool.true_and]
  rfl

/-- A declared sink parameter reaches the traits as `direct_out<T>` itself
exactly if it is not declared as a reference. -/
theorem removeCv_eq_directOut (hout : last.removeCvref = .directOut T) :
    last.removeCv = .directOut T ↔ last.isReference = false := by
  cases last with
  | lvalueRef t | rvalueRef t => simp [CppType.removeCv, CppType.isReference]
  | cv q t => simpa [CppType.removeCvref, CppType.removeReference, CppType.isReference] using hout
  | _ => simpa [CppType.removeCvref, CppType.removeReference, CppType.isReference] using hout

theorem functionType_getLast? {declared : Callable} (h : declared.params.getLast? = some last) :
    declared.functionType.params.getLast? = some last.removeCv := by
  cases declared with
  | unsupported => cases h
  | _ => rw [Callable.functionType, Callable.params, List.getLast?_map, ← Option.map_some, ← h]; rfl

theorem removeCvref_removeCv (hout : last.removeCvref = .directOut T) :
    last.removeCv.removeCvref = .directOut T := by
  cases last with
  | lvalueRef t | rvalueRef t => exact hout
  | cv q t =>
      have hcv : t.removeCv = .directOut T := hout
      rw [CppType.removeCv, hcv]
      rfl
  | _ => exact hout

/-- **When the direct-output builders agree with the explicit binders.**  The
last parameter is declared as anything that is `direct_out<T>` up to cv-ref. -/
theorem taskInto_agrees_iff (declared : Callable) (T last : CppType)
    (hlast : declared.params.getLast? = some last) (hout : last.removeCvref = .directOut T)
    (receiver : Spec) (specs : List Spec) :
    let f := declared.functionType
    (TaskIntoAgrees T f specs ↔ last.isReference = false ∨ f.memberBindCallable = true
        ∨ T.isReference = true ∨ T.isVoid = true ∨ specs.length + 1 ≠ f.arity)
      ∧ (TaskIntoMemberAgrees T f receiver specs ↔ last.isReference = false
        ∨ f.memberBindCallable = false ∨ T.isReference = true ∨ T.isVoid = true
        ∨ specs.length + 1 ≠ f.arity) := by
  intro f
  have hlast' := functionType_getLast? hlast
  have hout' := removeCvref_removeCv hout
  constructor
  · rw [taskIntoAgrees_iff hlast' hout', validateBindInto_ok_iff hlast' hout',
      removeCv_eq_directOut hout]
    grind
  · rw [taskIntoMemberAgrees_iff hlast' hout', validateBindIntoMember_ok_iff hlast' hout',
      removeCv_eq_directOut hout]
    grind

/-- A `const direct_out<T>` parameter is one by value. -/
theorem taskInto_agrees_iff_const : TaskIntoAgrees (.object 0)
    (Callable.function [.cv .const (.directOut (.object 0))] .void).functionType [] :=
  (taskInto_agrees_iff (.function [.cv .const (.directOut (.object 0))] .void) (.object 0) _ rfl
    rfl (.value (.object 0)) []).1.mpr (Or.inl rfl)

/-- `bind_into<T>` takes a `const direct_out<T>&` parameter, `task_into` does not
compile for it. -/
theorem taskInto_refuses_reference :
    let f := (Callable.function [.constRef (.directOut (.object 0))] .void).functionType
    validateBindInto (.object 0) f [] = .ok
      ∧ taskInto f [] = .error .noDirectOutPayload
      ∧ ¬ TaskIntoAgrees (.object 0) f [] := by
  intro f
  refine ⟨rfl, rfl, fun h => ?_⟩
  have hbuilt := (h.built_iff (.boundOutputTask (.object 0) f [])).mpr ⟨rfl, rfl⟩
  cases hbuilt

end DirectOutput

/-! ## §7. Forward-prev: the inferred payload. -/

section UniquePrev

/-- The prev accesses in front of the first one to a `void` payload; all of them
if there is none. -/
def leadingPrevAccesses (specs : List Spec) : Nat :=
  (specs.takeWhile fun spec => !(spec.isPrevAccess && spec.payloadType.isVoid)).countP
    Spec.isPrevAccess

/-- `void` stands for no access and for two alike, so each access in front of a
tail flips the answer. -/
theorem uniquePrevPayload_isVoid : ∀ specs : List Spec,
    (forwardPrevUniquePrevPayload specs).isVoid = decide (leadingPrevAccesses specs % 2 = 0)
  | [] => rfl
  | spec :: rest => by
      have ih := uniquePrevPayload_isVoid rest
      rw [forwardPrevUniquePrevPayload, leadingPrevAccesses, List.takeWhile_cons]
      cases hprev : spec.isPrevAccess with
      | false =>
          -- any other spec is passed over by the recursion and by the count
          rw [if_neg (by simp), Bool.false_and, Bool.not_false, if_pos rfl,
            List.countP_cons_of_neg (by simp [hprev]), ih]
          rfl
      | true =>
          cases hvoid : spec.payloadType.isVoid with
          | true =>
              -- a `void` payload is the answer for none
              have hresult : (if (forwardPrevUniquePrevPayload rest).isVoid then spec.payloadType
                  else .void).isVoid = true := by
                split
                · exact hvoid
                · rfl
              rw [if_pos rfl, hresult]
              rfl
          | false =>
              rw [if_pos rfl, Bool.true_and, Bool.not_false, if_pos rfl,
                List.countP_cons_of_pos hprev, ← leadingPrevAccesses, ih]
              -- one more access in front: the parity changes, and so does the answer
              rcases Nat.mod_two_eq_zero_or_one (leadingPrevAccesses rest) with h | h
              · rw [if_pos (decide_eq_true h), hvoid, eq_comm, decide_eq_false_iff_not]
                omega
              · rw [if_neg (by simp [h]), CppType.isVoid_void, eq_comm, decide_eq_true_eq]
                omega

theorem uniquePrevPayload_of_none : ∀ {specs : List Spec},
    forwardPrevPrevAccessCount specs = 0 → forwardPrevUniquePrevPayload specs = .void
  | [], _ => rfl
  | spec :: rest, h => by
      rw [forwardPrevPrevAccessCount, List.countP_eq_zero] at h
      have hspec := h spec List.mem_cons_self
      rw [forwardPrevUniquePrevPayload, if_neg hspec]
      exact uniquePrevPayload_of_none
        (List.countP_eq_zero.mpr fun s hs => h s (List.mem_cons_of_mem _ hs))

/-- One prev access: its payload is the inferred one. -/
theorem uniquePrevPayload_of_one : ∀ {specs : List Spec} {spec : Spec},
    forwardPrevPrevAccessCount specs = 1 → spec ∈ specs → spec.isPrevAccess →
      forwardPrevUniquePrevPayload specs = spec.payloadType
  | head :: rest, spec, hcount, hmem, hprev => by
      rw [forwardPrevPrevAccessCount] at hcount
      rw [forwardPrevUniquePrevPayload]
      cases hhead : head.isPrevAccess with
      | true =>
          rw [List.countP_cons_of_pos hhead] at hcount
          -- the one access is in front, so the tail answers `void` for none
          have hnone : forwardPrevPrevAccessCount rest = 0 := by
            rw [forwardPrevPrevAccessCount]
            omega
          rw [if_pos rfl, uniquePrevPayload_of_none hnone, if_pos CppType.isVoid_void]
          rcases List.mem_cons.mp hmem with rfl | hmem
          · rfl
          · exact absurd hprev (List.countP_eq_zero.mp hnone spec hmem)
      | false =>
          rw [List.countP_cons_of_neg (by simp [hhead])] at hcount
          rw [if_neg (by simp)]
          rcases List.mem_cons.mp hmem with rfl | hmem
          · rw [hhead] at hprev
            cases hprev
          · exact uniquePrevPayload_of_one hcount hmem hprev

/-- What the name of `forward_prev_unique_prev_payload` and the assertions of
the two builders say. -/
structure UniquePrevGuard (specs : List Spec) : Prop where
  payload : (forwardPrevUniquePrevPayload specs).isVoid = false ↔
    forwardPrevPrevAccessCount specs = 1
  unique : forwardPrevPrevAccessCount specs = 1 → ∀ spec ∈ specs, spec.isPrevAccess →
    forwardPrevUniquePrevPayload specs = spec.payloadType
  guard : ∀ f : Callable, f.inferredForwardPrevSignatureMatches specs →
    ((∃ message, taskForwardPrev f specs = .error (.staticAssert message)) ↔
      forwardPrevPrevAccessCount specs ≠ 1)
  memberGuard : ∀ (f : Callable) (receiver : Spec) (rest : List Spec), specs = receiver :: rest →
    f.memberBoundSignatureMatches rest →
    ((∃ message, taskForwardPrevMember f receiver rest = .error (.staticAssert message)) ↔
      forwardPrevPrevAccessCount specs ≠ 1)

theorem constrained_true {α : Type} {constraint : Bool} (h : constraint = true)
    (expression : Except BuildError α) : constrained constraint expression = expression := by
  rw [constrained, if_pos h]

/-- The assertion fires exactly if no payload is inferred. -/
theorem inferPrevPayload_asserts {specs : List Spec} {message : String} {ε : Type}
    [DecidableEq ε] {error : CppType → ε} {ok : ε} {diagnostic : ε → BuildError}
    {task : CppType → BaseTask}
    (hdiagnostic : ∀ e m, diagnostic e ≠ .staticAssert m) :
    (∃ m, inferPrevPayload message specs (fun T => factory (error T) ok diagnostic (task T))
        = .error (.staticAssert m)) ↔ (forwardPrevUniquePrevPayload specs).isVoid = true := by
  unfold inferPrevPayload factory
  constructor
  · rintro ⟨m, hm⟩
    by_contra hvoid
    -- past the assertion only the binder's own diagnostic is left
    rw [if_neg hvoid] at hm
    beta_reduce at hm
    split at hm
    · cases hm
    · exact hdiagnostic _ _ (Except.error.inj hm)
  · intro hvoid
    exact ⟨message, by rw [if_pos hvoid]⟩

theorem taskForwardPrev_asserts {f : Callable} {specs : List Spec}
    (h : f.inferredForwardPrevSignatureMatches specs) :
    (∃ m, taskForwardPrev f specs = .error (.staticAssert m)) ↔
      (forwardPrevUniquePrevPayload specs).isVoid = true := by
  have hcallable : f.ordinaryBindCallable = true := by
    rw [Callable.inferredForwardPrevSignatureMatches, Bool.and_eq_true] at h
    exact h.1
  rw [taskForwardPrev, constrained_true hcallable, constrained_true h]
  exact inferPrevPayload_asserts fun _ _ => nofun

theorem taskForwardPrevMember_asserts {f : Callable} {receiver : Spec} {specs : List Spec}
    (h : f.memberBoundSignatureMatches specs) :
    (∃ m, taskForwardPrevMember f receiver specs = .error (.staticAssert m)) ↔
      (forwardPrevUniquePrevPayload (receiver :: specs)).isVoid = true := by
  have hcallable : f.ordinaryMemberBindCallable = true := by
    rw [Callable.memberBoundSignatureMatches, Bool.and_eq_true] at h
    exact h.1
  rw [taskForwardPrevMember, constrained_true hcallable, constrained_true h]
  exact inferPrevPayload_asserts fun _ _ => nofun

/-- **The guard means what it says exactly on these lists**: an odd number of
accesses in front of the first `void` payload has to be one access in all. -/
theorem uniquePrevPayload_iff (specs : List Spec) : UniquePrevGuard specs ↔
    (leadingPrevAccesses specs % 2 = 1 ↔ forwardPrevPrevAccessCount specs = 1) := by
  have hvoid := uniquePrevPayload_isVoid specs
  have hodd : (forwardPrevUniquePrevPayload specs).isVoid = false ↔
      leadingPrevAccesses specs % 2 = 1 := by
    rw [hvoid, decide_eq_false_iff_not]
    omega
  constructor
  · intro h
    exact hodd.symm.trans h.payload
  · intro h
    have hassert : (forwardPrevUniquePrevPayload specs).isVoid = true ↔
        forwardPrevPrevAccessCount specs ≠ 1 := by
      rw [hvoid, decide_eq_true_eq, ne_eq, ← h]
      omega
    constructor
    case payload => exact hodd.trans h
    case unique => exact fun hcount spec hmem hprev => uniquePrevPayload_of_one hcount hmem hprev
    case guard => exact fun f hf => (taskForwardPrev_asserts hf).trans hassert
    case memberGuard =>
      rintro f receiver rest rfl hf
      exact (taskForwardPrevMember_asserts hf).trans hassert

/-- Three prev accesses pass the guard; the binder behind it refuses them. -/
theorem threeBorrows_inferred :
    let specs := List.replicate 3 (Spec.borrowPrevMut (.object 0))
    let f := Callable.function (List.replicate 3 (.lvalueRef (.object 0))) .void
    forwardPrevUniquePrevPayload specs = .object 0
      ∧ taskForwardPrev f specs = .error (.bindForwardPrev .prevAccessCountInvalid)
      ∧ ¬ UniquePrevGuard specs := by
  intro specs f
  refine ⟨rfl, rfl, fun h => ?_⟩
  have hone : forwardPrevPrevAccessCount specs = 1 := h.payload.mp rfl
  cases hone

end UniquePrev

end Builders

end YOrch
