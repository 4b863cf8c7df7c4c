/-
  YOrch.Executor.Concepts — what `enter_node` compiles for.

  Two things are only checked when a node's entry is instantiated: that its
  specs resolve against the view of the parent's payload the node is given and
  the run's context, and that its task's entry point is `noexcept`.  The type
  traits both rest on are parameters.

    • `resolves_payload` — a spec that resolves asks for the parent's type,
    • `nodeResolvesIn_iff` — what of this a valid plan leaves open,
    • `invokeNothrow_iff` — an entry point is `noexcept` exactly if the bound
      task's is or an adapter catches.
-/
import YOrch.Bind.Resolution
import YOrch.Executor.Adapters
import YOrch.Plan.Owners

namespace YOrch

/-! ## §1. Views. -/

namespace CompiledPlan

variable (plan : CompiledPlan)

/-- The type of the objects node `i` outputs. -/
def objectType (i : Nat) : CppType := (plan.outputType i).removeCv

/-- `node_prev_view_t`: the view `make_node_prev_view` returns for node `i`, or
`none` for `no_prev`. -/
def nodePrevView (i : Nat) : Option PrevView :=
  if plan.parentIndex i = plan.noParent then none
  else if (plan.outputType (plan.parentIndex i)).isVoid then none
  else if plan.nodeUsesStagedCopyPrev i then some ⟨plan.objectType (plan.parentIndex i), true⟩
  else if (plan.task i).usesExclusivePrevAccess then
    some ⟨plan.objectType (plan.parentIndex i), (plan.outputType (plan.parentIndex i)).isConst⟩
  else some ⟨plan.objectType (plan.parentIndex i), true⟩

/-- Every assertion holds that instantiating node `i`'s entry makes about its
specs. -/
def nodeResolvesIn (traits : BindTraits) (ctx : Option (List CppType)) (i : Nat) : Bool :=
  let task := (plan.task i).bound
  (match task.receiverSpec, task.callable with
    | some receiver, .member classType receiverIsConst _ _ =>
        receiver.resolveMemberReceiverAsserts traits ctx (plan.nodePrevView i) classType
          receiverIsConst
    | _, _ => true)
    && (task.specs.zip task.callable.params).all fun (spec, arg) =>
      spec.resolveAsAsserts traits ctx (plan.nodePrevView i) arg

/-- The part of `resolve_member_receiver`'s assertions about types, for a task
that has a receiver. -/
def receiverResolvesOn (view : PrevView) (task : BaseTask) : Bool :=
  match task.receiverSpec, task.callable with
  | some receiver, .member classType receiverIsConst _ _ =>
      receiver.receiverViewAsserts view classType receiverIsConst
  | _, _ => true

/-- The part of node `i`'s assertions that type a run: those about the types of
its prev-access specs.  `no_prev` contains nothing. -/
def nodeResolves (i : Nat) : Bool :=
  match plan.nodePrevView i with
  | none => (plan.task i).bound.allSpecs.all fun spec => !spec.isPrevAccess
  | some view =>
      receiverResolvesOn view (plan.task i).bound
        && ((plan.task i).bound.specs.zip (plan.task i).bound.callable.params).all
          fun (spec, arg) => spec.viewAsserts view arg

variable {plan} {i : Nat}

theorem nodePrevView_type {view : PrevView} (h : plan.nodePrevView i = some view) :
    view.type = plan.objectType (plan.parentIndex i) := by
  unfold nodePrevView at h
  split_ifs at h
  all_goals
    obtain rfl := Option.some.inj h
    rfl

/-- An assertion on a prev-access spec compares its type with the view's. -/
theorem payload_of_resolveAs {spec : Spec} {view : PrevView} {arg : CppType}
    (hprev : spec.isPrevAccess) (h : spec.viewAsserts view arg) :
    spec.payloadType = view.type := by
  have hremove : ∀ t : CppType, t.removeCvref.removeCv = t.removeCvref :=
    fun t => CppType.removeCv_removeCv _
  cases spec with
  | borrowPrev t | copyPrev t =>
      simp only [Spec.viewAsserts, Bool.and_eq_true, PrevView.contains, beq_iff_eq,
        hremove] at h
      exact h.2
  | borrowPrevMut t | consumePrev t =>
      simp only [Spec.viewAsserts, Bool.and_eq_true, PrevView.contains, beq_iff_eq,
        hremove] at h
      exact h.1.2
  | fromCtx t | value t => cases hprev

/-- An assertion on a spec with exclusive access rejects const views. -/
theorem mutable_of_resolveAs {spec : Spec} {view : PrevView} {arg : CppType}
    (hexclusive : spec.isExclusive) (h : spec.viewAsserts view arg) :
    view.isConst = false := by
  cases spec with
  | borrowPrevMut t | consumePrev t =>
      rw [Spec.viewAsserts, Bool.and_eq_true, Bool.not_eq_true'] at h
      exact h.2
  | fromCtx t | borrowPrev t | copyPrev t | value t => cases hexclusive

/-- What is asserted about a receiver is asserted about what it is resolved to. -/
theorem resolveAs_of_receiver {receiver : Spec} {view : PrevView} {classType result : CppType}
    {receiverIsConst : Bool} {params : List CppType}
    (h : receiver.receiverViewAsserts view classType receiverIsConst) :
    receiver.viewAsserts view
      (BaseTask.receiverArg (.member classType receiverIsConst params result) receiver) := by
  cases receiver with
  | copyPrev t | consumePrev t =>
      rw [Spec.receiverViewAsserts, Bool.and_eq_true] at h
      exact h.2
  | borrowPrev t | borrowPrevMut t | fromCtx t | value t =>
      cases receiverIsConst with
      | true => exact h
      | false => exact h

/-- A node whose specs resolve has a receiver that does. -/
theorem nodeResolves_receiver (h : plan.nodeResolves i) {view : PrevView}
    (hview : plan.nodePrevView i = some view) {receiver : Spec} {classType result : CppType}
    {receiverIsConst : Bool} {params : List CppType}
    (hspec : (plan.task i).bound.receiverSpec = some receiver)
    (hf : (plan.task i).bound.callable = .member classType receiverIsConst params result) :
    receiver.receiverViewAsserts view classType receiverIsConst := by
  rw [nodeResolves, hview] at h
  dsimp only at h
  rw [Bool.and_eq_true, receiverResolvesOn, hspec, hf] at h
  exact h.1

/-- Every binding resolves against the node's view. -/
theorem nodeResolves_bindings (haccepted : (plan.task i).bound.accepted) (h : plan.nodeResolves i)
    {view : PrevView} (hview : plan.nodePrevView i = some view) {binding : Spec × CppType}
    (hbinding : binding ∈ (plan.task i).bound.bindings) :
    binding.1.viewAsserts view binding.2 := by
  rw [BaseTask.bindings, List.mem_append] at hbinding
  rcases hbinding with hreceiver | harg
  · -- the receiver of a member task
    obtain ⟨receiver, hmem, rfl⟩ := List.mem_map.mp hreceiver
    have hspec : (plan.task i).bound.receiverSpec = some receiver := Option.mem_toList.mp hmem
    obtain ⟨classType, receiverIsConst, params, result, hf⟩ :=
      BaseTask.member_of_receiver haccepted hspec
    rw [hf]
    exact resolveAs_of_receiver (nodeResolves_receiver h hview hspec hf)
  · rw [nodeResolves, hview] at h
    dsimp only at h
    rw [Bool.and_eq_true, List.all_eq_true] at h
    exact h.2 binding harg

/-- The spec of a binding is among the task's. -/
theorem spec_of_binding {binding : Spec × CppType}
    (hbinding : binding ∈ (plan.task i).bound.bindings) :
    binding.1 ∈ (plan.task i).bound.allSpecs :=
  (BaseTask.bindings_sublist _).subset (List.mem_map_of_mem hbinding)

/-- **Types of views.**  A prev-access spec that resolves asks for an object of the
type the parent outputs. -/
theorem resolves_payload (haccepted : (plan.task i).bound.accepted) (h : plan.nodeResolves i)
    {binding : Spec × CppType} (hbinding : binding ∈ (plan.task i).bound.bindings)
    (hprev : binding.1.isPrevAccess) :
    binding.1.payloadType = plan.objectType (plan.parentIndex i) := by
  cases hview : plan.nodePrevView i with
  | none =>
      rw [nodeResolves, hview] at h
      have hnot := List.all_eq_true.mp h binding.1 (spec_of_binding hbinding)
      rw [hprev] at hnot
      cases hnot
  | some view =>
      rw [← nodePrevView_type hview]
      exact payload_of_resolveAs hprev (nodeResolves_bindings haccepted h hview hbinding)

end CompiledPlan

theorem Task.uses_of_spec {task : Task} {spec : Spec} (h : spec ∈ task.bound.allSpecs)
    (hprev : spec.isPrevAccess) : task.usesPrevAccess := by
  simp only [usesPrevAccess, summary_eq, summarizeSpecs_eq, bne_iff_ne, ne_eq, List.countP_eq_zero,
    not_forall, not_not]
  exact ⟨spec, h, hprev⟩

theorem Task.exclusive_of_spec {task : Task} {spec : Spec} (h : spec ∈ task.bound.allSpecs)
    (hexclusive : spec.isExclusive) : task.usesExclusivePrevAccess := by
  simp only [usesExclusivePrevAccess, summary_eq, summarizeSpecs_eq, bne_iff_ne, ne_eq,
    List.countP_eq_zero, not_forall, not_not]
  exact ⟨spec, h, hexclusive⟩

namespace ValidPlan

variable {plan : ValidPlan} {i : Nat}

/-- The view of a node with exclusive access is as const as its parent's output. -/
theorem view_isConst {view : PrevView} (hview : plan.nodePrevView i = some view)
    (hexclusive : (plan.task i).usesExclusivePrevAccess) :
    view.isConst = (plan.outputType (plan.parentIndex i)).isConst := by
  unfold CompiledPlan.nodePrevView at hview
  split_ifs at hview with _ _ hstaged
  · -- a staged copy is for tasks that only copy
    rw [CompiledPlan.nodeUsesStagedCopyPrev] at hstaged
    split_ifs at hstaged
    rw [Bool.and_eq_true] at hstaged
    rw [Task.copyOnly_not_exclusive hstaged.2] at hexclusive
    cases hexclusive
  · obtain rfl := Option.some.inj hview
    rfl

/-- Without a view there is nothing to resolve. -/
theorem no_view (hi : i < plan.nodeCount) (hview : plan.nodePrevView i = none) :
    (plan.task i).usesPrevAccess = false := by
  by_contra huses
  obtain ⟨hpos, houtput⟩ := parent_output hi (Bool.not_eq_false _ |>.mp huses)
  unfold CompiledPlan.nodePrevView at hview
  split_ifs at hview with hroot hvoid
  · exact parentIndex_ne hpos hi hroot
  · rw [houtput] at hvoid
    cases hvoid

/-- A node without a view reads nothing, or the plan would not be valid. -/
theorem specs_of_no_view (hi : i < plan.nodeCount) (hview : plan.nodePrevView i = none) :
    ∀ spec ∈ (plan.task i).bound.allSpecs, spec.isPrevAccess = false := by
  intro spec hspec
  by_contra hprev
  have huses := Task.uses_of_spec hspec (Bool.not_eq_false _ |>.mp hprev)
  rw [no_view hi hview] at huses
  cases huses

/-- A task without prev access has no receiver that is a borrow. -/
theorem mutableReceiver_of_none {task : BaseTask}
    (hnone : ∀ spec ∈ task.allSpecs, spec.isPrevAccess = false) :
    task.mutableReceiverOfConst = false := by
  unfold BaseTask.mutableReceiverOfConst
  split
  · next receiver _ _ _ _ hreceiver _ =>
      have hprev : receiver.isPrevAccess = false := by
        apply hnone
        rw [BaseTask.allSpecs, hreceiver]
        exact List.mem_cons_self
      rw [Spec.isPrevAccess, bne_eq_false_iff_eq] at hprev
      rw [Spec.mutableReceiverOfConst, hprev]
      rfl
  · rfl

section Agree

variable {task : BaseTask} {view : PrevView} (hvalid : task.prevAccessBindingsValid)
  (hagree : ∀ binding ∈ task.bindings, binding.1.isPrevAccess →
    view.type = binding.1.payloadType ∧ (binding.1.isExclusive → view.isConst = false))

include hvalid hagree

/-- Arguments that were checked resolve on a view of the payload type. -/
theorem argsResolve_of_agrees : ((task.specs.zip task.callable.params).all
    fun (spec, arg) => spec.viewAsserts view arg) = true := by
  rw [BaseTask.prevAccessBindingsValid, Bool.and_eq_true] at hvalid
  rw [List.all_eq_true]
  rintro ⟨spec, arg⟩ hmem
  have hmatches := List.all_eq_true.mp hvalid.2 _ hmem
  dsimp only at hmatches ⊢
  cases hprev : spec.isPrevAccess with
  | false => cases spec <;> first | rfl | cases hprev
  | true =>
      obtain ⟨htype, hmutable⟩ := hagree (spec, arg) (List.mem_append_right _ hmem) hprev
      rw [← matchesArg_iff hprev htype hmutable]
      rwa [hprev, Bool.not_true, Bool.false_or] at hmatches

/-- So does a receiver, unless it is a mutable borrow for a const member. -/
theorem receiverResolvesOn_of_agrees (hclass : task.callable.classUnqualified)
    (hconst : task.mutableReceiverOfConst = false) :
    CompiledPlan.receiverResolvesOn view task = true := by
  rw [BaseTask.prevAccessBindingsValid, Bool.and_eq_true] at hvalid
  have hreceiver := hvalid.1
  unfold CompiledPlan.receiverResolvesOn
  split
  · next receiver classType receiverIsConst params result hspec hf =>
      rw [hspec] at hreceiver
      rw [BaseTask.mutableReceiverOfConst, hspec, hf] at hconst
      dsimp only at hconst hreceiver
      rw [hf] at hreceiver hclass
      cases hprev : receiver.isPrevAccess with
      | false => cases receiver <;> first | rfl | cases hprev
      | true =>
          have hbinding : (receiver, BaseTask.receiverArg task.callable receiver)
              ∈ task.bindings := by
            apply List.mem_append_left
            rw [hspec]
            exact List.mem_singleton_self _
          obtain ⟨htype, hmutable⟩ := hagree _ hbinding hprev
          have hmatches : receiver.matchesMemberReceiver classType receiverIsConst = true := by
            rwa [hprev, Bool.not_true, Bool.false_or] at hreceiver
          rw [matchesMemberReceiver_iff hprev htype hmutable (beq_iff_eq.mp hclass), hconst,
            Bool.or_false] at hmatches
          exact hmatches
  · rfl

end Agree

/-- The assertions on types. -/
theorem nodeResolves_iff (plan : ValidPlan) (i : Nat) (hi : i < plan.nodeCount)
    (hclass : (plan.task i).bound.callable.classUnqualified) :
    plan.nodeResolves i ↔
      (∀ binding ∈ (plan.task i).bound.bindings, binding.1.isPrevAccess →
        binding.1.payloadType = plan.objectType (plan.parentIndex i)
          ∧ (binding.1.isExclusive → (plan.outputType (plan.parentIndex i)).isConst = false))
      ∧ (plan.task i).bound.mutableReceiverOfConst = false := by
  have haccepted := plan.bound i hi
  have hvalid : (plan.task i).bound.prevAccessBindingsValid := by
    have := Task.bound_valid (prevAccessValid hi)
    rw [BaseTask.prevAccessValid, Bool.and_eq_true] at this
    exact this.1
  cases hview : plan.nodePrevView i with
  | none =>
      have hnone := specs_of_no_view hi hview
      constructor
      · intro _
        refine ⟨fun binding hbinding hprev => ?_, mutableReceiver_of_none hnone⟩
        rw [hnone _ (CompiledPlan.spec_of_binding hbinding)] at hprev
        cases hprev
      · intro _
        rw [CompiledPlan.nodeResolves, hview, List.all_eq_true]
        intro spec hspec
        rw [hnone spec hspec, Bool.not_false]
  | some view =>
      constructor
      · intro h
        refine ⟨fun binding hbinding hprev =>
          ⟨CompiledPlan.resolves_payload haccepted h hbinding hprev, fun hexclusive => ?_⟩, ?_⟩
        · rw [← view_isConst hview
            (Task.exclusive_of_spec (CompiledPlan.spec_of_binding hbinding) hexclusive)]
          exact CompiledPlan.mutable_of_resolveAs hexclusive
            (CompiledPlan.nodeResolves_bindings haccepted h hview hbinding)
        · unfold BaseTask.mutableReceiverOfConst
          split
          · next receiver classType receiverIsConst _ _ hspec hf =>
              have hasserts := CompiledPlan.nodeResolves_receiver h hview hspec hf
              by_contra hbad
              rw [mutableReceiver_rejected (Bool.not_eq_false _ |>.mp hbad)] at hasserts
              cases hasserts
          · rfl
      · rintro ⟨hbindings, hconst⟩
        -- the node's view is as the check of the task took it to be
        have hagree : ∀ binding ∈ (plan.task i).bound.bindings, binding.1.isPrevAccess →
            view.type = binding.1.payloadType
              ∧ (binding.1.isExclusive → view.isConst = false) := by
          intro binding hbinding hprev
          obtain ⟨htype, hmutable⟩ := hbindings binding hbinding hprev
          refine ⟨(CompiledPlan.nodePrevView_type hview).trans htype.symm, fun hexclusive => ?_⟩
          rw [view_isConst hview
            (Task.exclusive_of_spec (CompiledPlan.spec_of_binding hbinding) hexclusive)]
          exact hmutable hexclusive
        rw [CompiledPlan.nodeResolves, hview]
        dsimp only
        rw [receiverResolvesOn_of_agrees hvalid hagree hclass hconst,
          argsResolve_of_agrees hvalid hagree, Bool.and_self]

/-- Where a receiver that does not read the parent comes from. -/
theorem sourceAsserts_receiverArg {traits : BindTraits} {ctx : Option (List CppType)}
    {receiver : Spec} {classType result : CppType} {receiverIsConst : Bool}
    {params : List CppType} :
    receiver.sourceAsserts traits ctx
        (BaseTask.receiverArg (.member classType receiverIsConst params result) receiver)
      = receiver.sourceAsserts traits ctx (memberReceiverArg classType receiverIsConst) := by
  cases receiver with
  | fromCtx t | value t => cases receiverIsConst <;> rfl
  | borrowPrev t | borrowPrevMut t | copyPrev t | consumePrev t => rfl

/-- The assertions on types, and the others. -/
theorem nodeResolvesIn_parts {traits : BindTraits} {ctx : Option (List CppType)}
    (hi : i < plan.nodeCount) :
    plan.nodeResolvesIn traits ctx i ↔ plan.nodeResolves i ∧
      ∀ binding ∈ (plan.task i).bound.bindings,
        binding.1.copyable traits ∧ binding.1.sourceAsserts traits ctx binding.2 := by
  rw [BaseTask.forall_bindings]
  unfold CompiledPlan.nodeResolvesIn CompiledPlan.nodeResolves
  cases hview : plan.nodePrevView i with
  | none =>
      -- no spec reads the parent, and only the sources matter
      have hnone := specs_of_no_view hi hview
      have hreads : ((plan.task i).bound.allSpecs.all fun spec => !spec.isPrevAccess) = true := by
        rw [List.all_eq_true]
        exact fun spec hspec => by rw [hnone spec hspec, Bool.not_false]
      dsimp only
      rw [hreads, Bool.and_eq_true, List.all_eq_true]
      simp only [true_and]
      apply and_congr
      · cases hreceiver : (plan.task i).bound.receiverSpec with
        | none => simp
        | some receiver =>
            obtain ⟨classType, receiverIsConst, params, result, hf⟩ :=
              BaseTask.member_of_receiver (plan.bound i hi) hreceiver
            have hsource := hnone receiver (by simp [BaseTask.allSpecs, hreceiver])
            rw [hf]
            simp only [Option.some.injEq, forall_eq', copyable_source hsource, true_and,
              sourceAsserts_receiverArg]
            rw [resolveMemberReceiverAsserts_source hsource]
      · apply forall₂_congr
        rintro ⟨spec, arg⟩ hmem
        have hsource := hnone spec (List.mem_append_right _ (List.of_mem_zip hmem).1)
        simp only [copyable_source hsource, resolveAsAsserts_source hsource, true_and]
  | some view =>
      dsimp only
      rw [Bool.and_eq_true, Bool.and_eq_true, and_and_and_comm, List.all_eq_true,
        List.all_eq_true, ← forall₂_and]
      apply and_congr
      · unfold CompiledPlan.receiverResolvesOn
        cases hreceiver : (plan.task i).bound.receiverSpec with
        | none => simp
        | some receiver =>
            obtain ⟨classType, receiverIsConst, params, result, hf⟩ :=
              BaseTask.member_of_receiver (plan.bound i hi) hreceiver
            rw [hf]
            simp only [Option.some.injEq, forall_eq', resolveMemberReceiverAsserts_eq,
              sourceAsserts_receiverArg, Bool.and_eq_true, and_assoc]
      · apply forall₂_congr
        rintro ⟨spec, arg⟩ -
        simp only [resolveAsAsserts_eq, Bool.and_eq_true, and_assoc]

/-- Children that copy a payload of the type their parent outputs, and of another
one. -/
def mismatchPlan : ValidPlan where
  toPlanShape := .twoChildren
  task
    | 0 => .base (.boundTask (.function [] (.object 0)) [])
    | 1 => .base (.boundTask (.function [.object 0] .void) [.copyPrev (.object 0)])
    | _ => .base (.boundTask (.function [.object 1] .void) [.copyPrev (.object 1)])
  fanoutPolicy := fun _ => .auto
  bound := by decide
  runnable := by decide
  slotsFormed := by decide

end ValidPlan

/-! ## §2. Exceptions. -/

/-- The type traits the exception specifications ask. -/
structure NothrowTraits where
  /-- `std::is_nothrow_constructible_v<T, Source>`. -/
  constructible : CppType → CppType → Bool
  /-- `ctx_get_nothrow_v` of the run's context. -/
  ctxGet : CppType → Bool

namespace Spec

variable (traits : NothrowTraits)

/-- `bind_from_lvalue_nothrow_v`. -/
def bindFromLvalueNothrow (arg source : CppType) : Bool :=
  match arg with
  | .rvalueRef _ => false
  | .lvalueRef _ => true
  | arg => traits.constructible arg.removeCvref (.lvalueRef source)

/-- The exception specifications of `resolve_as`.  `hasPrev` says that the node
has a prev view: the `get` of `no_prev` is not `noexcept`. -/
def resolveNothrow (hasPrev : Bool) (spec : Spec) (arg : CppType) : Bool :=
  match spec with
  | .fromCtx t => traits.ctxGet t.removeCvref && bindFromLvalueNothrow traits arg t.removeCvref
  | .borrowPrev _ | .borrowPrevMut _ => hasPrev
  | .copyPrev t => hasPrev && traits.constructible t.removeCvref t.removeCvref.constRef
  | .consumePrev t =>
      hasPrev && (arg == .rvalueRef t.removeCvref
        || traits.constructible arg.removeCvref (.rvalueRef t.removeCvref))
  | .value (.referenceWrapper _) => arg.isReference
  | .value t => arg.isReference || traits.constructible arg.removeCvref (.lvalueRef t)

end Spec

/-- The exception specification of the bound tasks' `invoke_raw` and
`invoke_into`.  `callable` is `std::is_nothrow_invocable_v` of the callable and
what its arguments are resolved to. -/
def BaseTask.invokeNothrow (traits : NothrowTraits) (hasPrev callable : Bool) (task : BaseTask) :
    Bool :=
  callable && task.bindings.all fun binding => binding.1.resolveNothrow traits hasPrev binding.2

namespace Task

/-- An adapter around the task catches exceptions. -/
def catches : Task → Bool
  | .base _ => false
  | .catchFailureTask _ | .catchFailureWithPolicyTask _ _ => true
  | .retryTask task => task.catches

/-- The exception specification of a task's entry point.  The members of a retry
policy are `noexcept`. -/
def invokeNothrow (traits : NothrowTraits) (hasPrev callable : Bool) : Task → Bool
  | .base task => task.invokeNothrow traits hasPrev callable
  | .catchFailureTask _ | .catchFailureWithPolicyTask _ _ => true
  | .retryTask task => task.invokeNothrow traits hasPrev callable

/-- `default_catch_supported_v`. -/
def defaultCatchSupported (raw : CppType) : Bool := raw.isVoid || raw == .stepResult

/-- The `requires` clauses of the adapters' entry points: `default_catchable_task`
and `catch_policy_compatible_task` for `invoke_raw`.  A direct-output task is only
entered through `invoke_into`. -/
def adaptable : Task → Bool
  | .base _ => true
  | .catchFailureTask task =>
      task.adaptable && (task.usesDirectOutputProtocol || defaultCatchSupported task.rawResultType)
  | .catchFailureWithPolicyTask _ task =>
      task.adaptable && (task.usesDirectOutputProtocol || !task.rawResultType.isReference)
  | .retryTask task => task.adaptable

/-- What `executable_task` and `executable_direct_output_task` ask of the adapters
and of `noexcept`.  Not asked here: that `invoke_raw` returns the declared raw
result, which adapters around a `const` status do not, and what
`Task.policiesSupported` states. -/
def executable (traits : NothrowTraits) (hasPrev callable : Bool) (task : Task) : Bool :=
  task.adaptable && task.invokeNothrow traits hasPrev callable

variable {traits : NothrowTraits} {hasPrev callable : Bool}

/-- **Which entry points are `noexcept`.** -/
theorem invokeNothrow_iff : ∀ task : Task, task.invokeNothrow traits hasPrev callable
    = (task.catches || task.bound.invokeNothrow traits hasPrev callable)
  | .base _ => rfl
  | .catchFailureTask _ | .catchFailureWithPolicyTask _ _ => rfl
  | .retryTask task => invokeNothrow_iff task

/-- The results a default catch makes up are of a kind it supports. -/
theorem defaultCatch_isSome {V : Type} {task : Task} (hsupported : task.policiesSupported)
    (href : task.rawResultType.isReference = false)
    (h : defaultCatchSupported task.rawResultType) :
    (defaultCatchFailureResult task.rawKind : Option (task.rawKind.caught.Result V)).isSome := by
  have hkind : task.rawKind = .void ∨ task.rawKind = .step := by
    rw [rawKind_eq hsupported href, CppType.rawKind, CppType.removeCvref_eq href]
    rw [defaultCatchSupported, Bool.or_eq_true, CppType.isVoid, beq_iff_eq, beq_iff_eq] at h
    rcases h with hvoid | hstep
    · rw [hvoid]
      exact Or.inl rfl
    · rw [hstep]
      exact Or.inr rfl
  rcases hkind with hkind | hkind
  · rw [hkind]
    rfl
  · rw [hkind]
    rfl

end Task

namespace CompiledPlan

variable (plan : CompiledPlan) (traits : NothrowTraits) (callable : Nat → Bool)

/-- What the instantiation of `enter_node<I>` asserts. -/
def nodeExecutable (i : Nat) : Bool :=
  plan.nodeResolves i
    && (plan.task i).executable traits (plan.nodePrevView i).isSome (callable i)

end CompiledPlan

end YOrch
