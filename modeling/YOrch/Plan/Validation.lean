/-
  YOrch.Plan.Validation — compiled plans with tasks, and what makes one valid.

  `CompiledPlan` adds the tasks and fanout policies to a `PlanShape`;
  `ValidPlan` is one that every check in front of `run_plan` accepts, with the
  acceptance as its fields.  The checks look at a node and its parent, or at a
  parent and its children; the lemmas say what they give:

    • `forward_only_child` — the parent of a forward-prev node has no other
      child,
    • `exclusive_sibling` — next to an exclusive child, every sibling with prev
      access reads a staged copy,
    • `parent_output` — a node with prev access has a parent with a payload.
-/
import YOrch.Bind.Tasks
import YOrch.Plan.Paths

namespace YOrch

open Library

/-- `task_tree/policies.hpp`. -/
inductive FanoutPolicy where
  | auto
  | sharedReadonly
  | consumeWithCopies
  deriving Repr, DecidableEq

/-- `compiled_plan`: the shape, and each node's task and fanout policy. -/
structure CompiledPlan extends PlanShape where
  task : Nat → Task
  fanoutPolicy : Nat → FanoutPolicy

namespace CompiledPlan

variable (plan : CompiledPlan)

/-! ## §1. Node metadata. -/

/-- `compiled_plan::output_type<I>`. -/
def outputType (i : Nat) : CppType := (plan.task i).outputType

/-- `compiled_plan::output_storage_mode_for<I>`. -/
def outputStorageMode (i : Nat) : OutputStorageMode := (plan.task i).outputStorageMode

/-- `compiled_plan::slot_logical_policy_for<I>`. -/
def slotLogicalPolicy (i : Nat) : SlotLogicalPolicy := (plan.task i).slotLogicalPolicy

/-- `payload_node`. -/
def payloadNode (i : Nat) : Bool := YOrch.payloadNode plan.outputStorageMode i

/-- `canonical_output_owner_node_v`.  A forward-prev node at the root does not
compile. -/
def canonicalOutputOwnerNode (i : Nat) : Nat :=
  if (plan.outputType i).isVoid then plan.noParent
  else if _ : plan.outputStorageMode i = .forwardedPrev ∧ plan.parentIndex i < i then
    canonicalOutputOwnerNode (plan.parentIndex i)
  else i
termination_by i
decreasing_by omega

/-! ## §2. Prev-access validation. -/

/-- `node_prev_source_valid`. -/
def nodePrevSourceValid (i : Nat) : Bool :=
  if (plan.task i).usesForwardPrevOutputProtocol then true
  else if plan.parentIndex i = plan.noParent then !(plan.task i).usesPrevAccess
  else if (plan.outputType (plan.parentIndex i)).isVoid then !(plan.task i).usesPrevAccess
  else true

/-- `node_prev_access_valid`. -/
def nodePrevAccessValid (i : Nat) : Bool := (plan.task i).prevAccessValid

/-- `node_forward_prev_source_valid`. -/
def nodeForwardPrevSourceValid (i : Nat) : Bool :=
  if !(plan.task i).usesForwardPrevOutputProtocol then true
  else if plan.parentIndex i = plan.noParent then false
  else !(plan.outputType (plan.parentIndex i)).isVoid

/-- A fold over the node indices with `&&`. -/
def allNodes (p : Nat → Bool) : Bool := (List.range plan.nodeCount).all p

/-- A fold over the node indices with `||`. -/
def anyNode (p : Nat → Bool) : Bool := (List.range plan.nodeCount).any p

/-- `plan_prev_source_valid_v`. -/
def planPrevSourceValid : Bool := plan.allNodes plan.nodePrevSourceValid

/-- `plan_prev_access_valid_v`. -/
def planPrevAccessValid : Bool := plan.allNodes plan.nodePrevAccessValid

/-- `plan_forward_prev_source_valid_v`. -/
def planForwardPrevSourceValid : Bool := plan.allNodes plan.nodeForwardPrevSourceValid

/-! ## §3. Fanout validation. -/

/-- `parent_exclusive_prev_child_count_impl`. -/
def parentExclusivePrevChildCount (p : Nat) : Nat :=
  (plan.children p).countP fun c => (plan.task c).usesExclusivePrevAccess

/-- `parent_copy_only_prev_child_count_impl`. -/
def parentCopyOnlyPrevChildCount (p : Nat) : Nat :=
  (plan.children p).countP fun c => (plan.task c).usesCopyOnlyPrevAccess

/-- `parent_consume_only_prev_child_count_impl`: `consume_only` is
`task_uses_consume_prev_v`. -/
def parentConsumeOnlyPrevChildCount (p : Nat) : Nat :=
  (plan.children p).countP fun c => (plan.task c).usesConsumePrev

/-- `parent_has_non_copy_or_consume_prev_child_impl`. -/
def parentHasNonCopyOrConsumePrevChild (p : Nat) : Bool :=
  (plan.children p).any fun c =>
    (plan.task c).usesPrevAccess && !(plan.task c).usesCopyOnlyPrevAccess
      && !(plan.task c).usesConsumePrev

/-- `parent_fanout_policy_valid`. -/
def parentFanoutPolicyValid (p : Nat) : Bool :=
  if plan.childCount p = 0 then true
  else
    match plan.fanoutPolicy p with
    | .auto =>
        if plan.childCount p ≤ 1 then true else plan.parentExclusivePrevChildCount p == 0
    | .sharedReadonly => plan.parentExclusivePrevChildCount p == 0
    | .consumeWithCopies =>
        !plan.parentHasNonCopyOrConsumePrevChild p
          && decide (plan.parentConsumeOnlyPrevChildCount p ≤ 1)

/-- `plan_fanout_policy_valid_v`. -/
def planFanoutPolicyValid : Bool := plan.allNodes plan.parentFanoutPolicyValid

/-- `parent_requires_fanout_staging_v`. -/
def parentRequiresFanoutStaging (p : Nat) : Bool :=
  plan.fanoutPolicy p == .consumeWithCopies
    && plan.parentConsumeOnlyPrevChildCount p == 1
    && plan.parentCopyOnlyPrevChildCount p != 0

/-- `node_uses_staged_copy_prev_v`. -/
def nodeUsesStagedCopyPrev (i : Nat) : Bool :=
  if plan.parentIndex i = plan.noParent then false
  else plan.parentRequiresFanoutStaging (plan.parentIndex i)
    && (plan.task i).usesCopyOnlyPrevAccess

/-! ## §4. `validate_plan`. -/

/-- `plan_validation_error`. -/
inductive PlanValidationError where
  | ok
  | prevAccessRootNode
  | prevAccessVoidParent
  | forwardPrevRootNode
  | forwardPrevVoidParent
  | forwardPrevParentTypeMismatch
  | prevAccessModeInvalid
  | fanoutPolicyInvalid
  deriving Repr, DecidableEq

/-- `node_uses_root_prev_access`. -/
def nodeUsesRootPrevAccess (i : Nat) : Bool :=
  !(plan.task i).usesForwardPrevOutputProtocol && (plan.task i).usesPrevAccess
    && plan.parentIndex i == plan.noParent

/-- `node_uses_void_parent_prev_access`. -/
def nodeUsesVoidParentPrevAccess (i : Nat) : Bool :=
  if plan.parentIndex i = plan.noParent then false
  else !(plan.task i).usesForwardPrevOutputProtocol && (plan.task i).usesPrevAccess
    && (plan.outputType (plan.parentIndex i)).isVoid

/-- `node_uses_root_forward_prev`. -/
def nodeUsesRootForwardPrev (i : Nat) : Bool :=
  (plan.task i).usesForwardPrevOutputProtocol && plan.parentIndex i == plan.noParent

/-- `node_uses_void_parent_forward_prev`. -/
def nodeUsesVoidParentForwardPrev (i : Nat) : Bool :=
  if !(plan.task i).usesForwardPrevOutputProtocol || plan.parentIndex i == plan.noParent then
    false
  else (plan.outputType (plan.parentIndex i)).isVoid

/-- `node_uses_mismatched_forward_prev_parent_type`. -/
def nodeUsesMismatchedForwardPrevParentType (i : Nat) : Bool :=
  if !(plan.task i).usesForwardPrevOutputProtocol || plan.parentIndex i == plan.noParent then
    false
  else if (plan.outputType (plan.parentIndex i)).isVoid then false
  else plan.outputType i != plan.outputType (plan.parentIndex i)

/-- `validate_plan`. -/
def validatePlan : PlanValidationError :=
  if plan.anyNode plan.nodeUsesRootPrevAccess then .prevAccessRootNode
  else if plan.anyNode plan.nodeUsesVoidParentPrevAccess then .prevAccessVoidParent
  else if plan.anyNode plan.nodeUsesRootForwardPrev then .forwardPrevRootNode
  else if plan.anyNode plan.nodeUsesVoidParentForwardPrev then .forwardPrevVoidParent
  else if plan.anyNode plan.nodeUsesMismatchedForwardPrevParentType then
    .forwardPrevParentTypeMismatch
  else if !plan.planPrevAccessValid then .prevAccessModeInvalid
  else if !plan.planFanoutPolicyValid then .fanoutPolicyInvalid
  else .ok

/-- The `requires` clause of `run_plan` behind the two on its policies. -/
def runPlanAccepts : Bool :=
  plan.validatePlan == .ok && plan.planPrevSourceValid && plan.planPrevAccessValid
    && plan.planForwardPrevSourceValid && plan.planFanoutPolicyValid

/-- No node's raw result type is a reference, as `task_output_type` asserts. -/
def outputTypesFormed : Bool := plan.allNodes fun i => !(plan.task i).rawResultType.isReference

/-- A node's raw result type is not a reference, as `task_output_type` asserts,
and its slot has a type, as `typed_slot` asserts.  A const payload is let through:
the compact layout stores it, the slot type of the one-to-one layout does not
compile for it. -/
def nodeSlotFormed (i : Nat) : Bool :=
  !(plan.task i).rawResultType.isReference
    && (plan.outputStorageMode i != .owned || !(plan.outputType i).isVoid)

variable {plan}

theorem allNodes_iff {q : Nat → Bool} : plan.allNodes q ↔ ∀ i < plan.nodeCount, q i := by
  unfold allNodes
  rw [List.all_eq_true]
  simp only [List.mem_range]

/-- No node is found. -/
theorem anyNode_iff {q : Nat → Bool} :
    plan.anyNode q = false ↔ ∀ i < plan.nodeCount, q i = false := by
  unfold anyNode
  rw [List.any_eq_false]
  simp only [List.mem_range, Bool.not_eq_true]

/-- The checks of `validate_plan`, whatever their order. -/
theorem validatePlan_checks : plan.validatePlan = .ok ↔
    (∀ i < plan.nodeCount, plan.nodeUsesRootPrevAccess i = false)
      ∧ (∀ i < plan.nodeCount, plan.nodeUsesVoidParentPrevAccess i = false)
      ∧ (∀ i < plan.nodeCount, plan.nodeUsesRootForwardPrev i = false)
      ∧ (∀ i < plan.nodeCount, plan.nodeUsesVoidParentForwardPrev i = false)
      ∧ (∀ i < plan.nodeCount, plan.nodeUsesMismatchedForwardPrevParentType i = false)
      ∧ plan.planPrevAccessValid ∧ plan.planFanoutPolicyValid := by
  unfold validatePlan
  simp only [check_passed, ne_eq, reduceCtorEq, not_false_eq_true, Bool.not_eq_true,
    Bool.not_eq_false', anyNode_iff, and_true]

/-- A forwarding node is a forward-prev task. -/
theorem forwarded_iff {i : Nat} : plan.outputStorageMode i = .forwardedPrev
    ↔ (plan.task i).usesForwardPrevOutputProtocol := by
  obtain ⟨base, hbase⟩ : ∃ base, (plan.task i).bound = base := ⟨_, rfl⟩
  simp only [outputStorageMode, Task.outputStorageMode, Task.declaredOutput,
    Task.usesForwardPrevOutputProtocol, Task.outputProtocol, hbase]
  cases base <;>
    simp [BaseTask.declaredOutput, BaseTask.outputProtocol] <;> split <;> simp

/-- In a validated plan a forward-prev node has a parent with a payload of its
own type. -/
theorem forward_parent (hvalid : plan.validatePlan = .ok) {i : Nat} (hi : i < plan.nodeCount)
    (h : plan.outputStorageMode i = .forwardedPrev) :
    0 < i ∧ (plan.outputType (plan.parentIndex i)).isVoid = false
      ∧ plan.outputType i = plan.outputType (plan.parentIndex i) := by
  obtain ⟨-, -, hroots, hvoids, htypes, -, -⟩ := validatePlan_checks.mp hvalid
  have huses := forwarded_iff.mp h
  have hne : plan.parentIndex i ≠ plan.noParent := by
    have hroot := hroots i hi
    rw [nodeUsesRootForwardPrev, huses, Bool.true_and, beq_eq_false_iff_ne] at hroot
    exact hroot
  have hparent : (plan.outputType (plan.parentIndex i)).isVoid = false := by
    have hvoid := hvoids i hi
    rwa [nodeUsesVoidParentForwardPrev, if_neg (by simp [huses, hne])] at hvoid
  refine ⟨plan.pos_of_parentIndex hne, hparent, ?_⟩
  have hmismatch := htypes i hi
  rw [nodeUsesMismatchedForwardPrevParentType, if_neg (by simp [huses, hne]), hparent]
    at hmismatch
  simpa using hmismatch

end CompiledPlan

/-! ## §5. Valid plans. -/

/-- A plan of library-bound tasks that passes the checks in front of `run_plan`
and whose slots can be formed: at least in the compact layout, if a payload is
const. -/
structure ValidPlan extends CompiledPlan where
  bound : ∀ i < toPlanShape.nodeCount, (task i).bound.accepted
  runnable : toCompiledPlan.runPlanAccepts
  slotsFormed : ∀ i < toPlanShape.nodeCount, toCompiledPlan.nodeSlotFormed i

namespace ValidPlan

variable (plan : ValidPlan)

theorem checks : plan.validatePlan = .ok ∧ plan.planPrevSourceValid
    ∧ plan.planPrevAccessValid ∧ plan.planForwardPrevSourceValid
    ∧ plan.planFanoutPolicyValid := by
  have h := plan.runnable
  simp only [CompiledPlan.runPlanAccepts, Bool.and_eq_true, beq_iff_eq] at h
  exact ⟨h.1.1.1.1, h.1.1.1.2, h.1.1.2, h.1.2, h.2⟩

variable {plan}

theorem prevAccessValid {i : Nat} (hi : i < plan.nodeCount) : (plan.task i).prevAccessValid :=
  CompiledPlan.allNodes_iff.mp plan.checks.2.2.1 i hi

theorem fanoutValid {p : Nat} (hp : p < plan.nodeCount) : plan.parentFanoutPolicyValid p :=
  CompiledPlan.allNodes_iff.mp plan.checks.2.2.2.2 p hp

theorem parentIndex_zero : plan.parentIndex 0 = plan.noParent :=
  plan.toPlanShape.parentIndex_zero

theorem parentIndex_ne {i : Nat} (hpos : 0 < i) (hi : i < plan.nodeCount) :
    plan.parentIndex i ≠ plan.noParent :=
  Nat.ne_of_lt (Nat.lt_trans (plan.parentIndex_lt hpos hi) hi)

/-- A node with prev access is not the root, and its parent has a payload. -/
theorem parent_output {i : Nat} (hi : i < plan.nodeCount) (h : (plan.task i).usesPrevAccess) :
    0 < i ∧ (plan.outputType (plan.parentIndex i)).isVoid = false := by
  have hsource : plan.nodePrevSourceValid i := CompiledPlan.allNodes_iff.mp plan.checks.2.1 i hi
  have hforward : plan.nodeForwardPrevSourceValid i :=
    CompiledPlan.allNodes_iff.mp plan.checks.2.2.2.1 i hi
  have hne : plan.parentIndex i ≠ plan.noParent
      ∧ (plan.outputType (plan.parentIndex i)).isVoid = false := by
    by_cases hroot : plan.parentIndex i = plan.noParent
    · cases hf : (plan.task i).usesForwardPrevOutputProtocol with
      | true => simp [CompiledPlan.nodeForwardPrevSourceValid, hf, hroot] at hforward
      | false => simp [CompiledPlan.nodePrevSourceValid, hf, hroot, h] at hsource
    · refine ⟨hroot, ?_⟩
      cases hf : (plan.task i).usesForwardPrevOutputProtocol with
      | true => simpa [CompiledPlan.nodeForwardPrevSourceValid, hf, hroot] using hforward
      | false => simpa [CompiledPlan.nodePrevSourceValid, hf, hroot, h] using hsource
  exact ⟨plan.pos_of_parentIndex hne.1, hne.2⟩

/-- A forwarding node is a forward-prev task. -/
theorem forwarded_iff {i : Nat} : plan.outputStorageMode i = .forwardedPrev
    ↔ (plan.task i).usesForwardPrevOutputProtocol := CompiledPlan.forwarded_iff

theorem forward_exclusive {i : Nat} (hi : i < plan.nodeCount)
    (h : plan.outputStorageMode i = .forwardedPrev) :
    (plan.task i).usesExclusivePrevAccess ∧ (plan.task i).usesConsumePrev = false :=
  Task.forwardPrev_summary (plan.bound i hi) (forwarded_iff.mp h)

/-- A forward-prev node has a parent with a payload of its own type. -/
theorem forward_parent {i : Nat} (hi : i < plan.nodeCount)
    (h : plan.outputStorageMode i = .forwardedPrev) :
    0 < i ∧ (plan.outputType (plan.parentIndex i)).isVoid = false
      ∧ plan.outputType i = plan.outputType (plan.parentIndex i) :=
  CompiledPlan.forward_parent plan.checks.1 hi h

/-! ## §6. Siblings. -/

variable {p i j : Nat}

theorem IsParent.parent_lt (h : plan.IsParent p i) : p < plan.nodeCount :=
  Nat.lt_trans h.lt h.2.1

/-- Two different children are counted twice. -/
theorem two_le_countP {q : Nat → Bool} (hi : plan.IsParent p i) (hj : plan.IsParent p j)
    (hne : i ≠ j) (hqi : q i) (hqj : q j) : 2 ≤ (plan.children p).countP q := by
  have hp := IsParent.parent_lt hi
  have hsub : List.Subperm [i, j] ((plan.children p).filter q) := by
    apply List.subperm_of_subset (by simpa using hne)
    intro k hk
    rw [List.mem_filter, plan.mem_children hp]
    rcases List.mem_pair.mp hk with rfl | rfl
    · exact ⟨hi, hqi⟩
    · exact ⟨hj, hqj⟩
  rw [List.countP_eq_length_filter]
  exact hsub.length_le

theorem one_le_countP {q : Nat → Bool} (hi : plan.IsParent p i) (hqi : q i) :
    1 ≤ (plan.children p).countP q :=
  List.countP_pos_iff.mpr ⟨i, (plan.mem_children (IsParent.parent_lt hi)).mpr hi, hqi⟩

/-- Next to a sibling an exclusive child is admitted under one policy only, and
that policy admits children that copy or consume, one of these at most. -/
theorem consumeWithCopies_of_sibling (hi : plan.IsParent p i) (hj : plan.IsParent p j)
    (hne : i ≠ j) (hexclusive : (plan.task i).usesExclusivePrevAccess) :
    plan.fanoutPolicy p = .consumeWithCopies
      ∧ (∀ c, plan.IsParent p c → (plan.task c).usesPrevAccess →
          (plan.task c).usesCopyOnlyPrevAccess ∨ (plan.task c).usesConsumePrev)
      ∧ plan.parentConsumeOnlyPrevChildCount p ≤ 1 := by
  have hp := IsParent.parent_lt hi
  have hvalid := fanoutValid hp
  have hcount : plan.parentExclusivePrevChildCount p ≠ 0 :=
    Nat.ne_of_gt (one_le_countP hi hexclusive)
  -- with two children the shortcut for a single child is not taken
  have htwo : 2 ≤ plan.childCount p := by
    have h := two_le_countP (q := fun _ => true) hi hj hne rfl rfl
    rwa [List.countP_true, PlanShape.children, List.length_map, List.length_range] at h
  rw [CompiledPlan.parentFanoutPolicyValid, if_neg (by omega)] at hvalid
  cases hpolicy : plan.fanoutPolicy p with
  | auto =>
      rw [hpolicy] at hvalid
      simp only [show ¬ plan.childCount p ≤ 1 by omega, if_false, beq_iff_eq] at hvalid
      exact absurd hvalid hcount
  | sharedReadonly =>
      rw [hpolicy] at hvalid
      exact absurd (beq_iff_eq.mp hvalid) hcount
  | consumeWithCopies =>
      rw [hpolicy] at hvalid
      simp only [Bool.and_eq_true, Bool.not_eq_true', decide_eq_true_eq,
        CompiledPlan.parentHasNonCopyOrConsumePrevChild] at hvalid
      obtain ⟨hmode, hone⟩ := hvalid
      refine ⟨rfl, fun c hc huse => ?_, hone⟩
      have := List.any_eq_false.mp hmode c ((plan.mem_children hp).mpr hc)
      simp only [huse, Bool.true_and, Bool.and_eq_true, Bool.not_eq_true', not_and,
        Bool.not_eq_false] at this
      cases hcopy : (plan.task c).usesCopyOnlyPrevAccess with
      | true => exact Or.inl rfl
      | false => exact Or.inr (this hcopy)

/-- **Siblings of an exclusive child.**  Another child that uses prev access
copies only and reads the staged copy, next to a child that consumes. -/
theorem exclusive_sibling (hi : plan.IsParent p i) (hj : plan.IsParent p j) (hne : i ≠ j)
    (hexclusive : (plan.task i).usesExclusivePrevAccess) (huses : (plan.task j).usesPrevAccess) :
    (plan.task i).usesConsumePrev ∧ plan.nodeUsesStagedCopyPrev j := by
  obtain ⟨hpolicy, hkinds, hone⟩ := consumeWithCopies_of_sibling hi hj hne hexclusive
  have hconsume : (plan.task i).usesConsumePrev := by
    rcases hkinds i hi (Task.exclusive_uses hexclusive) with hcopy | hconsume
    · rw [Task.copyOnly_not_exclusive hcopy] at hexclusive
      cases hexclusive
    · exact hconsume
  refine ⟨hconsume, ?_⟩
  -- a second consuming child is one too many
  have hcopy : (plan.task j).usesCopyOnlyPrevAccess := by
    refine (hkinds j hj huses).resolve_right fun hj' => ?_
    have h2 : 2 ≤ plan.parentConsumeOnlyPrevChildCount p :=
      two_le_countP hi hj hne hconsume hj'
    omega
  have hc1 : 1 ≤ plan.parentConsumeOnlyPrevChildCount p := one_le_countP hi hconsume
  have hc2 : 1 ≤ plan.parentCopyOnlyPrevChildCount p := one_le_countP hj hcopy
  have hroot : plan.parentIndex j ≠ plan.noParent := parentIndex_ne hj.1 hj.2.1
  rw [CompiledPlan.nodeUsesStagedCopyPrev, if_neg hroot, hj.2.2, hcopy, Bool.and_true,
    CompiledPlan.parentRequiresFanoutStaging, hpolicy]
  simp only [BEq.rfl, Bool.true_and, Bool.and_eq_true, beq_iff_eq, bne_iff_ne]
  omega

/-- **The parent of a forward-prev node has no other child.** -/
theorem forward_only_child (hi : plan.IsParent p i) (hj : plan.IsParent p j)
    (h : plan.outputStorageMode i = .forwardedPrev) : j = i := by
  by_contra hne
  obtain ⟨hexclusive, hconsume⟩ := forward_exclusive hi.2.1 h
  obtain ⟨-, hkinds, -⟩ := consumeWithCopies_of_sibling hi hj (Ne.symm hne) hexclusive
  -- a mutable borrow is neither a copy nor a consumption
  rcases hkinds i hi (Task.exclusive_uses hexclusive) with hcopy | hconsume'
  · rw [Task.copyOnly_not_exclusive hcopy] at hexclusive
    cases hexclusive
  · rw [hconsume] at hconsume'
    cases hconsume'

end ValidPlan

end YOrch
