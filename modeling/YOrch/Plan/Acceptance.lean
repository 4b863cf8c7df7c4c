/-
  YOrch.Plan.Acceptance — what the plan checks accept.

  `parent_fanout_policy_valid` counts children and folds what it derives about
  each; the comments on the policies speak of the access modes children use.
  `Documented` is that rule, over the specs of the children's tasks:

    • `fanoutPolicyValid_iff` — the two agree unless the one child with prev
      access is exclusive and has siblings, under the automatic policy,
    • `validatePlan_ok_iff` — `validate_plan` finds no error exactly if each of
      the predicates `run_plan` requires holds and forwarded types match.
-/
import YOrch.Plan.Owners

namespace YOrch

open Library

/-! ## §1. Access modes. -/

namespace Task

variable {task : Task}

/-- Some spec of the task reads the parent's payload in this mode. -/
def Uses (task : Task) (kind : PrevAccessKind) : Prop :=
  ∃ spec ∈ task.bound.allSpecs, spec.kind = kind

/-- Some spec of the task reads the parent's payload. -/
def UsesPrev (task : Task) : Prop := ∃ kind, kind ≠ .none ∧ task.Uses kind

/-- Every spec that reads the parent's payload copies it. -/
def UsesOnlyCopies (task : Task) : Prop :=
  ∀ kind, kind ≠ .none → task.Uses kind → kind = .copy

/-- `borrow_prev_mut` or `consume_prev`. -/
def UsesExclusive (task : Task) : Prop := task.Uses .borrowMut ∨ task.Uses .consume

/-- A count of the task's specs is positive if one of them is counted. -/
theorem counted_iff {q : Spec → Bool} : task.bound.allSpecs.countP q ≠ 0 ↔
    ∃ spec ∈ task.bound.allSpecs, q spec := by
  rw [ne_eq, List.countP_eq_zero]
  push Not
  rfl

theorem usesPrevAccess_iff : task.usesPrevAccess ↔ task.UsesPrev := by
  unfold usesPrevAccess
  rw [bne_iff_ne, summary_eq, summarizeSpecs_eq, counted_iff]
  constructor
  · intro h
    obtain ⟨spec, hspec, hprev⟩ := h
    exact ⟨spec.kind, bne_iff_ne.mp hprev, spec, hspec, rfl⟩
  · intro h
    obtain ⟨kind, hkind, spec, hspec, rfl⟩ := h
    exact ⟨spec, hspec, bne_iff_ne.mpr hkind⟩

theorem usesConsumePrev_iff : task.usesConsumePrev ↔ task.Uses .consume := by
  unfold usesConsumePrev Uses
  rw [bne_iff_ne, summary_eq, summarizeSpecs_eq, counted_iff]
  simp only [beq_iff_eq]

theorem usesCopyPrev_iff : task.usesCopyPrev ↔ task.Uses .copy := by
  unfold usesCopyPrev Uses
  rw [bne_iff_ne, summary_eq, summarizeSpecs_eq, counted_iff]
  simp only [beq_iff_eq]

theorem usesBorrowPrev_iff : task.usesBorrowPrev ↔ task.Uses .borrow := by
  unfold usesBorrowPrev Uses
  rw [bne_iff_ne, summary_eq, summarizeSpecs_eq, counted_iff]
  simp only [beq_iff_eq]

theorem usesBorrowPrevMut_iff : task.usesBorrowPrevMut ↔ task.Uses .borrowMut := by
  unfold usesBorrowPrevMut Uses
  rw [bne_iff_ne, summary_eq, summarizeSpecs_eq, counted_iff]
  simp only [beq_iff_eq]

theorem usesExclusivePrevAccess_iff : task.usesExclusivePrevAccess ↔ task.UsesExclusive := by
  unfold usesExclusivePrevAccess UsesExclusive Uses
  rw [bne_iff_ne, summary_eq, summarizeSpecs_eq, counted_iff]
  simp only [Spec.isExclusive, Bool.or_eq_true, beq_iff_eq]
  constructor
  · intro h
    obtain ⟨spec, hspec, hmut | hconsume⟩ := h
    · exact .inl ⟨spec, hspec, hmut⟩
    · exact .inr ⟨spec, hspec, hconsume⟩
  · intro h
    obtain ⟨spec, hspec, hmut⟩ | ⟨spec, hspec, hconsume⟩ := h
    · exact ⟨spec, hspec, .inl hmut⟩
    · exact ⟨spec, hspec, .inr hconsume⟩

/-- A task with prev access is `copy_only` if it uses no other mode. -/
theorem usesCopyOnly_iff (huses : task.UsesPrev) :
    task.usesCopyOnlyPrevAccess ↔ task.UsesOnlyCopies := by
  unfold usesCopyOnlyPrevAccess
  simp only [Bool.and_eq_true, Bool.not_eq_true', ← Bool.not_eq_true, usesCopyPrev_iff,
    usesBorrowPrev_iff, usesBorrowPrevMut_iff, usesConsumePrev_iff]
  constructor
  · intro h kind hkind huse
    obtain ⟨⟨⟨-, hborrow⟩, hmut⟩, hconsume⟩ := h
    cases kind with
    | none => exact absurd rfl hkind
    | borrow => exact absurd huse hborrow
    | borrowMut => exact absurd huse hmut
    | copy => rfl
    | consume => exact absurd huse hconsume
  · intro h
    obtain ⟨kind, hkind, huse⟩ := huses
    have hcopy : task.Uses .copy := h kind hkind huse ▸ huse
    exact ⟨⟨⟨hcopy, fun hb => nomatch h .borrow nofun hb⟩, fun hm => nomatch h .borrowMut nofun hm⟩,
      fun hc => nomatch h .consume nofun hc⟩

end Task

/-! ## §2. Fanout policies. -/

/-- At most one of the tasks has the property. -/
def AtMostOne (q : Task → Prop) (tasks : List Task) : Prop :=
  tasks.Pairwise fun a b => ¬ (q a ∧ q b)

theorem AtMostOne.of_length {q : Task → Prop} : ∀ {tasks : List Task}, tasks.length ≤ 1 →
    AtMostOne q tasks
  | [], _ => List.Pairwise.nil
  | [_], _ => List.pairwise_singleton _ _
  | _ :: _ :: _, h => by simp at h

namespace FanoutPolicy

/-- What the comments on the policies allow the direct children to do. -/
def Documented (policy : FanoutPolicy) (children : List Task) : Prop :=
  match policy with
  | .auto => AtMostOne Task.UsesPrev children ∨ ∀ child ∈ children, ¬ child.UsesExclusive
  | .sharedReadonly => ∀ child ∈ children, ¬ child.UsesExclusive
  | .consumeWithCopies =>
      AtMostOne (·.Uses .consume) children
        ∧ ∀ child ∈ children, ¬ child.Uses .consume → child.UsesPrev → child.UsesOnlyCopies

/-- The policy is the automatic one, and of several children one has prev access,
which is exclusive. -/
def LoneExclusive (policy : FanoutPolicy) (children : List Task) : Prop :=
  policy = .auto ∧ 2 ≤ children.length ∧ AtMostOne Task.UsesPrev children
    ∧ ∃ child ∈ children, child.UsesExclusive

end FanoutPolicy

/-- A count of at most one. -/
theorem countP_le_one_iff {q : Task → Bool} {P : Task → Prop} (h : ∀ task, q task ↔ P task) :
    ∀ tasks : List Task, tasks.countP q ≤ 1 ↔ AtMostOne P tasks
  | [] => by simp [AtMostOne]
  | task :: tasks => by
      have ih := countP_le_one_iff h tasks
      unfold AtMostOne at ih ⊢
      rw [List.countP_cons, List.pairwise_cons, ← ih]
      cases hq : q task with
      | true =>
          have hP := (h task).mp hq
          constructor
          · intro hcount
            have hzero : tasks.countP q = 0 := by
              simp only [if_true] at hcount
              omega
            refine ⟨fun other hother hboth => ?_, by omega⟩
            exact absurd ((h other).mpr hboth.2) (List.countP_eq_zero.mp hzero other hother)
          · intro hcount
            have hzero : tasks.countP q = 0 := by
              rw [List.countP_eq_zero]
              intro other hother hq'
              exact hcount.1 other hother ⟨hP, (h other).mp hq'⟩
            simp [hzero]
      | false =>
          have hP : ¬ P task := fun hP => by
            rw [(h task).mpr hP] at hq
            cases hq
          simp [hP]

theorem countP_zero_iff {q : Task → Bool} {P : Task → Prop} (h : ∀ task, q task ↔ P task)
    (tasks : List Task) : tasks.countP q = 0 ↔ ∀ task ∈ tasks, ¬ P task := by
  rw [List.countP_eq_zero]
  constructor
  · exact fun hcount task htask hP => hcount task htask ((h task).mpr hP)
  · exact fun hnone task htask hq => hnone task htask ((h task).mp hq)

namespace CompiledPlan

variable (plan : CompiledPlan)

/-- The tasks of the direct children. -/
def childTasks (p : Nat) : List Task := (plan.children p).map plan.task

variable {plan} {p : Nat}

theorem length_childTasks : (plan.childTasks p).length = plan.childCount p := by
  rw [childTasks, List.length_map, PlanShape.children, List.length_map, List.length_range]

theorem countP_childTasks (q : Task → Bool) :
    (plan.children p).countP (fun c => q (plan.task c)) = (plan.childTasks p).countP q := by
  rw [childTasks, List.countP_map]
  rfl

/-- No child has exclusive access. -/
theorem noExclusive_iff : plan.parentExclusivePrevChildCount p = 0 ↔
    ∀ child ∈ plan.childTasks p, ¬ child.UsesExclusive := by
  unfold parentExclusivePrevChildCount
  rw [countP_childTasks Task.usesExclusivePrevAccess]
  exact countP_zero_iff (fun _ => Task.usesExclusivePrevAccess_iff) _

/-- What the check under the automatic policy says. -/
theorem autoValid_iff (hpolicy : plan.fanoutPolicy p = .auto) : plan.parentFanoutPolicyValid p ↔
    (plan.childTasks p).length ≤ 1 ∨ ∀ child ∈ plan.childTasks p, ¬ child.UsesExclusive := by
  rw [← noExclusive_iff, length_childTasks]
  unfold parentFanoutPolicyValid
  rw [hpolicy]
  by_cases hzero : plan.childCount p = 0
  · simp [hzero]
  · by_cases hone : plan.childCount p ≤ 1
    · simp [hzero, hone]
    · simp [hzero, hone]

/-- What the check under the shared policy says. -/
theorem sharedValid_iff (hpolicy : plan.fanoutPolicy p = .sharedReadonly) :
    plan.parentFanoutPolicyValid p ↔ ∀ child ∈ plan.childTasks p, ¬ child.UsesExclusive := by
  rw [← noExclusive_iff]
  unfold parentFanoutPolicyValid
  rw [hpolicy]
  by_cases hzero : plan.childCount p = 0
  · have hnone : plan.parentExclusivePrevChildCount p = 0 := by
      unfold parentExclusivePrevChildCount PlanShape.children
      rw [hzero]
      rfl
    simp [hzero, hnone]
  · simp [hzero]

/-- What the check under the mixed policy says. -/
theorem consumeValid_iff (hpolicy : plan.fanoutPolicy p = .consumeWithCopies) :
    plan.parentFanoutPolicyValid p ↔
      FanoutPolicy.Documented .consumeWithCopies (plan.childTasks p) := by
  have hone : plan.parentConsumeOnlyPrevChildCount p ≤ 1 ↔
      AtMostOne (·.Uses .consume) (plan.childTasks p) := by
    unfold parentConsumeOnlyPrevChildCount
    rw [countP_childTasks Task.usesConsumePrev]
    exact countP_le_one_iff (fun _ => Task.usesConsumePrev_iff) _
  have hmodes : plan.parentHasNonCopyOrConsumePrevChild p = false ↔
      ∀ child ∈ plan.childTasks p, ¬ child.Uses .consume → child.UsesPrev →
        child.UsesOnlyCopies := by
    unfold parentHasNonCopyOrConsumePrevChild childTasks
    rw [List.any_eq_false, List.forall_mem_map]
    apply forall₂_congr
    intro c _
    rw [Bool.and_eq_true, Bool.and_eq_true, Bool.not_eq_true', Bool.not_eq_true',
      ← Bool.not_eq_true, ← Bool.not_eq_true, Task.usesPrevAccess_iff, Task.usesConsumePrev_iff]
    constructor
    · intro h hconsume huses
      rw [← Task.usesCopyOnly_iff huses]
      by_contra hcopy
      exact h ⟨⟨huses, hcopy⟩, hconsume⟩
    · intro h hbad
      exact hbad.1.2 ((Task.usesCopyOnly_iff hbad.1.1).mpr (h hbad.2 hbad.1.1))
  unfold parentFanoutPolicyValid FanoutPolicy.Documented
  rw [hpolicy, ← hone, ← hmodes]
  -- the source returns early for a parent without children
  by_cases hzero : plan.childCount p = 0
  · have hnone : plan.parentConsumeOnlyPrevChildCount p = 0
        ∧ plan.parentHasNonCopyOrConsumePrevChild p = false := by
      unfold parentConsumeOnlyPrevChildCount parentHasNonCopyOrConsumePrevChild PlanShape.children
      rw [hzero]
      exact ⟨rfl, rfl⟩
    simp [hzero, hnone.1, hnone.2]
  · simp [hzero, and_comm]

/-- **The fanout check and the comments on the policies.**  For every parent they
agree exactly where it is not the case that the policy is the automatic one and
one of several children has prev access, which is exclusive. -/
theorem fanoutPolicyValid_iff (plan : CompiledPlan) (p : Nat) :
    (plan.parentFanoutPolicyValid p ↔
        (plan.fanoutPolicy p).Documented (plan.childTasks p)) ↔
      ¬ (plan.fanoutPolicy p).LoneExclusive (plan.childTasks p) := by
  unfold FanoutPolicy.LoneExclusive
  cases hpolicy : plan.fanoutPolicy p with
  | sharedReadonly => simp [sharedValid_iff hpolicy, FanoutPolicy.Documented]
  | consumeWithCopies => simp [consumeValid_iff hpolicy]
  | auto =>
      -- the check counts all children, the comment those with prev access
      rw [autoValid_iff hpolicy]
      show (_ ↔ AtMostOne Task.UsesPrev _ ∨ _) ↔ _
      constructor
      · intro hagree hlone
        obtain ⟨-, htwo, hmost, child, hchild, hexclusive⟩ := hlone
        rcases hagree.mpr (.inl hmost) with hone | hnone
        · omega
        · exact hnone child hchild hexclusive
      · intro hlone
        constructor
        · intro h
          rcases h with hone | hnone
          · exact .inl (.of_length hone)
          · exact .inr hnone
        · intro h
          rcases h with hmost | hnone
          · by_contra hvalid
            push Not at hvalid
            obtain ⟨htwo, child, hchild, hexclusive⟩ := hvalid
            exact hlone ⟨rfl, htwo, hmost, child, hchild, hexclusive⟩
          · exact .inr hnone

end CompiledPlan

/-- A child that consumes, next to one without prev access. -/
def loneConsumePlan : CompiledPlan where
  toPlanShape := .twoChildren
  task
    | 0 => .base (.boundTask (.function [] (.object 0)) [])
    | 1 => .base (.boundTask (.function [.object 0] .void) [.consumePrev (.object 0)])
    | _ => .base (.boundTask (.function [] .void) [])
  fanoutPolicy := fun _ => .auto

/-- At most one child of the root has prev access, and the check rejects it. -/
theorem loneConsumePlan_rejected :
    FanoutPolicy.Documented .auto (loneConsumePlan.childTasks 0)
      ∧ loneConsumePlan.parentFanoutPolicyValid 0 = false := by
  have htasks :
      loneConsumePlan.childTasks 0 = [loneConsumePlan.task 1, loneConsumePlan.task 2] := by
    decide +kernel
  refine ⟨.inl ?_, by decide +kernel⟩
  rw [htasks]
  apply List.pairwise_pair.mpr
  intro hboth
  obtain ⟨-, kind, -, spec, hspec, -⟩ := hboth
  exact absurd hspec List.not_mem_nil

/-! ## §3. `validate_plan`. -/

namespace CompiledPlan

variable {plan : CompiledPlan}

/-- `compile_plan` accepts a plan for which `emit_plan_diagnostic` does not
fail. -/
def compilePlanAccepts (plan : CompiledPlan) : Bool := plan.validatePlan == .ok

/-- The output of every forward-prev node has the type of its parent's. -/
def ForwardTypesMatch (plan : CompiledPlan) : Prop :=
  ∀ i < plan.nodeCount, (plan.task i).usesForwardPrevOutputProtocol →
    plan.parentIndex i ≠ plan.noParent → plan.outputType i = plan.outputType (plan.parentIndex i)

/-- A node's source is valid if neither predicate on its parent's payload finds
it. -/
theorem prevSource_iff (i : Nat) : plan.nodePrevSourceValid i ↔
    plan.nodeUsesRootPrevAccess i = false ∧ plan.nodeUsesVoidParentPrevAccess i = false := by
  unfold nodePrevSourceValid nodeUsesRootPrevAccess nodeUsesVoidParentPrevAccess
  by_cases hforward : (plan.task i).usesForwardPrevOutputProtocol
  · simp [hforward]
  · by_cases hroot : plan.parentIndex i = plan.noParent
    · simp [hforward, hroot]
    · by_cases hvoid : (plan.outputType (plan.parentIndex i)).isVoid
      · simp [hforward, hroot, hvoid]
      · simp [hforward, hroot, hvoid]

/-- The same for what a forward-prev node forwards. -/
theorem forwardSource_iff (i : Nat) : plan.nodeForwardPrevSourceValid i ↔
    plan.nodeUsesRootForwardPrev i = false ∧ plan.nodeUsesVoidParentForwardPrev i = false := by
  unfold nodeForwardPrevSourceValid nodeUsesRootForwardPrev nodeUsesVoidParentForwardPrev
  by_cases hforward : (plan.task i).usesForwardPrevOutputProtocol
  · by_cases hroot : plan.parentIndex i = plan.noParent
    · simp [hforward, hroot]
    · simp [hforward, hroot]
  · simp [hforward]

/-- Where the parent of a forward-prev node has a payload, the types match. -/
theorem forwardType_iff (i : Nat) (hsource : plan.nodeForwardPrevSourceValid i) :
    plan.nodeUsesMismatchedForwardPrevParentType i = false ↔
      ((plan.task i).usesForwardPrevOutputProtocol → plan.parentIndex i ≠ plan.noParent →
        plan.outputType i = plan.outputType (plan.parentIndex i)) := by
  unfold nodeForwardPrevSourceValid at hsource
  unfold nodeUsesMismatchedForwardPrevParentType
  by_cases hforward : (plan.task i).usesForwardPrevOutputProtocol
  · by_cases hroot : plan.parentIndex i = plan.noParent
    · simp [hforward, hroot]
    · have hvoid : (plan.outputType (plan.parentIndex i)).isVoid = false := by
        simpa [hforward, hroot] using hsource
      simp [hforward, hroot, hvoid]
  · simp [hforward]

/-- `validate_plan` finds no error if every predicate of `run_plan` holds and
forwarded types match. -/
theorem validatePlan_predicates : plan.validatePlan = .ok ↔
    plan.planPrevSourceValid ∧ plan.planPrevAccessValid ∧ plan.planForwardPrevSourceValid
      ∧ plan.planFanoutPolicyValid ∧ plan.ForwardTypesMatch := by
  rw [validatePlan_checks]
  unfold planPrevSourceValid planForwardPrevSourceValid ForwardTypesMatch
  rw [allNodes_iff, allNodes_iff]
  constructor
  · intro h
    obtain ⟨hroot, hvoid, hforwardRoot, hforwardVoid, htype, haccess, hfanout⟩ := h
    -- the type predicate passes over nodes without a valid source
    have hsource : ∀ i < plan.nodeCount, plan.nodeForwardPrevSourceValid i := fun i hi =>
      (forwardSource_iff i).mpr ⟨hforwardRoot i hi, hforwardVoid i hi⟩
    refine ⟨fun i hi => (prevSource_iff i).mpr ⟨hroot i hi, hvoid i hi⟩, haccess, hsource,
      hfanout, fun i hi => ?_⟩
    exact (forwardType_iff i (hsource i hi)).mp (htype i hi)
  · intro h
    obtain ⟨hprev, haccess, hsource, hfanout, htype⟩ := h
    exact ⟨fun i hi => ((prevSource_iff i).mp (hprev i hi)).1,
      fun i hi => ((prevSource_iff i).mp (hprev i hi)).2,
      fun i hi => ((forwardSource_iff i).mp (hsource i hi)).1,
      fun i hi => ((forwardSource_iff i).mp (hsource i hi)).2,
      fun i hi => (forwardType_iff i (hsource i hi)).mpr (htype i hi), haccess, hfanout⟩

/-- What `compile_plan` accepts, `run_plan` accepts. -/
theorem compile_iff_run : plan.compilePlanAccepts ↔ plan.runPlanAccepts := by
  unfold compilePlanAccepts runPlanAccepts
  simp only [Bool.and_eq_true, beq_iff_eq]
  constructor
  · intro h
    obtain ⟨hprev, haccess, hsource, hfanout, -⟩ := validatePlan_predicates.mp h
    exact ⟨⟨⟨⟨h, hprev⟩, haccess⟩, hsource⟩, hfanout⟩
  · exact fun h => h.1.1.1.1

/-- **What `validate_plan` accepts.**  For every plan it finds no error if and
only if the four predicates hold that `run_plan` asks for and every forward-prev
node has its parent's output type.  What `compile_plan` accepts, `run_plan`
accepts. -/
theorem validatePlan_ok_iff (plan : CompiledPlan) :
    (plan.validatePlan = .ok ↔
        plan.planPrevSourceValid ∧ plan.planPrevAccessValid ∧ plan.planForwardPrevSourceValid
          ∧ plan.planFanoutPolicyValid ∧ plan.ForwardTypesMatch)
      ∧ (plan.compilePlanAccepts ↔ plan.runPlanAccepts) :=
  ⟨validatePlan_predicates, compile_iff_run⟩

/-- **`validate_plan` only looks at the nodes of a plan.** -/
theorem compilePlanAccepts_congr {plan' : CompiledPlan}
    (hshape : plan'.toPlanShape = plan.toPlanShape)
    (htask : ∀ i < plan.nodeCount, plan'.task i = plan.task i)
    (hpolicy : ∀ i < plan.nodeCount, plan'.fanoutPolicy i = plan.fanoutPolicy i)
    (h : plan.compilePlanAccepts) : plan'.compilePlanAccepts := by
  obtain ⟨shape, task, fanoutPolicy⟩ := plan
  obtain ⟨shape', task', fanoutPolicy'⟩ := plan'
  dsimp only at hshape htask hpolicy
  subst hshape
  -- where a node looks at its parent, it has one
  have hparent : ∀ i < shape'.nodeCount, shape'.parentIndex i ≠ shape'.noParent →
      task' (shape'.parentIndex i) = task (shape'.parentIndex i) := by
    intro i hi hne
    exact htask _ (Nat.lt_trans (shape'.parentIndex_lt (shape'.pos_of_parentIndex hne) hi) hi)
  have hchildren : ∀ p < shape'.nodeCount,
      childTasks ⟨shape', task', fanoutPolicy'⟩ p = childTasks ⟨shape', task, fanoutPolicy⟩ p :=
    fun p hp => List.map_congr_left fun c hc => htask c ((shape'.mem_children hp).mp hc).2.1
  unfold compilePlanAccepts at h ⊢
  rw [beq_iff_eq, validatePlan_predicates] at h ⊢
  obtain ⟨hprev, haccess, hforward, hfanout, htypes⟩ := h
  unfold planPrevSourceValid planPrevAccessValid planForwardPrevSourceValid planFanoutPolicyValid
    ForwardTypesMatch at *
  simp only [allNodes_iff] at *
  refine ⟨fun i hi => ?_, fun i hi => ?_, fun i hi => ?_, fun i hi => ?_, fun i hi => ?_⟩
  · have hnode := hprev i hi
    unfold nodePrevSourceValid outputType at hnode ⊢
    by_cases hroot : shape'.parentIndex i = shape'.noParent
    · simpa [htask i hi, hroot] using hnode
    · simpa [htask i hi, hparent i hi hroot, hroot] using hnode
  · exact (congrArg Task.prevAccessValid (htask i hi)).trans (haccess i hi)
  · have hnode := hforward i hi
    unfold nodeForwardPrevSourceValid outputType at hnode ⊢
    by_cases hroot : shape'.parentIndex i = shape'.noParent
    · simpa [htask i hi, hroot] using hnode
    · simpa [htask i hi, hparent i hi hroot, hroot] using hnode
  · have hnode := hfanout i hi
    cases hp : fanoutPolicy i with
    | auto =>
        rw [autoValid_iff ((hpolicy i hi).trans hp), hchildren i hi]
        exact (autoValid_iff hp).mp hnode
    | sharedReadonly =>
        rw [sharedValid_iff ((hpolicy i hi).trans hp), hchildren i hi]
        exact (sharedValid_iff hp).mp hnode
    | consumeWithCopies =>
        rw [consumeValid_iff ((hpolicy i hi).trans hp), hchildren i hi]
        exact (consumeValid_iff hp).mp hnode
  · intro huses hroot
    have hnode := htypes i hi
    unfold outputType at hnode ⊢
    dsimp only at huses hroot hnode ⊢
    rw [htask i hi] at huses ⊢
    rw [hparent i hi hroot]
    exact hnode huses hroot

end CompiledPlan

end YOrch
