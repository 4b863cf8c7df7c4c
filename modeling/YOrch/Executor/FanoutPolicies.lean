/-
  YOrch.Executor.FanoutPolicies — what a fanout policy decides at run time.

  The executor consults the policies when it decides whether a fanout is staged.
  In a valid plan the tasks have already settled that: with several children of
  which one consumes, no other policy is accepted.

    • `requiresStaging_eq` — staging, from the tasks alone,
    • `policies_only_gate` — plans that differ in their policies only run alike.
-/
import YOrch.Executor.Permutation

namespace YOrch

open Library

variable {V W S : Type}

/-! ## §1. Staging. -/

namespace ValidPlan

variable {plan : ValidPlan} {q : Nat}

/-- **What requires staging.**  In a valid plan it is one child that consumes next
to children that copy, whatever the policy. -/
theorem requiresStaging_eq (plan : ValidPlan) (q : Nat) :
    plan.parentRequiresFanoutStaging q
      = (plan.parentConsumeOnlyPrevChildCount q == 1
        && plan.parentCopyOnlyPrevChildCount q != 0) := by
  rw [CompiledPlan.parentRequiresFanoutStaging, Bool.and_assoc, Bool.and_eq_right_iff_imp]
  intro hcounts
  rw [Bool.and_eq_true, beq_iff_eq, bne_iff_ne] at hcounts
  obtain ⟨hone, hcopies⟩ := hcounts
  obtain ⟨i, hi, hconsume⟩ := List.countP_pos_iff.mp (Nat.lt_of_lt_of_eq Nat.one_pos hone.symm)
  obtain ⟨j, hj, hcopy⟩ := List.countP_pos_iff.mp (Nat.pos_of_ne_zero hcopies)
  have hq : q < plan.nodeCount := by
    obtain ⟨ord, hord, -⟩ := List.mem_map.mp hi
    exact (plan.childIndex_lt (List.mem_range.mp hord)).1
  rw [plan.mem_children hq] at hi hj
  have hexclusive := Task.consume_exclusive hconsume
  -- the consuming child is another one than the copying child
  have hne : i ≠ j := by
    rintro rfl
    rw [Task.copyOnly_not_exclusive hcopy] at hexclusive
    cases hexclusive
  rw [(consumeWithCopies_of_sibling hi hj hne hexclusive).1]
  rfl

/-- The plan with other fanout policies, if that is one. -/
def withPolicies (plan : ValidPlan) (policies : Nat → FanoutPolicy)
    (hrunnable : { plan.toCompiledPlan with fanoutPolicy := policies }.runPlanAccepts) :
    ValidPlan where
  toCompiledPlan := { plan.toCompiledPlan with fanoutPolicy := policies }
  bound := plan.bound
  runnable := hrunnable
  slotsFormed := plan.slotsFormed

section Policies

variable {policies : Nat → FanoutPolicy}
  {hrunnable : { plan.toCompiledPlan with fanoutPolicy := policies }.runPlanAccepts}

theorem withPolicies_staging :
    (plan.withPolicies policies hrunnable).parentRequiresFanoutStaging q
      = plan.parentRequiresFanoutStaging q := by
  rw [requiresStaging_eq, requiresStaging_eq]
  rfl

theorem withPolicies_owner (i : Nat) :
    (plan.withPolicies policies hrunnable).canonicalOutputOwnerNode i
      = plan.canonicalOutputOwnerNode i := by
  induction i using Nat.strong_induction_on with
  | h i ih =>
      rw [CompiledPlan.canonicalOutputOwnerNode]
      conv_rhs => rw [CompiledPlan.canonicalOutputOwnerNode]
      apply if_congr Iff.rfl rfl
      by_cases hforward : plan.outputStorageMode i = .forwardedPrev ∧ plan.parentIndex i < i
      · rw [dif_pos hforward]
        exact (dif_pos hforward).trans (ih _ hforward.2)
      · rw [dif_neg hforward]
        exact dif_neg hforward

theorem withPolicies_source (i : Nat) :
    (plan.withPolicies policies hrunnable).prevSource i = plan.prevSource i := by
  have hstaged : (plan.withPolicies policies hrunnable).nodeUsesStagedCopyPrev i
      = plan.nodeUsesStagedCopyPrev i := by
    unfold CompiledPlan.nodeUsesStagedCopyPrev
    rw [withPolicies_staging]
    rfl
  unfold CompiledPlan.prevSource
  rw [hstaged, withPolicies_owner]
  rfl

end Policies

end ValidPlan

/-! ## §2. Runs. -/

/-- The program with other fanout policies. -/
def Program.withPolicies (p : Program V W) (policies : Nat → FanoutPolicy)
    (hrunnable : { p.plan.toCompiledPlan with fanoutPolicy := policies }.runPlanAccepts) :
    Program V W where
  plan := p.plan.withPolicies policies hrunnable
  behaviour := p.behaviour
  supported := p.supported
  copy := p.copy
  move := p.move
  asserts := p.asserts

section Runs

variable {p : Program V W} {policies : Nat → FanoutPolicy}
  {hrunnable : { p.plan.toCompiledPlan with fanoutPolicy := policies }.runPlanAccepts}

/-- On the ideal backend the two programs do not differ at any node. -/
theorem withPolicies_sameNode (i : Nat) :
    SameNode (idealSlots p.plan.toCompiledPlan V)
      (idealSlots (p.withPolicies policies hrunnable).plan.toCompiledPlan V) p
      (p.withPolicies policies hrunnable) i := by
  have hget : ∀ j, (idealSlots (p.withPolicies policies hrunnable).plan.toCompiledPlan V).get j
      = (idealSlots p.plan.toCompiledPlan V).get j := by
    intro j
    funext f
    exact congrArg f (ValidPlan.withPolicies_owner j)
  have hset : ∀ j, (idealSlots (p.withPolicies policies hrunnable).plan.toCompiledPlan V).set j
      = (idealSlots p.plan.toCompiledPlan V).set j := by
    intro j
    funext v f
    exact congrArg (fun o => Function.update f o ((f o).map fun _ => v))
      (ValidPlan.withPolicies_owner j)
  exact {
    task := rfl
    source := ValidPlan.withPolicies_source i
    parentGet := fun _ _ => hget _
    parentSet := fun _ _ => hset _
    get := hget i
    hasValue := by
      funext f
      exact congrArg (fun o => if (p.plan.outputType i).isVoid then false else (f o).isSome)
        (ValidPlan.withPolicies_owner i)
    emplace := rfl
    destroy := rfl
    outHasValue := rfl
    outEmplace := rfl
    outDestroy := rfl
    copy := rfl
    move := rfl
    asserts := rfl }

/-- The executors dispatch to the same node operations. -/
theorem withPolicies_nodeOps (fuel : Nat) :
    nodeOps (idealSlots (p.withPolicies policies hrunnable).plan.toCompiledPlan V)
        (p.withPolicies policies hrunnable) fuel
      = nodeOps (idealSlots p.plan.toCompiledPlan V) p fuel := by
  unfold nodeOps
  rw [DfsOps.mk.injEq]
  refine ⟨?_, rfl, ?_, ?_, rfl⟩
  · funext i
    exact (withPolicies_sameNode i).enterNode_eq fuel
  · funext q
    exact ValidPlan.withPolicies_staging
  · funext q
    exact (withPolicies_sameNode q).stageFanout_eq

theorem withPolicies_runPlan (exec : ExecPolicy) (fuel : Nat) :
    runPlan (idealSlots (p.withPolicies policies hrunnable).plan.toCompiledPlan V)
        (p.withPolicies policies hrunnable) exec fuel
      = runPlan (idealSlots p.plan.toCompiledPlan V) p exec fuel := by
  rw [runPlan_eq, runPlan_eq]
  unfold traversal
  rw [withPolicies_nodeOps]
  rfl

end Runs

/-- **Fanout policies only gate.**  Take a validated plan and any other fanout
policies under which it is one as well.  Under every layout and either executor,
its runs end the same way, leave the same world, and do the same in the same
order: which fanouts are staged is settled by the children's tasks. -/
theorem policies_only_gate (p : Program V W) (policies : Nat → FanoutPolicy)
    (hrunnable : { p.plan.toCompiledPlan with fanoutPolicy := policies }.runPlanAccepts)
    (layout : SlotLayoutPolicy) (exec : ExecPolicy) (fuel : Nat) (w : W) :
    let p' := p.withPolicies policies hrunnable
    let run := runFrom (layout.slots p.plan.toCompiledPlan) p exec fuel w
    let run' := runFrom (layout.slots p'.plan.toCompiledPlan) p' exec fuel w
    (∀ q, p'.plan.parentRequiresFanoutStaging q = p.plan.parentRequiresFanoutStaging q)
      ∧ run'.1 = run.1 ∧ run'.2.2 = run.2.2 ∧ run'.2.1.events = run.2.1.events := by
  obtain ⟨hexit, hworld, hevents, -⟩ := run_agrees (layout.refines p.plan) exec fuel w
  obtain ⟨hexit', hworld', hevents', -⟩ :=
    run_agrees (layout.refines (p.withPolicies policies hrunnable).plan)
      (p := p.withPolicies policies hrunnable) exec fuel w
  -- both runs are the one run on the ideal backend
  have hideal : runFrom (idealSlots (p.withPolicies policies hrunnable).plan.toCompiledPlan V)
      (p.withPolicies policies hrunnable) exec fuel w
      = runFrom (idealSlots p.plan.toCompiledPlan V) p exec fuel w :=
    congrFun (withPolicies_runPlan exec fuel) _
  rw [hideal] at hexit' hworld' hevents'
  refine ⟨fun q => ValidPlan.withPolicies_staging, ?_, ?_, ?_⟩
  · exact hexit'.trans hexit.symm
  · exact hworld'.trans hworld.symm
  · exact hevents'.trans hevents.symm

/-! ## §3. Two copying children under two policies. -/

/-- A flaky root, and two children that copy its payload. -/
def copyingTask : Nat → Task
  | 0 => flakyTask
  | _ => .base (.boundTask (.function [.object 0] .void) [.copyPrev (.object 0)])

def copyingPlan : ValidPlan where
  toPlanShape := .twoChildren
  task := copyingTask
  fanoutPolicy := fun _ => .auto
  bound := by decide
  runnable := by decide
  slotsFormed := by decide

def copyingProgram : Program Nat Nat where
  plan := copyingPlan
  behaviour
    | 0 => fanoutProgram.behaviour 0
    | _ + 1 => fanoutProgram.behaviour 2
  copy := fanoutProgram.copy
  move := fanoutProgram.move
  asserts := fanoutProgram.asserts

/-- The root may as well ask for a consuming child that it does not have: nothing
is staged, and the run succeeds as under `fanout_auto_policy`. -/
theorem policies_only_gate_copies :
    let p' := copyingProgram.withPolicies (fun _ => .consumeWithCopies) (by decide)
    p'.plan.parentRequiresFanoutStaging 0 = false
      ∧ (runFrom (SlotLayoutPolicy.slots p'.plan.toCompiledPlan .oneToOne) p'
        .serialDfsExplicitHeapStack 2 0).1 = .ret .success := by
  obtain ⟨hstaging, hexit, -⟩ := policies_only_gate copyingProgram
    (fun _ => .consumeWithCopies) (by decide) .oneToOne .serialDfsExplicitHeapStack 2 0
  exact ⟨(hstaging 0).trans (by decide), hexit.trans (by decide +kernel)⟩

end YOrch
