/-
  YOrch.Executor.Termination — how runs that compile end.

  `enter_node<I>` only compiles if a node's entry point is `noexcept`, which the
  type traits decide from the exception specifications of the callable, of the
  payloads' constructors and of the arguments.  A program that honours them has
  no task that ends the program by throwing, and retry layers that give up end
  their loops.  What is left are the contracts.

    • `Honours.raises` — nothing throws but where a catch adapter is around it,
    • `Program.terminates` — no entry point goes on for ever,
    • `run_halts_violated` — how a run can end.
-/
import YOrch.Executor.Typing

namespace YOrch

open Library

variable {V W : Type}

/-! ## §1. Exception specifications. -/

section Program

variable (p : Program V W) (typeOf : V → CppType) (traits : NothrowTraits) (callable : Nat → Bool)

/-- The bound task of node `i` may throw. -/
def Program.MayThrow (i : Nat) : Prop :=
  (p.plan.task i).bound.invokeNothrow traits (p.plan.nodePrevView i).isSome (callable i) = false

/-- Nothing throws that the traits say is `noexcept`. -/
structure Program.Honours : Prop where
  argument : ∀ i < p.plan.nodeCount, ∀ binding ∈ (p.behaviour i).evaluated,
    binding.1.isPrevAccess = false →
    binding.1.resolveNothrow traits (p.plan.nodePrevView i).isSome binding.2 →
    ∀ w, ((p.behaviour i).argument binding w).1 = true
  copy : ∀ w v, traits.constructible (typeOf v) (typeOf v).constRef → (p.copy w v).1 ≠ none
  move : ∀ w v, traits.constructible (typeOf v) (.rvalueRef (typeOf v)) → (p.move w v).1 ≠ none
  body : ∀ i < p.plan.nodeCount, callable i → ∀ args w, (∀ v ∈ args, typeOf v = p.plan.prevType i) →
    ((p.behaviour i).body args w).1.1 ≠ .thrown
  sink : ∀ i < p.plan.nodeCount, callable i → ∀ args w, (∀ v ∈ args, typeOf v = p.plan.prevType i) →
    ((p.behaviour i).sinkBody args w).Exits (· ≠ .thrown)

/-- The callables come back. -/
structure Program.Returns : Prop where
  body : ∀ i < p.plan.nodeCount, ∀ args w, (∀ v ∈ args, typeOf v = p.plan.prevType i) →
    ((p.behaviour i).body args w).1.1 ≠ .halted
  sink : ∀ i < p.plan.nodeCount, ∀ args w, (∀ v ∈ args, typeOf v = p.plan.prevType i) →
    ((p.behaviour i).sinkBody args w).Exits (· ≠ .halted)

/-- The retry layers of every task give up. -/
def Program.GivesUp (fuel : Nat) : Prop :=
  ∀ i < p.plan.nodeCount, (p.plan.task i).GivesUp fuel (p.behaviour i).policies
    ∧ (p.plan.task i).GivesUp fuel (p.behaviour i).policiesInto

end Program

/-! ## §2. Attempts. -/

section Attempts

variable {p : Program V W} {typeOf : V → CppType} {traits : NothrowTraits} {callable : Nat → Bool}
  {i : Nat}

/-- A spec of a task that may not throw may not throw either. -/
theorem Program.MayThrow.of_binding {binding : Spec × CppType}
    (hbinding : binding ∈ (p.behaviour i).evaluated)
    (h : binding.1.resolveNothrow traits (p.plan.nodePrevView i).isSome binding.2 = false) :
    p.MayThrow traits callable i := by
  unfold Program.MayThrow BaseTask.invokeNothrow
  rw [Bool.and_eq_false_iff]
  right
  rw [List.all_eq_false]
  refine ⟨binding, (p.behaviour i).evaluated_perm.subset hbinding, ?_⟩
  rw [h]
  exact Bool.false_ne_true

theorem Program.MayThrow.of_callable (h : callable i = false) : p.MayThrow traits callable i := by
  rw [Program.MayThrow, BaseTask.invokeNothrow, h, Bool.false_and]

/-- What a prev-access spec constructs is of the payload's type. -/
theorem resolvePrev_nothrow (hobject : ∀ v, (typeOf v).removeCvref = typeOf v)
    (hhonours : p.Honours typeOf traits callable) (hi : i < p.plan.nodeCount)
    (hresolves : p.plan.nodeResolves i) {binding : Spec × CppType}
    (hbinding : binding ∈ (p.behaviour i).evaluated) (hprev : binding.1.isPrevAccess) {w : W}
    {v : V} (hv : typeOf v = p.plan.prevType i) (hnone : (p.resolvePrev binding v w).1 = none) :
    binding.1.resolveNothrow traits (p.plan.nodePrevView i).isSome binding.2 = false := by
  have hmem : binding ∈ (p.plan.task i).bound.bindings :=
    (p.behaviour i).evaluated_perm.subset hbinding
  have htype : binding.1.payloadType = typeOf v :=
    (CompiledPlan.resolves_payload (p.plan.bound i hi) hresolves hmem hprev).trans hv.symm
  obtain ⟨spec, arg⟩ := binding
  unfold Program.resolvePrev at hnone
  cases spec with
  | copyPrev t =>
      have htype : t.removeCvref = typeOf v := htype
      have hcopy := mt (hhonours.copy w v) (not_not.mpr hnone)
      rw [Spec.resolveNothrow, htype, Bool.eq_false_iff.mpr hcopy, Bool.and_false]
  | consumePrev t =>
      have htype : t.removeCvref = typeOf v := htype
      dsimp only [Spec.kind] at hnone
      split at hnone
      · cases hnone
      · next harg =>
          have hmove := mt (hhonours.move w v) (not_not.mpr hnone)
          cases hview : p.plan.nodePrevView i with
          | none => rfl
          | some view =>
              -- the argument is an object, not a reference
              have hasserts := CompiledPlan.nodeResolves_bindings (p.plan.bound i hi) hresolves
                hview hmem
              simp only [Spec.viewAsserts, Bool.and_eq_true, Bool.or_eq_true, beq_iff_eq]
                at hasserts
              have hvalue : arg = typeOf v := (hasserts.1.1.resolve_right harg).trans htype
              have hne : arg ≠ .rvalueRef (typeOf v) := fun h => harg (h.trans (htype ▸ rfl))
              rw [Spec.resolveNothrow, htype, beq_eq_false_iff_ne.mpr hne, hvalue, hobject,
                Bool.eq_false_iff.mpr hmove, Bool.or_false, Bool.and_false]
  | borrowPrev t | borrowPrevMut t => cases hnone
  | fromCtx t | value t => cases hprev

/-- **What throws.** -/
theorem Program.Honours.raises (hobject : ∀ v, (typeOf v).removeCvref = typeOf v)
    (hhonours : p.Honours typeOf traits callable)
    (hreturns : p.Returns typeOf) (hresolves : ∀ i < p.plan.nodeCount, p.plan.nodeResolves i) :
    p.Raises typeOf (p.MayThrow traits callable) False where
  argument i hi binding hbinding hprev w hthrown := by
    apply Program.MayThrow.of_binding hbinding
    by_contra hnothrow
    have := hhonours.argument i hi binding hbinding hprev (Bool.not_eq_false _ |>.mp hnothrow) w
    rw [hthrown] at this
    cases this
  prev i hi binding hbinding hprev w v hv hnone :=
    .of_binding hbinding
      (resolvePrev_nothrow hobject hhonours hi (hresolves i hi) hbinding hprev hv hnone)
  body i hi args w hargs := by
    refine ⟨fun hthrown => ?_, fun hhalted => hreturns.body i hi args w hargs hhalted⟩
    apply Program.MayThrow.of_callable
    by_contra hcallable
    exact hhonours.body i hi (Bool.not_eq_false _ |>.mp hcallable) args w hargs hthrown
  sink i hi args w hargs := by
    have hhalted := hreturns.sink i hi args w hargs
    cases hcallable : callable i with
    | true =>
        exact SinkBody.exits_of_both (fun exit hthrown hhalted =>
            ⟨fun h => absurd h hthrown, fun h => hhalted h⟩) _
          (hhonours.sink i hi hcallable args w hargs) hhalted
    | false =>
        exact SinkBody.exits_of_both (fun exit _ hhalted =>
            ⟨fun _ => .of_callable hcallable, fun h => hhalted h⟩) _ hhalted hhalted

/-- **What goes on.**  The entry points of an executable task catch what its
bound task may throw. -/
theorem Program.terminates (p : Program V W) {traits : NothrowTraits} {callable : Nat → Bool}
    {fuel : Nat} (hexecutable : ∀ i < p.plan.nodeCount, p.plan.nodeExecutable traits callable i)
    (hgives : p.GivesUp fuel) : p.Terminates (p.MayThrow traits callable) False fuel where
  noexcept i hi hthrows hcatches := by
    have hnode := hexecutable i hi
    rw [CompiledPlan.nodeExecutable, Bool.and_eq_true, Task.executable, Bool.and_eq_true,
      Task.invokeNothrow_iff, hcatches, Bool.false_or, hthrows] at hnode
    cases hnode.2.2
  raw i hi hraw := by
    have hnode := hexecutable i hi
    rw [CompiledPlan.nodeExecutable, Bool.and_eq_true, Task.executable, Bool.and_eq_true] at hnode
    have hformed := p.plan.slotsFormed i hi
    rw [CompiledPlan.nodeSlotFormed, Bool.and_eq_true, Bool.not_eq_true'] at hformed
    exact Or.inl ((hgives i hi).1.settles (p.supported i hi) hnode.2.1 hraw hformed.1)
  into i hi _ := Or.inl (hgives i hi).2

end Attempts

/-! ## §3. Runs. -/

/-- **How a run ends.**  Let the nodes of a plan compile, let its program make
objects of the types it declares, throw only where its exception specifications
allow it and come back from every callable, and let every retry layer give up
after fewer than `fuel` retries.  Then, under either layout and either executor,
a run ends the program only right after a contract was violated; and if the
contracts hold and no payload's copies or moves throw, it returns. -/
theorem run_halts_violated (p : Program V W) (typeOf : V → CppType) (traits : NothrowTraits)
    (callable : Nat → Bool) (fuel : Nat) (hobject : ∀ v, (typeOf v).removeCvref = typeOf v)
    (htyped : p.WellTyped typeOf)
    (hexecutable : ∀ i < p.plan.nodeCount, p.plan.nodeExecutable traits callable i)
    (hhonours : p.Honours typeOf traits callable) (hreturns : p.Returns typeOf)
    (hgives : p.GivesUp fuel) (layout : SlotLayoutPolicy) (exec : ExecPolicy) (w : W) :
    let run := runFrom (layout.slots p.plan.toCompiledPlan) p exec fuel w
    (run.1 = .halted → JustViolated run.2.1)
      ∧ ((∀ violation, .violated violation ∉ run.2.1.events) →
          (∀ v, traits.constructible (typeOf v) (typeOf v).constRef) →
          (∀ v, traits.constructible (typeOf v) (.rvalueRef (typeOf v))) →
          ∃ step, run.1 = .ret step) := by
  intro run
  have hresolves : ∀ i < p.plan.nodeCount, p.plan.nodeResolves i := by
    intro i hi
    have hnode := hexecutable i hi
    rw [CompiledPlan.nodeExecutable, Bool.and_eq_true] at hnode
    exact hnode.1
  have hhalts : run.1 = .halted → JustViolated run.2.1 := by
    intro h
    have hrun := run_outcome htyped (hhonours.raises hobject hreturns hresolves)
      (p.terminates hexecutable hgives) layout exec w
    exact (hrun.2 h).resolve_left id
  refine ⟨hhalts, fun hcalm hcopy hmove => ?_⟩
  have hthrown : run.1 ≠ .thrown :=
    runPlan_neverThrows (fun w v => hhonours.copy w v (hcopy v))
      (fun w v => hhonours.move w v (hmove v)) exec fuel _
  cases hexit : run.1 with
  | ret step => exact ⟨step, rfl⟩
  | thrown => exact absurd hexit hthrown
  | halted =>
      obtain ⟨violation, rest, hevents⟩ := hhalts hexit
      apply absurd _ (hcalm violation)
      rw [hevents]
      exact List.mem_cons_self

/-! ## §4. The relay. -/

/-- Nothing throws. -/
def NothrowTraits.nothing : NothrowTraits where
  constructible _ _ := true
  ctxGet _ := true

theorem relay_honours : relayProgram.Honours CppType.object .nothing fun _ => true where
  argument i _ binding _ _ _ w := by
    match i with
    | 0 | 1 | 2 | _ + 3 => rfl
  copy w v _ := nofun
  move w v _ := nofun
  body i _ _ args w _ := by
    match i with
    | 0 | 1 | 2 | _ + 3 => nofun
  sink i _ _ args w _ := by
    match i with
    | 0 | 1 | 2 | _ + 3 => nofun

theorem relay_returns : relayProgram.Returns CppType.object where
  body i _ args w _ := by
    match i with
    | 0 | 1 | 2 | _ + 3 => nofun
  sink i _ args w _ := by
    match i with
    | 0 | 1 | 2 | _ + 3 => nofun

/-- The second task may be retried once. -/
theorem relay_givesUp : relayProgram.GivesUp 2 := by
  have hpolicy : RetryPolicy.GivesUp (W := Nat) (R := StepResult)
      ⟨fun retryCount w => (retryCount < 1, w), none⟩ 1 := by
    refine ⟨by decide, fun retryCount w hle => ?_⟩
    exact decide_eq_false (Nat.not_lt.mpr hle)
  intro i _
  match i with
  | 0 | 2 | _ + 3 => exact ⟨trivial, trivial⟩
  | 1 => exact ⟨⟨⟨1, by decide, hpolicy⟩, trivial⟩, ⟨1, by decide, hpolicy⟩, trivial⟩

theorem run_halts_violated_relay :
    ∃ step, (runFrom (SlotLayoutPolicy.slots relayPlan.toCompiledPlan .serialDfsCompact)
      relayProgram .serialDfsExplicitHeapStack 2 0).1 = .ret step := by
  have hcalm : (runFrom (SlotLayoutPolicy.slots relayPlan.toCompiledPlan .serialDfsCompact)
      relayProgram .serialDfsExplicitHeapStack 2 0).2.1.events.all (fun event =>
        match event with
        | .violated _ => false
        | _ => true) = true := by
    decide +kernel
  have hrun := run_halts_violated relayProgram CppType.object .nothing (fun _ => true) 2
    (fun _ => rfl) relay_typed (by decide) relay_honours relay_returns relay_givesUp
    .serialDfsCompact .serialDfsExplicitHeapStack 0
  refine hrun.2 ?_ (fun _ => rfl) fun _ => rfl
  intro violation hmem
  cases List.all_eq_true.mp hcalm _ hmem

end YOrch
