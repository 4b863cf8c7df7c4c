/-
  YOrch.Plan.Owners — whose object a node's prev access reaches.

  A forward-prev node's payload is its parent's, so the object behind a parent
  may belong to a node further up.  `prevSource` is what a node's prev view is
  bound to: nothing, a fanout stage copy, or the slot of a canonical owner.

    • `owner_chain` — the owner lies on the node's path and every node below it
      on that path forwards,
    • `owner_path` — two nodes with one owner lie on one path,
    • `exclusive_alias` — an exclusive access shares its slot with another
      node's access only along a path, below a forward-prev node.
-/
import YOrch.Plan.Validation

namespace YOrch

/-- What a prev view is bound to. -/
inductive PrevSource where
  | slot (owner : Nat)
  | stage (parent : Nat)
  deriving Repr, DecidableEq

/-- The source `make_node_prev_view` selects for node `i`. -/
def CompiledPlan.prevSource (plan : CompiledPlan) (i : Nat) : Option PrevSource :=
  if plan.parentIndex i = plan.noParent then none
  else if (plan.outputType (plan.parentIndex i)).isVoid then none
  else if plan.nodeUsesStagedCopyPrev i then some (.stage (plan.parentIndex i))
  else some (.slot (plan.canonicalOutputOwnerNode (plan.parentIndex i)))

namespace CompiledPlan

/-! ## §1. Canonical owners. -/

/-- `canonical_output_owner_node_impl<Plan, I>::value`, or `none` where one of
its two static assertions fails. -/
def canonicalOutputOwnerNodeImpl (plan : CompiledPlan) (i : Nat) : Option Nat :=
  if (plan.outputType i).isVoid then some plan.noParent
  else if plan.outputStorageMode i = .forwardedPrev then
    if plan.parentIndex i = plan.noParent then none
    else if (plan.outputType (plan.parentIndex i)).isVoid then none
    -- a node that is not the root comes after its parent
    else if _ : plan.parentIndex i < i then plan.canonicalOutputOwnerNodeImpl (plan.parentIndex i)
    else none
  else some i
termination_by i

variable {plan : CompiledPlan} {i : Nat}

/-- The owner of a node that does not forward is the node. -/
theorem owner_self (hvoid : (plan.outputType i).isVoid = false)
    (h : plan.outputStorageMode i ≠ .forwardedPrev) : plan.canonicalOutputOwnerNode i = i := by
  rw [canonicalOutputOwnerNode, hvoid]
  simp [h]

/-- A node with a payload that does not forward owns storage. -/
theorem owned_of_output (hvoid : (plan.outputType i).isVoid = false)
    (h : plan.outputStorageMode i ≠ .forwardedPrev) : plan.payloadNode i := by
  simp only [payloadNode, YOrch.payloadNode, beq_iff_eq]
  simp only [outputStorageMode, outputType, Task.outputStorageMode, Task.outputType] at h hvoid ⊢
  cases hd : (plan.task i).declaredOutput with
  | some T =>
      simp only [hd] at h hvoid ⊢
      split_ifs at h ⊢
      · contradiction
      · rfl
  | none =>
      simp only [hd] at h hvoid ⊢
      rw [if_neg]
      intro hnone
      rw [Bool.or_eq_true, beq_iff_eq] at hnone
      -- a `void` or `step_result` task has no output
      have hout : Task.taskOutputType (plan.task i).rawResultType = .void := by
        rcases hnone with hraw | hraw
        · rw [CppType.isVoid, beq_iff_eq] at hraw
          rw [Task.taskOutputType, hraw]
        · rw [hraw]
          rfl
      rw [hout] at hvoid
      cases hvoid

section Validated

variable (hvalid : plan.validatePlan = .ok)

include hvalid

/-- The owner of a forward-prev node is its parent's. -/
theorem owner_forward (hi : i < plan.nodeCount) (h : plan.outputStorageMode i = .forwardedPrev) :
    plan.canonicalOutputOwnerNode i = plan.canonicalOutputOwnerNode (plan.parentIndex i) := by
  obtain ⟨hpos, hvoid, htype⟩ := forward_parent hvalid hi h
  rw [canonicalOutputOwnerNode, htype, hvoid]
  simp [h, plan.parentIndex_lt hpos hi]

/-- **The chain to the owner.** -/
theorem owner_chain : ∀ i, i < plan.nodeCount → (plan.outputType i).isVoid = false →
    plan.canonicalOutputOwnerNode i ∈ plan.path i
      ∧ plan.payloadNode (plan.canonicalOutputOwnerNode i)
      ∧ ∀ m ∈ plan.path i, plan.canonicalOutputOwnerNode i < m →
          plan.outputStorageMode m = .forwardedPrev := by
  refine plan.node_induction ?_ fun p i hchild ih hvoid => ?_
  · intro hvoid
    have hroot : plan.outputStorageMode 0 ≠ .forwardedPrev := fun h =>
      Nat.lt_irrefl 0 (forward_parent hvalid plan.nodeCount_pos h).1
    rw [owner_self hvoid hroot]
    refine ⟨plan.self_mem_path 0, owned_of_output hvoid hroot, fun m hm hlt => ?_⟩
    rw [PlanShape.path_zero, List.mem_singleton] at hm
    omega
  · by_cases h : plan.outputStorageMode i = .forwardedPrev
    · obtain ⟨-, hparent, -⟩ := forward_parent hvalid hchild.2.1 h
      rw [hchild.2.2] at hparent
      obtain ⟨hmem, howned, hforward⟩ := ih hparent
      rw [owner_forward hvalid hchild.2.1 h, hchild.2.2, hchild.path]
      refine ⟨List.mem_cons_of_mem _ hmem, howned, fun m hm hlt => ?_⟩
      rcases List.mem_cons.mp hm with rfl | hm
      · exact h
      · exact hforward m hm hlt
    · rw [owner_self hvoid h]
      refine ⟨plan.self_mem_path i, owned_of_output hvoid h, fun m hm hlt => ?_⟩
      exact absurd hlt (Nat.not_lt.mpr (plan.mem_path_le hchild.2.1 hm))

/-- Every node from the owner down the chain has that owner and that type. -/
theorem owner_of_chain : ∀ i, i < plan.nodeCount → (plan.outputType i).isVoid = false →
    ∀ m ∈ plan.path i, plan.canonicalOutputOwnerNode i ≤ m →
      plan.canonicalOutputOwnerNode m = plan.canonicalOutputOwnerNode i
        ∧ plan.outputType m = plan.outputType i := by
  refine plan.node_induction ?_ fun p i hchild ih hvoid m hm hle => ?_
  · intro _ m hm _
    rw [PlanShape.path_zero, List.mem_singleton] at hm
    rw [hm]
    exact ⟨rfl, rfl⟩
  · rw [hchild.path] at hm
    rcases List.mem_cons.mp hm with rfl | hm
    · exact ⟨rfl, rfl⟩
    · have hp : p < plan.nodeCount := Nat.lt_trans hchild.lt hchild.2.1
      by_cases h : plan.outputStorageMode i = .forwardedPrev
      · obtain ⟨-, hparent, htype⟩ := forward_parent hvalid hchild.2.1 h
        rw [hchild.2.2] at hparent htype
        rw [owner_forward hvalid hchild.2.1 h, hchild.2.2] at hle ⊢
        rw [htype]
        exact ih hparent m hm hle
      · -- the node is its own owner, and the path above it holds earlier nodes
        rw [owner_self hvoid h] at hle
        exact absurd (Nat.lt_of_le_of_lt (plan.mem_path_le hp hm) hchild.lt) (Nat.not_lt.mpr hle)

/-- Neither assertion fails on the way to the owner. -/
theorem ownerImpl_eq : ∀ i, i < plan.nodeCount → (plan.outputType i).isVoid = false →
    plan.canonicalOutputOwnerNodeImpl i = some (plan.canonicalOutputOwnerNode i) := by
  have hself : ∀ i, (plan.outputType i).isVoid = false →
      plan.outputStorageMode i ≠ .forwardedPrev →
      plan.canonicalOutputOwnerNodeImpl i = some (plan.canonicalOutputOwnerNode i) := by
    intro i hvoid h
    rw [owner_self hvoid h, canonicalOutputOwnerNodeImpl, hvoid]
    simp [h]
  refine plan.node_induction ?_ fun p i hchild ih hvoid => ?_
  · exact fun hvoid => hself 0 hvoid fun h =>
      Nat.lt_irrefl 0 (forward_parent hvalid plan.nodeCount_pos h).1
  · by_cases h : plan.outputStorageMode i = .forwardedPrev
    · obtain ⟨hpos, hparent, -⟩ := forward_parent hvalid hchild.2.1 h
      have hlt := plan.parentIndex_lt hpos hchild.2.1
      have hne : plan.parentIndex i ≠ plan.noParent :=
        Nat.ne_of_lt (Nat.lt_trans hlt hchild.2.1)
      rw [owner_forward hvalid hchild.2.1 h, canonicalOutputOwnerNodeImpl, hvoid]
      rw [if_neg Bool.false_ne_true, if_pos h, if_neg hne, if_neg (by simp [hparent]), dif_pos hlt,
        hchild.2.2]
      rw [hchild.2.2] at hparent
      exact ih hparent
    · exact hself i hvoid h

end Validated

end CompiledPlan

namespace ValidPlan

variable {plan : ValidPlan} {p q i j o : Nat}

theorem owner_self (hvoid : (plan.outputType i).isVoid = false)
    (h : plan.outputStorageMode i ≠ .forwardedPrev) : plan.canonicalOutputOwnerNode i = i :=
  CompiledPlan.owner_self hvoid h

theorem owner_forward (hi : i < plan.nodeCount)
    (h : plan.outputStorageMode i = .forwardedPrev) :
    plan.canonicalOutputOwnerNode i = plan.canonicalOutputOwnerNode (plan.parentIndex i) :=
  CompiledPlan.owner_forward plan.checks.1 hi h

theorem owner_chain : ∀ i, i < plan.nodeCount → (plan.outputType i).isVoid = false →
    plan.canonicalOutputOwnerNode i ∈ plan.path i
      ∧ plan.payloadNode (plan.canonicalOutputOwnerNode i)
      ∧ ∀ m ∈ plan.path i, plan.canonicalOutputOwnerNode i < m →
          plan.outputStorageMode m = .forwardedPrev :=
  CompiledPlan.owner_chain plan.checks.1

theorem owner_le (hi : i < plan.nodeCount) (hvoid : (plan.outputType i).isVoid = false) :
    plan.canonicalOutputOwnerNode i ≤ i :=
  plan.mem_path_le hi (owner_chain i hi hvoid).1

/-! ## §2. Nodes with one owner. -/

/-- The next node on the path from a proper ancestor. -/
theorem child_towards (hp : p < plan.nodeCount) (hq : q ∈ plan.path p) (hne : q ≠ p) :
    ∃ c, plan.IsParent q c ∧ c ∈ plan.path p := by
  have hanc := ((plan.mem_path hp).mp hq).resolve_left hne
  obtain ⟨c, hchild, hc⟩ := Relation.TransGen.head'_iff.mp hanc
  refine ⟨c, hchild, (plan.mem_path hp).mpr ?_⟩
  rcases Relation.reflTransGen_iff_eq_or_transGen.mp hc with h | h
  · exact Or.inl h.symm
  · exact Or.inr h

/-- Below the owner, a node on an owner's chain has the next chain node as its
only child. -/
theorem chain_only_child (hq : q < plan.nodeCount) (hvoid : (plan.outputType q).isVoid = false)
    (hp : p ∈ plan.path q) (hne : p ≠ q) (ho : plan.canonicalOutputOwnerNode q ≤ p) :
    ∃ c, plan.IsParent p c ∧ c ∈ plan.path q ∧ plan.outputStorageMode c = .forwardedPrev
      ∧ ∀ d, plan.IsParent p d → d = c := by
  obtain ⟨c, hchild, hc⟩ := child_towards hq hp hne
  have hforward := (owner_chain q hq hvoid).2.2 c hc (Nat.lt_of_le_of_lt ho hchild.lt)
  exact ⟨c, hchild, hc, hforward, fun d hd => forward_only_child hchild hd hforward⟩

/-- **Two nodes with one owner lie on one path.** -/
theorem owner_path (hp : p < plan.nodeCount) (hpv : (plan.outputType p).isVoid = false) :
    ∀ q, q < plan.nodeCount → (plan.outputType q).isVoid = false →
      plan.canonicalOutputOwnerNode p = plan.canonicalOutputOwnerNode q →
      p ∈ plan.path q ∨ q ∈ plan.path p := by
  refine plan.node_induction ?_ fun r q hchild ih hqv howner => ?_
  · intro h0v howner
    have h0 : plan.canonicalOutputOwnerNode 0 = 0 :=
      Nat.le_zero.mp (owner_le plan.nodeCount_pos h0v)
    rw [h0] at howner
    exact Or.inr (howner ▸ (owner_chain p hp hpv).1)
  · by_cases h : plan.outputStorageMode q = .forwardedPrev
    · obtain ⟨-, hrv, -⟩ := forward_parent hchild.2.1 h
      rw [hchild.2.2] at hrv
      rw [owner_forward hchild.2.1 h, hchild.2.2] at howner
      rcases ih hrv howner with hmem | hmem
      · exact Or.inl (hchild.path ▸ List.mem_cons_of_mem _ hmem)
      · by_cases hne : r = p
        · exact Or.inl (hchild.path ▸ hne ▸ List.mem_cons_of_mem _ (plan.self_mem_path r))
        · -- `r` has one child, which is on the way to `p`
          have hr : plan.canonicalOutputOwnerNode p ≤ r :=
            howner ▸ owner_le (IsParent.parent_lt hchild) hrv
          obtain ⟨c, -, hc, -, honly⟩ := chain_only_child hp hpv hmem hne hr
          exact Or.inr (honly q hchild ▸ hc)
    · rw [owner_self hqv h] at howner
      exact Or.inr (howner ▸ (owner_chain p hp hpv).1)

/-! ## §3. Exclusive accesses. -/

/-- The sources a plan's nodes with prev access read. -/
theorem prevSource_eq (hi : i < plan.nodeCount) (h : (plan.task i).usesPrevAccess) :
    plan.prevSource i = if plan.nodeUsesStagedCopyPrev i then some (.stage (plan.parentIndex i))
      else some (.slot (plan.canonicalOutputOwnerNode (plan.parentIndex i))) := by
  obtain ⟨hpos, hvoid⟩ := parent_output hi h
  rw [CompiledPlan.prevSource, if_neg (parentIndex_ne hpos hi), hvoid]
  rfl

/-- An exclusive access is never to a staged copy. -/
theorem exclusive_not_staged (h : (plan.task i).usesExclusivePrevAccess) :
    plan.nodeUsesStagedCopyPrev i = false := by
  rw [CompiledPlan.nodeUsesStagedCopyPrev]
  split
  · rfl
  · cases hcopy : (plan.task i).usesCopyOnlyPrevAccess with
    | false => rw [Bool.and_false]
    | true =>
        rw [Task.copyOnly_not_exclusive hcopy] at h
        cases h

/-- The upper of two nodes whose parents lie on one owner's chain forwards. -/
theorem upper_forwards (hi : i < plan.nodeCount) (hj : j < plan.nodeCount) (hipos : 0 < i)
    (hjpos : 0 < j) (hne : plan.parentIndex i ≠ plan.parentIndex j)
    (hvoid : (plan.outputType (plan.parentIndex j)).isVoid = false)
    (ho : plan.canonicalOutputOwnerNode (plan.parentIndex j) ≤ plan.parentIndex i)
    (hmem : plan.parentIndex i ∈ plan.path (plan.parentIndex j)) :
    i ∈ plan.path j ∧ plan.outputStorageMode i = .forwardedPrev := by
  have hjp : plan.IsParent (plan.parentIndex j) j := ⟨hjpos, hj, rfl⟩
  obtain ⟨c, -, hc, hforward, honly⟩ :=
    chain_only_child (IsParent.parent_lt hjp) hvoid hmem hne ho
  obtain rfl := honly i ⟨hipos, hi, rfl⟩
  exact ⟨hjp.path ▸ List.mem_cons_of_mem _ hc, hforward⟩

/-- **No aliasing.**  If a node with exclusive access and another node read one
owner's slot, they lie on one path and the upper of the two forwards. -/
theorem exclusive_alias (hi : i < plan.nodeCount) (hj : j < plan.nodeCount) (hne : i ≠ j)
    (hexclusive : (plan.task i).usesExclusivePrevAccess) (huses : (plan.task j).usesPrevAccess)
    (hsource : plan.prevSource i = some (.slot o)) (hsource' : plan.prevSource j = some (.slot o)) :
    (i ∈ plan.path j ∧ plan.outputStorageMode i = .forwardedPrev)
      ∨ (j ∈ plan.path i ∧ plan.outputStorageMode j = .forwardedPrev) := by
  obtain ⟨hipos, hiv⟩ := parent_output hi (Task.exclusive_uses hexclusive)
  obtain ⟨hjpos, hjv⟩ := parent_output hj huses
  have hip : plan.IsParent (plan.parentIndex i) i := ⟨hipos, hi, rfl⟩
  have hjp : plan.IsParent (plan.parentIndex j) j := ⟨hjpos, hj, rfl⟩
  rw [prevSource_eq hi (Task.exclusive_uses hexclusive), exclusive_not_staged hexclusive] at hsource
  rw [prevSource_eq hj huses] at hsource'
  cases hstaged : plan.nodeUsesStagedCopyPrev j with
  | true =>
      rw [hstaged] at hsource'
      cases hsource'
  | false =>
      rw [hstaged] at hsource'
      simp only [Bool.false_eq_true, if_false, Option.some.injEq, PrevSource.slot.injEq]
        at hsource hsource'
      have howner := hsource.trans hsource'.symm
      by_cases hparent : plan.parentIndex i = plan.parentIndex j
      · -- two children of one parent: the other one would be staged
        have := (exclusive_sibling hip (hparent ▸ hjp) hne hexclusive huses).2
        rw [hstaged] at this
        cases this
      · have hile := owner_le (IsParent.parent_lt hip) hiv
        have hjle := owner_le (IsParent.parent_lt hjp) hjv
        rcases owner_path (IsParent.parent_lt hip) hiv _ (IsParent.parent_lt hjp) hjv howner
          with hmem | hmem
        · exact Or.inl (upper_forwards hi hj hipos hjpos hparent hjv (howner ▸ hile) hmem)
        · exact Or.inr (upper_forwards hj hi hjpos hipos (Ne.symm hparent) hiv
            (howner ▸ hjle) hmem)

end ValidPlan

end YOrch
