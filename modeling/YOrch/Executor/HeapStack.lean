/-
  YOrch.Executor.HeapStack — the explicit heap stack, iteration by iteration.

  `Moves` says once what an iteration of `run_explicit_heap_stack_loop` can make
  of the loop's variables, whatever the node operations do.  `StackInv` is the
  invariant: the frames are the path of the top one, each at the child above it,
  and everything still to be pushed comes after everything pushed so far.  `work`
  counts what is left to do:

    • `loopStep_performs` — an iteration moves, returns, throws, or an operation
      halts in it; no read is out of bounds,
    • `StackInv.moves` — a move keeps the invariant and takes work away,
    • `heapStack_bounded` — hence the loop ends, its frames stay on one path
      within the reserved capacity, and no node is entered twice.
-/
import YOrch.Executor.Unwinding

namespace YOrch

open Library

variable {σ : Type} {plan : PlanShape} {ops : DfsOps σ}

/-! ## §1. What an iteration can do. -/

/-- The frame after its node was entered, at the same child. -/
structure DfsStackFrame.EnteredFrom (frame' frame : DfsStackFrame) : Prop where
  node : frame'.nodeIndex = frame.nodeIndex
  ordinal : frame'.nextChildOrdinal = frame.nextChildOrdinal
  entered : frame'.entered = true

/-- The parent's frame at its next child. -/
def DfsStackFrame.next (parent : DfsStackFrame) : DfsStackFrame :=
  { parent with nextChildOrdinal := parent.nextChildOrdinal + 1 }

/-- The ways an iteration changes the loop's variables. -/
inductive Moves (plan : PlanShape) (ops : DfsOps σ) : LoopState → LoopState → Prop where
  | fail {frame frame' : DfsStackFrame} {rest : List DfsStackFrame} {cur step : StepResult}
      (hframe : frame'.EnteredFrom frame) :
      Moves plan ops ⟨frame :: rest, cur, false⟩ ⟨frame' :: rest, step, true⟩
  | push {frame frame' : DfsStackFrame} {rest : List DfsStackFrame} {cur : StepResult}
      (hframe : frame'.EnteredFrom frame)
      (hmore : frame.nextChildOrdinal < plan.childCount frame.nodeIndex) :
      Moves plan ops ⟨frame :: rest, cur, false⟩
        ⟨newFrame ops (plan.childIndex frame.nodeIndex frame.nextChildOrdinal) :: frame' :: rest,
          cur, false⟩
  | resume {finished parent : DfsStackFrame} {rest : List DfsStackFrame} {cur : StepResult}
      (hmore : parent.nextChildOrdinal + 1 < plan.childCount parent.nodeIndex) :
      Moves plan ops ⟨finished :: parent :: rest, cur, true⟩ ⟨parent.next :: rest, cur, false⟩
  | last {finished parent : DfsStackFrame} {rest : List DfsStackFrame} {cur : StepResult}
      (hlast : parent.nextChildOrdinal + 1 = plan.childCount parent.nodeIndex) :
      Moves plan ops ⟨finished :: parent :: rest, cur, true⟩ ⟨parent.next :: rest, .success, true⟩
  | pass {finished parent : DfsStackFrame} {rest : List DfsStackFrame} {cur : StepResult} :
      Moves plan ops ⟨finished :: parent :: rest, cur, true⟩ ⟨parent :: rest, cur, true⟩

/-- Some node operation does not come back. -/
def OpHalts (ops : DfsOps σ) : Prop :=
  ∃ i s, (ops.enterNode i s).1 = .halted ∨ (ops.stage i s).1 = .halted

/-- What the result of an iteration from `L` is. -/
def Outcome (plan : PlanShape) (ops : DfsOps σ) (L : LoopState) (result : LoopState ⊕ StepResult) :
    Prop :=
  match result with
  | .inl L' => Moves plan ops L L'
  | .inr _ => L.frames.length ≤ 1

/-- A triple about what an iteration does, from any state. -/
abbrev Performs (ops : DfsOps σ) {α : Type} (x : Exec σ α) (Q : α → Prop) : Prop :=
  Exec.Triple (fun _ => True) x (fun a _ => Q a) (fun _ => True) (fun _ => OpHalts ops)

theorem enterNode_performs (i : Nat) : Performs ops (ops.enterNode i) fun _ => True := by
  apply Exec.Triple.of_ends
  intro s _
  have hhalt : (ops.enterNode i s).1 = .halted → OpHalts ops := fun h => ⟨i, s, Or.inl h⟩
  revert hhalt
  rcases ops.enterNode i s with ⟨_ | _ | _, s'⟩
  · exact fun _ => trivial
  · exact fun _ => trivial
  · exact fun hhalt => hhalt rfl

theorem prepare_performs (i : Nat) :
    Performs ops (ops.prepareFanoutStaging i) fun _ => True := by
  unfold DfsOps.prepareFanoutStaging
  split
  · apply Exec.Triple.of_ends
    intro s _
    have hhalt : (ops.stage i s).1 = .halted → OpHalts ops := fun h => ⟨i, s, Or.inr h⟩
    revert hhalt
    rcases ops.stage i s with ⟨_ | _ | _, s'⟩
    · exact fun _ => trivial
    · exact fun _ => trivial
    · exact fun hhalt => hhalt rfl
  · exact .pure fun _ _ => trivial

/-- The reads of a descent are in bounds. -/
theorem descendChild_performs {frame frame' : DfsStackFrame} {rest : List DfsStackFrame}
    {cur : StepResult} (hframe : frame'.EnteredFrom frame)
    (hnode : frame.nodeIndex < plan.nodeCount)
    (hord : frame.nextChildOrdinal ≤ plan.childCount frame.nodeIndex) :
    Performs ops (descendChild plan ops frame' rest cur)
      (Outcome plan ops ⟨frame :: rest, cur, false⟩) := by
  unfold descendChild
  rw [hframe.node, hframe.ordinal, plan.counts_read hnode, Exec.ofOption_some,
    Exec.bind_pure_left]
  split
  · exact .pure fun _ _ => .fail hframe
  · next hne =>
      have hmore : frame.nextChildOrdinal < plan.childCount frame.nodeIndex := by omega
      obtain ⟨hoffset, hindex⟩ := plan.childIndex_read hnode hmore
      rw [hoffset, Exec.ofOption_some, Exec.bind_pure_left, hindex, Exec.ofOption_some,
        Exec.bind_pure_left]
      exact .pure fun _ _ => .push hframe hmore

theorem descendFrame_performs {frame frame' : DfsStackFrame} {rest : List DfsStackFrame}
    {cur : StepResult} (hframe : frame'.EnteredFrom frame)
    (hnode : frame.nodeIndex < plan.nodeCount)
    (hord : frame.nextChildOrdinal ≤ plan.childCount frame.nodeIndex) :
    Performs ops (descendFrame plan ops frame' rest cur)
      (Outcome plan ops ⟨frame :: rest, cur, false⟩) := by
  unfold descendFrame
  split
  · apply (prepare_performs _).bind
    intro _
    exact descendChild_performs ⟨hframe.node, hframe.ordinal, hframe.entered⟩ hnode hord
  · exact descendChild_performs hframe hnode hord

/-- The parent goes on to its next child, if there is one. -/
theorem resumeParent_eq {parent : DfsStackFrame} {rest : List DfsStackFrame} {cur : StepResult}
    (hnode : parent.nodeIndex < plan.nodeCount)
    (hgo : (cur.ok || decide (cur.status = .abortBranch)) = true) :
    resumeParent plan cur (parent :: rest) = (pure (.inl
      (if parent.nextChildOrdinal + 1 = plan.childCount parent.nodeIndex then
        ⟨parent.next :: rest, .success, true⟩
      else ⟨parent.next :: rest, cur, false⟩)) : Exec σ (LoopState ⊕ StepResult)) := by
  rw [resumeParent, if_pos hgo]
  show (Exec.ofOption plan.childLayout.counts[parent.nodeIndex]? >>= fun count => _) = _
  rw [plan.counts_read hnode, Exec.ofOption_some, Exec.bind_pure_left, apply_ite Sum.inl,
    apply_ite pure]
  rfl

/-- The reads for a parent are in bounds. -/
theorem resumeParent_performs {finished parent : DfsStackFrame} {rest : List DfsStackFrame}
    {cur : StepResult} (hnode : parent.nodeIndex < plan.nodeCount)
    (hord : parent.nextChildOrdinal < plan.childCount parent.nodeIndex) :
    Performs ops (resumeParent plan cur (parent :: rest))
      (Outcome plan ops ⟨finished :: parent :: rest, cur, true⟩) := by
  by_cases hgo : (cur.ok || decide (cur.status = .abortBranch)) = true
  · rw [resumeParent_eq hnode hgo]
    split
    · next hlast => exact .pure fun _ _ => .last hlast
    · next hmore => exact .pure fun _ _ => .resume (by omega)
  · rw [resumeParent, if_neg hgo]
    exact .pure fun _ _ => .pass

/-! ## §2. The invariant. -/

/-- `frames` are the frames above which the frame of `node` stands: each is
entered and at the child above it, and its later children come from `n` on. -/
def Below (plan : PlanShape) (n : Nat) : Nat → List DfsStackFrame → Prop
  | node, [] => node = 0
  | node, parent :: rest =>
      parent.entered = true
        ∧ parent.nextChildOrdinal < plan.childCount parent.nodeIndex
        ∧ plan.childIndex parent.nodeIndex parent.nextChildOrdinal = node
        ∧ (∀ k, parent.nextChildOrdinal < k → k < plan.childCount parent.nodeIndex →
          n ≤ plan.childIndex parent.nodeIndex k)
        ∧ Below plan n parent.nodeIndex rest

/-- The nodes pushed so far are those before `n`; `entered` are the nodes
entered, the latest first. -/
structure StackInv (plan : PlanShape) (n : Nat) (entered : List Nat) (complete : Bool)
    (top : DfsStackFrame) (rest : List DfsStackFrame) : Prop where
  node : top.nodeIndex < plan.nodeCount
  below : Below plan n top.nodeIndex rest
  ordinal : top.nextChildOrdinal ≤ plan.childCount top.nodeIndex
  next : n ≤ plan.nodeCount
  fresh : top.entered = false → complete = false ∧ n = top.nodeIndex + 1
    ∧ ∀ i ∈ entered, i < top.nodeIndex
  descends : complete = false → ∀ k, top.nextChildOrdinal ≤ k →
    k < plan.childCount top.nodeIndex → n ≤ plan.childIndex top.nodeIndex k
  pushed : ∀ i ∈ entered, i < n
  nodup : entered.Nodup

/-- The node an iteration enters. -/
def LoopState.enters : LoopState → Option Nat
  | ⟨frame :: _, _, false⟩ => if frame.entered then none else some frame.nodeIndex
  | _ => none

/-- A bound on the iterations to come: three for a node that may still be pushed,
two for a frame that is to be left, and one more while the top one descends. -/
def LoopState.work (plan : PlanShape) (n : Nat) (L : LoopState) : Nat :=
  3 * (plan.nodeCount - n) + 2 * L.frames.length + if L.subtreeComplete then 0 else 1

namespace Below

variable {n m node : Nat} {parent : DfsStackFrame} {rest : List DfsStackFrame}

/-- The frames are the node's path. -/
theorem path : ∀ {node : Nat} {frames : List DfsStackFrame}, Below plan n node frames →
    node :: frames.map (·.nodeIndex) = plan.path node
  | node, [], h => by
      obtain rfl : node = 0 := h
      rfl
  | node, parent :: rest, h => by
      obtain ⟨-, hord, hchild, -, hrest⟩ := h
      obtain ⟨-, hparent⟩ := plan.isParent_childIndex hord
      rw [hchild] at hparent
      rw [hparent.path, List.map_cons, hrest.path]

/-- Another node below `c` is pushed. -/
theorem push {c : Nat} (hc : c < plan.nodeCount) : ∀ {node : Nat} {frames : List DfsStackFrame},
    node ∈ plan.path c → Below plan n node frames → Below plan (c + 1) node frames
  | _, [], _, h => h
  | node, parent :: rest, hmem, h => by
      obtain ⟨hentered, hord, hchild, -, hrest⟩ := h
      obtain ⟨hp, hparent⟩ := plan.isParent_childIndex hord
      rw [hchild] at hparent
      have hpath : parent.nodeIndex ∈ plan.path c := by
        have hmem' : parent.nodeIndex ∈ plan.path node := by
          rw [hparent.path]
          exact List.mem_cons_of_mem _ (plan.self_mem_path _)
        exact (plan.path_suffix c hc node hmem).subset hmem'
      -- the later children of a frame come after everything below the one at hand
      refine ⟨hentered, hord, hchild, fun k hk hk' => ?_, push hc hpath hrest⟩
      rw [← hchild] at hmem
      exact plan.below_lt_sibling hc hmem hk hk'

/-- The parent's frame stands on the rest. -/
theorem parent_node (h : Below plan n node (parent :: rest)) :
    parent.nodeIndex < plan.nodeCount :=
  (plan.isParent_childIndex h.2.1).1

end Below

namespace StackInv

variable {n : Nat} {entered : List Nat} {complete : Bool} {top top' : DfsStackFrame}
  {rest : List DfsStackFrame} {cur : StepResult}

/-- An iteration that enters a node enters a new one. -/
theorem enter (h : StackInv plan n entered complete top rest) :
    let entered' := (LoopState.enters ⟨top :: rest, cur, complete⟩).toList ++ entered
    entered'.Nodup ∧ ∀ i ∈ entered', i < n := by
  cases htop : top.entered with
  | true =>
      have hnone : LoopState.enters ⟨top :: rest, cur, complete⟩ = none := by
        cases complete <;> simp [LoopState.enters, htop]
      rw [hnone]
      exact ⟨h.nodup, h.pushed⟩
  | false =>
      obtain ⟨rfl, hn, hbefore⟩ := h.fresh htop
      have hsome : LoopState.enters ⟨top :: rest, cur, false⟩ = some top.nodeIndex := by
        simp [LoopState.enters, htop]
      rw [hsome]
      refine ⟨List.nodup_cons.mpr ⟨fun hmem => ?_, h.nodup⟩, fun i hi => ?_⟩
      · exact Nat.lt_irrefl _ (hbefore _ hmem)
      · rcases List.mem_cons.mp hi with rfl | hi
        · omega
        · exact h.pushed i hi

/-- The frame whose node was entered ends its subtree. -/
theorem finish (h : StackInv plan n entered complete top rest)
    (hframe : top'.EnteredFrom top) :
    StackInv plan n ((LoopState.enters ⟨top :: rest, cur, complete⟩).toList ++ entered) true top'
      rest where
  node := hframe.node ▸ h.node
  below := hframe.node ▸ h.below
  ordinal := by
    rw [hframe.node, hframe.ordinal]
    exact h.ordinal
  next := h.next
  fresh hfresh := by
    rw [hframe.entered] at hfresh
    cases hfresh
  descends := nofun
  pushed := h.enter.2
  nodup := h.enter.1

/-- A child's frame is pushed. -/
theorem push (h : StackInv plan n entered false top rest) (hframe : top'.EnteredFrom top)
    (hmore : top.nextChildOrdinal < plan.childCount top.nodeIndex) :
    let child := plan.childIndex top.nodeIndex top.nextChildOrdinal
    n ≤ child ∧ StackInv plan (child + 1)
      ((LoopState.enters ⟨top :: rest, cur, false⟩).toList ++ entered) false
      (newFrame ops child) (top' :: rest) := by
  intro child
  obtain ⟨hp, hparent⟩ := plan.isParent_childIndex hmore
  have hchild : child < plan.nodeCount := hparent.2.1
  have hn : n ≤ child := h.descends rfl _ (Nat.le_refl _) hmore
  have hmem : top.nodeIndex ∈ plan.path child := by
    rw [hparent.path]
    exact List.mem_cons_of_mem _ (plan.self_mem_path _)
  refine ⟨hn, hchild, ?_, Nat.zero_le _, hchild, fun _ => ⟨rfl, rfl, ?_⟩, ?_, ?_, h.enter.1⟩
  · -- the frame below stays at this child until its subtree is complete
    refine ⟨hframe.entered, ?_, ?_, ?_, ?_⟩
    · rw [hframe.node, hframe.ordinal]
      exact hmore
    · rw [hframe.node, hframe.ordinal]
      rfl
    · rw [hframe.node, hframe.ordinal]
      exact fun k hk hk' => plan.childIndex_lt_of_lt hk hk'
    · rw [hframe.node]
      exact h.below.push hchild hmem
  · exact fun i hi => Nat.lt_of_lt_of_le (h.enter.2 i hi) hn
  · intro _ k _ hk
    exact (plan.isParent_childIndex hk).2.lt
  · intro i hi
    have := h.enter.2 i hi
    omega

/-- The parent's frame comes back on top, at its next child or at the same. -/
theorem leave {parent : DfsStackFrame} (h : StackInv plan n entered true top (parent :: rest)) :
    StackInv plan n entered true parent rest
      ∧ (∀ complete, StackInv plan n entered complete parent.next rest) := by
  obtain ⟨hentered, hord, -, hlater, hrest⟩ := h.below
  have hfresh : ∀ {frame : DfsStackFrame} {complete : Bool}, frame.entered = true →
      frame.entered = false → complete = false ∧ n = frame.nodeIndex + 1
        ∧ ∀ i ∈ entered, i < frame.nodeIndex := by
    intro frame complete htrue hfalse
    rw [htrue] at hfalse
    cases hfalse
  refine ⟨⟨h.below.parent_node, hrest, Nat.le_of_lt hord, h.next, hfresh hentered, nofun,
    h.pushed, h.nodup⟩, fun complete => ⟨h.below.parent_node, hrest, hord, h.next,
    hfresh hentered, fun _ k hk hk' => hlater k hk hk', h.pushed, h.nodup⟩⟩

end StackInv

/-- **An iteration moves**, unless it is the last one or an operation does not
come back. -/
theorem loopStep_performs {n : Nat} {entered : List Nat} {complete : Bool} {top : DfsStackFrame}
    {rest : List DfsStackFrame} {cur : StepResult}
    (h : StackInv plan n entered complete top rest) :
    Performs ops (loopStep plan ops ⟨top :: rest, cur, complete⟩)
      (Outcome plan ops ⟨top :: rest, cur, complete⟩) := by
  unfold loopStep
  cases complete with
  | false =>
      -- the top frame is entered, unless it was, and the loop goes on below it
      dsimp only
      split
      · next hentered => exact descendFrame_performs ⟨rfl, rfl, hentered⟩ h.node h.ordinal
      · apply (enterNode_performs _).bind
        intro result
        split
        · exact .pure fun _ _ => .fail ⟨rfl, rfl, rfl⟩
        · exact descendFrame_performs ⟨rfl, rfl, rfl⟩ h.node h.ordinal
  | true =>
      -- the top frame is left; the loop is over if it was the root's
      have hleave : Performs ops (Exec.modify (leaveFrame ops top)) fun _ => True :=
        .modify fun _ _ => trivial
      apply hleave.bind
      intro _
      cases rest with
      | nil => exact .pure fun _ _ => Nat.le_refl 1
      | cons parent rest =>
          exact resumeParent_performs h.below.parent_node h.below.2.1

/-- **A move keeps the invariant and takes work away.** -/
theorem StackInv.moves {n : Nat} {entered : List Nat} {complete : Bool} {top : DfsStackFrame}
    {rest : List DfsStackFrame} {cur : StepResult} {L' : LoopState}
    (h : StackInv plan n entered complete top rest)
    (hmove : Moves plan ops ⟨top :: rest, cur, complete⟩ L') :
    ∃ n' top' rest', L'.frames = top' :: rest'
      ∧ StackInv plan n' ((LoopState.enters ⟨top :: rest, cur, complete⟩).toList ++ entered)
        L'.subtreeComplete top' rest'
      ∧ L'.work plan n' < LoopState.work plan n ⟨top :: rest, cur, complete⟩ := by
  -- each move completes a subtree, enters the next node or drops a frame
  cases hmove with
  | @fail _ top' _ _ _ hframe =>
      refine ⟨n, top', rest, rfl, h.finish hframe, ?_⟩
      simp only [LoopState.work, List.length_cons, if_true, Bool.false_eq_true, if_false]
      omega
  | @push _ top' _ _ hframe hmore =>
      obtain ⟨hn, hinv⟩ := h.push hframe hmore
      refine ⟨_, _, _, rfl, hinv, ?_⟩
      have hchild := hinv.next
      simp only [LoopState.work, List.length_cons, Bool.false_eq_true, if_false]
      omega
  | @resume _ parent rest _ hmore =>
      refine ⟨n, parent.next, rest, rfl, (h.leave).2 false, ?_⟩
      simp only [LoopState.work, List.length_cons, if_true, Bool.false_eq_true, if_false]
      omega
  | @last _ parent rest _ hlast =>
      refine ⟨n, parent.next, rest, rfl, (h.leave).2 true, ?_⟩
      simp only [LoopState.work, List.length_cons, if_true]
      omega
  | @pass _ parent rest _ =>
      refine ⟨n, parent, rest, rfl, (h.leave).1, ?_⟩
      simp only [LoopState.work, List.length_cons, if_true]
      omega

/-! ## §3. The loop. -/

/-- The loop, started at `s₀`, reaches `L` and `s` after `k` iterations in which
it entered the nodes `entered`, the latest first. -/
inductive LoopReaches (plan : PlanShape) (ops : DfsOps σ) (s₀ : σ) :
    Nat → List Nat → LoopState → σ → Prop where
  | start : LoopReaches plan ops s₀ 0 [] ⟨[newFrame ops 0], .success, false⟩ s₀
  | step {k : Nat} {entered : List Nat} {L L' : LoopState} {s s' : σ}
      (h : LoopReaches plan ops s₀ k entered L s)
      (hstep : loopStep plan ops L s = (.ret (.inl L'), s')) :
      LoopReaches plan ops s₀ (k + 1) (L.enters.toList ++ entered) L' s'

/-- The reads an iteration makes for a frame find their entries. -/
def ReadsInBounds (plan : PlanShape) (frame : DfsStackFrame) : Prop :=
  ∃ count, plan.childLayout.counts[frame.nodeIndex]? = some count
    ∧ frame.nextChildOrdinal ≤ count
    ∧ (frame.nextChildOrdinal < count → ∃ offset child,
      plan.childLayout.offsets[frame.nodeIndex]? = some offset
        ∧ plan.childLayout.indices[offset + frame.nextChildOrdinal]? = some child
        ∧ child < plan.nodeCount)

theorem readsInBounds_of {frame : DfsStackFrame} (hnode : frame.nodeIndex < plan.nodeCount)
    (hord : frame.nextChildOrdinal ≤ plan.childCount frame.nodeIndex) :
    ReadsInBounds plan frame := by
  refine ⟨_, plan.counts_read hnode, hord, fun hmore => ?_⟩
  obtain ⟨hoffset, hindex⟩ := plan.childIndex_read hnode hmore
  exact ⟨_, _, hoffset, hindex, (plan.isParent_childIndex hmore).2.2.1⟩

theorem Below.reads {n : Nat} : ∀ {node : Nat} {frames : List DfsStackFrame},
    Below plan n node frames → ∀ frame ∈ frames, ReadsInBounds plan frame
  | _, parent :: rest, h, frame, hmem => by
      rcases List.mem_cons.mp hmem with rfl | hmem
      · exact readsInBounds_of h.parent_node (Nat.le_of_lt h.2.1)
      · exact Below.reads h.2.2.2.2 frame hmem

/-- **The invariant holds in every reachable state.** -/
theorem LoopReaches.inv {s₀ s : σ} {k : Nat} {entered : List Nat} {L : LoopState}
    (h : LoopReaches plan ops s₀ k entered L s) :
    ∃ n top rest, L.frames = top :: rest ∧ StackInv plan n entered L.subtreeComplete top rest
      ∧ k + L.work plan n ≤ 3 * plan.nodeCount := by
  induction h with
  | start =>
      have hpos := plan.nodeCount_pos
      refine ⟨1, newFrame ops 0, [], rfl, ?_, ?_⟩
      · exact {
          node := hpos
          below := rfl
          ordinal := Nat.zero_le _
          next := hpos
          fresh := fun _ => ⟨rfl, rfl, fun _ h => absurd h List.not_mem_nil⟩
          descends := fun _ k _ hk => (plan.isParent_childIndex hk).2.1
          pushed := fun _ h => absurd h List.not_mem_nil
          nodup := List.nodup_nil }
      · simp only [LoopState.work, List.length_cons, List.length_nil, Bool.false_eq_true, if_false]
        omega
  | @step k entered L L' s s' h hstep ih =>
      obtain ⟨n, top, rest, hframes, hinv, hwork⟩ := ih
      obtain ⟨frames, cur, complete⟩ := L
      obtain rfl : frames = top :: rest := hframes
      have hperforms : Performs ops (loopStep plan ops ⟨top :: rest, cur, complete⟩) _ :=
        loopStep_performs hinv
      have hmove := hperforms.ends (s := s) trivial
      rw [hstep] at hmove
      obtain ⟨n', top', rest', hframes', hinv', hless⟩ := hinv.moves hmove
      have hless' : L'.work plan n' < LoopState.work plan n ⟨top :: rest, cur, complete⟩ := hless
      exact ⟨n', top', rest', hframes', hinv', by omega⟩

/-- With enough iterations left, the loop does not come back only if an
operation does not. -/
theorem LoopReaches.halted {s₀ : σ} : ∀ {fuel k : Nat} {entered : List Nat} {L : LoopState}
    {s : σ}, LoopReaches plan ops s₀ k entered L s → 3 * plan.nodeCount ≤ k + fuel →
      (Exec.iterate (loopStep plan ops) fuel L s).1 = .halted → OpHalts ops := by
  intro fuel
  induction fuel with
  | zero =>
      -- the bound on the work leaves no room for a state without iterations to come
      intro k entered L s h hfuel _
      obtain ⟨n, top, rest, hframes, -, hwork⟩ := h.inv
      rw [LoopState.work, hframes, List.length_cons] at hwork
      omega
  | succ fuel ih =>
      intro k entered L s h hfuel hhalted
      obtain ⟨n, top, rest, hframes, hinv, -⟩ := h.inv
      have hperforms : Performs ops
          (loopStep plan ops ⟨top :: rest, L.currentStep, L.subtreeComplete⟩) _ :=
        loopStep_performs hinv
      have hends := hperforms.ends (s := s) trivial
      rw [← hframes] at hends
      rw [Exec.iterate_succ, Exec.bind_run] at hhalted
      generalize hstep : loopStep plan ops L s = result at hends hhalted
      rcases result with ⟨⟨L' | step⟩ | _ | _, s'⟩
      · exact ih (.step h hstep) (by omega) hhalted
      · cases hhalted
      · cases hhalted
      · exact hends

/-- **The heap-stack loop is bounded.**  For every compiled plan, whatever the
node operations do, in every state the loop reaches: it has made fewer than three
iterations a node; its frames are the path of a node, the node's own last pushed;
there are at most `max_level + 1` of them, so that `frames` never outgrows what
it reserves; the reads for each frame are in bounds; and no node is entered
twice, counting the one the next iteration enters.  Three iterations a node are
enough for the whole loop, which does not come back only if an operation does
not. -/
theorem heapStack_bounded (plan : PlanShape) (ops : DfsOps σ) (s₀ : σ) :
    (∀ k entered L s, LoopReaches plan ops s₀ k entered L s →
      k < 3 * plan.nodeCount
        ∧ (∃ i < plan.nodeCount, L.frames.map (·.nodeIndex) = plan.path i)
        ∧ L.frames.length ≤ plan.maxLevel + 1
        ∧ (∀ frame ∈ L.frames, ReadsInBounds plan frame)
        ∧ (L.enters.toList ++ entered).Nodup)
    ∧ ∀ fuel, 3 * plan.nodeCount ≤ fuel →
      runExplicitHeapStackLoop plan ops fuel s₀ = runExplicitHeapStack plan ops s₀
        ∧ ((runExplicitHeapStackLoop plan ops fuel s₀).1 = .halted → OpHalts ops) := by
  constructor
  · intro k entered L s h
    obtain ⟨n, top, rest, hframes, hinv, hwork⟩ := h.inv
    have hpath : L.frames.map (·.nodeIndex) = plan.path top.nodeIndex := by
      rw [hframes, List.map_cons, hinv.below.path]
    refine ⟨?_, ⟨top.nodeIndex, hinv.node, hpath⟩, ?_, ?_, ?_⟩
    · rw [LoopState.work, hframes, List.length_cons] at hwork
      omega
    · -- a path has one node for each level down to its own
      have hlength := congrArg List.length hpath
      rw [List.length_map, plan.length_path _ hinv.node] at hlength
      have := plan.level_le_maxLevel hinv.node
      omega
    · intro frame hmem
      rw [hframes] at hmem
      rcases List.mem_cons.mp hmem with rfl | hmem
      · exact readsInBounds_of hinv.node hinv.ordinal
      · exact hinv.below.reads frame hmem
    · obtain ⟨frames, cur, complete⟩ := L
      obtain rfl : frames = top :: rest := hframes
      exact hinv.enter.1
  · intro fuel hfuel
    constructor
    · rw [runExplicitHeapStack_eq_dfs, ← runExplicitHeapStackLoop_eq_dfs plan ops
        (fuel - 3 * plan.nodeCount), Nat.add_sub_cancel' hfuel]
    · exact LoopReaches.halted .start (by omega)

end YOrch
