/-
  YOrch.Executor.SerialDfs — the two executors and the traversal both perform.

  The recursive executor (`runNode`, `runChildren`) keeps its state in C++
  stack frames and scope guards; the explicit-heap-stack executor
  (`loopStep`, iterated) keeps it in a vector of frames and two loop variables.
  Both are written here over `DfsOps`, the four node operations they dispatch
  to, and both are shown to perform one and the same structural recursion over
  the compiled tree, `dfsNode`/`dfsChildren`:

    • `runNode_eq_dfs` — the recursive executor, which unwinds on exceptions,
    • `runExplicitHeapStack_eq_dfs` — the loop, which does not, within `3 * N`
      iterations.

  On operations that do not throw, the two therefore return the same result and
  perform the same events in the same order (`YOrch.Executor.Traversal`).
-/
import YOrch.Library.Exec
import YOrch.Plan.Shape
import YOrch.Result

namespace YOrch

open Library

/-! ## §1. Node operations. -/

/-- `node_enter_result`, with the guarantee `enter_node` gives: a payload is
live only after a successful step. -/
structure NodeEnterResult where
  step : StepResult := .success
  payloadLive : Bool := false
  live_ok : payloadLive = true → step.ok = true
  deriving DecidableEq

namespace NodeEnterResult

def succeeded (payloadLive : Bool) : NodeEnterResult where
  payloadLive := payloadLive
  live_ok _ := StepResult.ok_success

def unsuccessful (step : StepResult) : NodeEnterResult where
  step := step
  payloadLive := false
  live_ok := nofun

@[simp] theorem succeeded_ok (payloadLive : Bool) : (succeeded payloadLive).step.ok = true := rfl
@[simp] theorem succeeded_payloadLive (payloadLive : Bool) :
    (succeeded payloadLive).payloadLive = payloadLive := rfl
@[simp] theorem unsuccessful_step (step : StepResult) : (unsuccessful step).step = step := rfl

end NodeEnterResult

/-- What the executors do at a node.  `requiresStaging` is
`parent_requires_fanout_staging_v`; the two staging operations are the bodies
run where it holds. -/
structure DfsOps (σ : Type) where
  enterNode : Nat → Exec σ NodeEnterResult
  destroyPayload : Nat → σ → σ
  requiresStaging : Nat → Bool
  stage : Nat → Exec σ Unit
  unstage : Nat → σ → σ

namespace DfsOps

variable {σ : Type} (ops : DfsOps σ)

/-- `prepare_fanout_staging<I>`: nothing happens at other parents. -/
def prepareFanoutStaging (i : Nat) : Exec σ Unit :=
  if ops.requiresStaging i then ops.stage i else pure ()

/-- `destroy_fanout_staging<I>`. -/
def destroyFanoutStaging (i : Nat) (s : σ) : σ :=
  bif ops.requiresStaging i then ops.unstage i s else s

end DfsOps

/-! ## §2. The recursive executor. -/

theorem PlanShape.childIndex_lt (plan : PlanShape) {i ord : Nat}
    (ho : ord < plan.childCount i) :
    i < plan.nodeCount ∧ i < plan.childIndex i ord ∧ plan.childIndex i ord < plan.nodeCount := by
  have hi : i < plan.nodeCount := by
    rcases Nat.lt_or_ge i plan.nodeCount with h | h
    · exact h
    · obtain ⟨indices, hl, -⟩ := plan.childLayout_spec
      have : plan.childCount i = 0 := by
        simp [childCount, hl, List.getD_eq_getElem?_getD, h]
      omega
  have hmem : plan.childIndex i ord ∈ plan.children i :=
    List.mem_map.mpr ⟨ord, List.mem_range.mpr ho, rfl⟩
  have hp := (plan.mem_children hi).mp hmem
  exact ⟨hi, hp.lt, hp.2.1⟩

section Recursive

variable {σ : Type} (plan : PlanShape) (ops : DfsOps σ)

mutual

/-- `run_node<I>`. -/
def runNode (i : Nat) : Exec σ StepResult := do
  let entered ← ops.enterNode i
  if !entered.step.ok then
    pure entered.step
  else
    Exec.guarded entered.payloadLive (ops.destroyPayload i)
      (runChildren i 0 (Nat.zero_le _))
termination_by (plan.nodeCount - i, 1, 0)

/-- `run_children<I, Ord>`.  The fanout guard is armed after the staging. -/
def runChildren (i ord : Nat) (hord : ord ≤ plan.childCount i) : Exec σ StepResult := do
  if ord = 0 then
    ops.prepareFanoutStaging i
  Exec.guarded (ord == 0) (ops.destroyFanoutStaging i) (
    if h : ord = plan.childCount i then
      pure .success
    else do
      let childStep ← runNode (plan.childIndex i ord)
      if childStep.status = .abortBranch then
        runChildren i (ord + 1) (by omega)
      else if !childStep.ok then
        pure childStep
      else
        runChildren i (ord + 1) (by omega))
termination_by (plan.nodeCount - i, 0, plan.childCount i - ord)
decreasing_by
  · have := plan.childIndex_lt (show ord < plan.childCount i by omega)
    left
    omega
  all_goals
    right
    omega

end

end Recursive

/-! ## §3. The explicit-heap-stack executor. -/

/-- `dfs_stack_frame`. -/
structure DfsStackFrame where
  nodeIndex : Nat := 0
  nextChildOrdinal : Nat := 0
  entered : Bool := false
  payloadLive : Bool := false
  requiresFanoutStaging : Bool := false
  fanoutPrepared : Bool := false
  deriving Repr, DecidableEq

/-- The loop's variables.  `frames` has `frames.back()` first. -/
structure LoopState where
  frames : List DfsStackFrame
  currentStep : StepResult := .success
  subtreeComplete : Bool := false
  deriving Repr, DecidableEq

section Loop

variable {σ : Type} (plan : PlanShape) (ops : DfsOps σ)

/-- The frame pushed for a node. -/
def newFrame (i : Nat) : DfsStackFrame :=
  { nodeIndex := i, requiresFanoutStaging := ops.requiresStaging i }

/-- Push the next child's frame, or finish the subtree if there is none. -/
def descendChild (frame : DfsStackFrame) (rest : List DfsStackFrame)
    (currentStep : StepResult) : Exec σ (LoopState ⊕ StepResult) := do
  let count ← Exec.ofOption plan.childLayout.counts[frame.nodeIndex]?
  if frame.nextChildOrdinal = count then
    pure (.inl ⟨frame :: rest, .success, true⟩)
  else
    let offset ← Exec.ofOption plan.childLayout.offsets[frame.nodeIndex]?
    let child ← Exec.ofOption plan.childLayout.indices[offset + frame.nextChildOrdinal]?
    pure (.inl ⟨newFrame ops child :: frame :: rest, currentStep, false⟩)

/-- Stage the fanout of an entered frame once, then descend. -/
def descendFrame (frame : DfsStackFrame) (rest : List DfsStackFrame)
    (currentStep : StepResult) : Exec σ (LoopState ⊕ StepResult) := do
  if frame.requiresFanoutStaging && !frame.fanoutPrepared then
    ops.prepareFanoutStaging frame.nodeIndex
    descendChild plan ops { frame with fanoutPrepared := true } rest currentStep
  else
    descendChild plan ops frame rest currentStep

/-- What leaving a frame destroys. -/
def leaveFrame (finished : DfsStackFrame) (s : σ) : σ :=
  let s := bif finished.requiresFanoutStaging && finished.fanoutPrepared then
    ops.destroyFanoutStaging finished.nodeIndex s else s
  bif finished.payloadLive then ops.destroyPayload finished.nodeIndex s else s

/-- Hand a finished subtree's result to the parent frame. -/
def resumeParent (currentStep : StepResult) :
    List DfsStackFrame → Exec σ (LoopState ⊕ StepResult)
  | [] => pure (.inr currentStep)
  | parent :: rest =>
      if currentStep.ok || currentStep.status = .abortBranch then do
        let parent := { parent with nextChildOrdinal := parent.nextChildOrdinal + 1 }
        let count ← Exec.ofOption plan.childLayout.counts[parent.nodeIndex]?
        if parent.nextChildOrdinal = count then
          pure (.inl ⟨parent :: rest, .success, true⟩)
        else
          pure (.inl ⟨parent :: rest, currentStep, false⟩)
      else
        pure (.inl ⟨parent :: rest, currentStep, true⟩)

/-- One iteration of `while (!frames.empty())`. -/
def loopStep : LoopState → Exec σ (LoopState ⊕ StepResult)
  | ⟨[], currentStep, _⟩ => pure (.inr currentStep)
  | ⟨frame :: rest, currentStep, false⟩ =>
      if frame.entered then
        descendFrame plan ops frame rest currentStep
      else do
        let entered ← ops.enterNode frame.nodeIndex
        let frame := { frame with entered := true, payloadLive := entered.payloadLive }
        if !entered.step.ok then
          pure (.inl ⟨frame :: rest, entered.step, true⟩)
        else
          descendFrame plan ops frame rest currentStep
  | ⟨finished :: rest, currentStep, true⟩ => do
      Exec.modify (leaveFrame ops finished)
      resumeParent plan currentStep rest

/-- `run_explicit_heap_stack_loop`, up to a number of iterations. -/
def runExplicitHeapStackLoop (fuel : Nat) : Exec σ StepResult :=
  Exec.iterate (loopStep plan ops) fuel ⟨[newFrame ops 0], .success, false⟩

end Loop

/-! ## §4. The traversal. -/

section Traversal

variable {σ : Type} (unwind : Bool) (ops : DfsOps σ)

/-- Visit a node, given the traversal of its children.  `unwind` says whether an
exception runs the cleanups on its way. -/
def dfsNode (i : Nat) (children : Exec σ StepResult) : Exec σ StepResult := do
  let entered ← ops.enterNode i
  if entered.step.ok then
    Exec.onExit unwind
      (fun s => bif entered.payloadLive then ops.destroyPayload i s else s) do
        ops.prepareFanoutStaging i
        Exec.onExit unwind (ops.destroyFanoutStaging i) children
  else
    pure entered.step

/-- Visit the trees of a forest until one of them stops the run. -/
def dfsChildren : Forest Nat → Exec σ StepResult
  | .nil => pure .success
  | .cons i below rest => do
      let step ← dfsNode unwind ops i (dfsChildren below)
      if step.Stops then pure step else dfsChildren rest

end Traversal

/-! ## §5. The recursive executor performs the traversal. -/

section RecursiveEq

variable {σ : Type} {plan : PlanShape} {ops : DfsOps σ}

theorem PlanShape.length_children (plan : PlanShape) (i : Nat) :
    (plan.children i).length = plan.childCount i := by
  simp [PlanShape.children]

/-- The next child is the head of the remaining ones. -/
theorem PlanShape.roots_eq_cons {f : Forest Nat} {i ord a : Nat} {c s : Forest Nat}
    (hf : f = .cons a c s) (hroots : f.roots = (plan.children i).drop ord) :
    ord < plan.childCount i ∧ plan.childIndex i ord = a ∧
      s.roots = (plan.children i).drop (ord + 1) := by
  subst hf
  have hlt : ord < (plan.children i).length := by
    by_contra h
    rw [List.drop_eq_nil_of_le (Nat.not_lt.mp h)] at hroots
    cases hroots
  rw [List.drop_eq_getElem_cons hlt, Forest.roots_cons, List.cons.injEq] at hroots
  refine ⟨by rwa [plan.length_children] at hlt, ?_, hroots.2⟩
  rw [hroots.1]
  simp [PlanShape.children]

theorem PlanShape.roots_eq_nil {i ord : Nat} (hord : ord ≤ plan.childCount i)
    (hroots : (Forest.nil : Forest Nat).roots = (plan.children i).drop ord) :
    ord = plan.childCount i := by
  have := List.drop_eq_nil_iff.mp hroots.symm
  rw [plan.length_children] at this
  omega

/-- A node whose children are performed by `run_children<I, 0>`. -/
theorem runNode_eq_of_children {i : Nat} {x : Exec σ StepResult}
    (h : runChildren plan ops i 0 (Nat.zero_le _) = do
      ops.prepareFanoutStaging i
      Exec.onExit true (ops.destroyFanoutStaging i) x) :
    runNode plan ops i = dfsNode true ops i x := by
  rw [runNode, dfsNode, h]
  congr 1
  funext entered
  cases hok : entered.step.ok <;> simp [Exec.guarded]

/-- From child `ord` on, `run_children` visits the remaining trees; the first
call also stages the fanout and owns its cleanup. -/
theorem runChildren_eq (f : Forest Nat) :
    ∀ {i ord : Nat} (hord : ord ≤ plan.childCount i), Forest.Spanned plan.children f →
      f.roots = (plan.children i).drop ord →
      runChildren plan ops i ord hord = (do
        if ord = 0 then ops.prepareFanoutStaging i
        Exec.guarded (ord == 0) (ops.destroyFanoutStaging i) (dfsChildren true ops f)) := by
  induction f with
  | nil =>
      intro i ord hord _ hroots
      rw [runChildren, dif_pos (plan.roots_eq_nil hord hroots), dfsChildren]
  | cons a c s ihc ihs =>
      intro i ord hord hspan hroots
      obtain ⟨ha, hc, hs⟩ := hspan
      obtain ⟨hlt, hchild, hroots'⟩ := plan.roots_eq_cons rfl hroots
      -- the call for the child performs its subtree
      have hnode : runNode plan ops a = dfsNode true ops a (dfsChildren true ops c) := by
        apply runNode_eq_of_children
        rw [ihc (Nat.zero_le _) hc (by rw [List.drop_zero, ha])]
        rfl
      -- the tail call continues without a guard of its own
      have htail : ∀ h, runChildren plan ops i (ord + 1) h = dfsChildren true ops s := by
        intro h
        rw [ihs h hs hroots']
        simp
      rw [runChildren, dif_neg (Nat.ne_of_lt hlt), hchild, hnode]
      simp only [htail]
      have hbody : (do
            let childStep ← dfsNode true ops a (dfsChildren true ops c)
            if childStep.status = .abortBranch then dfsChildren true ops s
            else if !childStep.ok then pure childStep
            else dfsChildren true ops s)
          = dfsChildren true ops (.cons a c s) := by
        rw [dfsChildren]
        congr 1
        funext step
        rcases step with ⟨_ | _ | _ | _ | _⟩ <;> rfl
      rw [hbody]

/-- **The recursive executor performs the traversal.** -/
theorem runNode_eq_dfs {i : Nat} {below : Forest Nat} (hspan : Forest.Spanned plan.children below)
    (hroots : plan.children i = below.roots) :
    runNode plan ops i = dfsNode true ops i (dfsChildren true ops below) := by
  apply runNode_eq_of_children
  rw [runChildren_eq below (Nat.zero_le _) hspan (by rw [List.drop_zero, hroots])]
  rfl

end RecursiveEq

/-! ## §6. The loop performs the traversal. -/

section LoopEq

variable {σ : Type} {plan : PlanShape} {ops : DfsOps σ}

/-- How the loop goes on after an iteration. -/
def continueLoop (plan : PlanShape) (ops : DfsOps σ) (fuel : Nat) :
    LoopState ⊕ StepResult → Exec σ StepResult :=
  Sum.elim (Exec.iterate (loopStep plan ops) fuel) pure

/-- The frame of a node that was just entered. -/
def enteredFrame (ops : DfsOps σ) (i : Nat) (live : Bool) : DfsStackFrame :=
  ⟨i, 0, true, live, ops.requiresStaging i, false⟩

/-- The frame of a node whose fanout is staged and whose children before `ord`
are done. -/
def readyFrame (ops : DfsOps σ) (i : Nat) (live : Bool) (ord : Nat) : DfsStackFrame :=
  ⟨i, ord, true, live, ops.requiresStaging i, ops.requiresStaging i⟩

/-- The next child's frame is pushed, if there is one. -/
theorem descendChild_eq {i ord : Nat} {live : Bool} {rest : List DfsStackFrame}
    {cur : StepResult} (hi : i < plan.nodeCount) (hord : ord ≤ plan.childCount i) :
    descendChild plan ops (readyFrame ops i live ord) rest cur = pure (.inl
      (if ord = plan.childCount i then ⟨readyFrame ops i live ord :: rest, .success, true⟩
        else ⟨newFrame ops (plan.childIndex i ord) :: readyFrame ops i live ord :: rest,
          cur, false⟩)) := by
  by_cases h : ord = plan.childCount i
  · simp [descendChild, readyFrame, plan.counts_read hi, Exec.bind_pure_left, h]
  · obtain ⟨hoff, hidx⟩ := plan.childIndex_read hi (show ord < plan.childCount i by omega)
    simp [descendChild, readyFrame, plan.counts_read hi, Exec.bind_pure_left, h, hoff, hidx]

/-- A frame that is ready comes back to its remaining children. -/
theorem descendFrame_ready (i ord : Nat) (live : Bool) (rest : List DfsStackFrame)
    (cur : StepResult) :
    descendFrame plan ops (readyFrame ops i live ord) rest cur
      = descendChild plan ops (readyFrame ops i live ord) rest cur := by
  rw [descendFrame, if_neg (by simp [readyFrame])]

/-- Staging makes a newly entered frame ready. -/
theorem descendFrame_entered (i : Nat) (live : Bool) (rest : List DfsStackFrame)
    (cur : StepResult) :
    descendFrame plan ops (enteredFrame ops i live) rest cur
      = ops.prepareFanoutStaging i >>= fun _ =>
        descendChild plan ops (readyFrame ops i live 0) rest cur := by
  cases h : ops.requiresStaging i with
  | false => simp [descendFrame, enteredFrame, readyFrame, DfsOps.prepareFanoutStaging, h,
      Exec.bind_pure_left]
  | true => simp [descendFrame, enteredFrame, readyFrame, h]

/-- Leaving a ready frame runs the two cleanups the scope guards run. -/
theorem leaveFrame_ready (i ord : Nat) (live : Bool) (s : σ) :
    leaveFrame ops (readyFrame ops i live ord) s
      = bif live then ops.destroyPayload i (ops.destroyFanoutStaging i s)
        else ops.destroyFanoutStaging i s := by
  cases h : ops.requiresStaging i <;>
    simp [leaveFrame, readyFrame, h, DfsOps.destroyFanoutStaging]

/-- Leaving a frame whose node did not succeed destroys nothing. -/
theorem leaveFrame_entered (i : Nat) (s : σ) :
    leaveFrame ops (enteredFrame ops i false) s = s := by
  simp [leaveFrame, enteredFrame]

/-- What the children of a ready frame have to show: the loop performs their
traversal and comes back to the frame with the result. -/
def LoopsChildren (plan : PlanShape) (ops : DfsOps σ) (f : Forest Nat) : Prop :=
  ∀ (i ord : Nat) (live : Bool) (rest : List DfsStackFrame) (cur : StepResult),
    i < plan.nodeCount → ord ≤ plan.childCount i → Forest.Spanned plan.children f →
    f.roots = (plan.children i).drop ord →
    ∀ s, ∃ n ≤ 3 * f.size, ∃ ord', ∀ m,
      (descendChild plan ops (readyFrame ops i live ord) rest cur
          >>= continueLoop plan ops (n + m)) s
        = (dfsChildren false ops f >>= fun step => Exec.iterate (loopStep plan ops) m
            ⟨readyFrame ops i live ord' :: rest, step, true⟩) s

/-- The iteration that enters a node. -/
theorem iterate_enter (k i : Nat) (parents : List DfsStackFrame) (cur : StepResult) :
    Exec.iterate (loopStep plan ops) (k + 1) ⟨newFrame ops i :: parents, cur, false⟩
      = ops.enterNode i >>= fun entered =>
        (if !entered.step.ok then
          pure (.inl ⟨enteredFrame ops i entered.payloadLive :: parents, entered.step, true⟩)
        else
          descendFrame plan ops (enteredFrame ops i entered.payloadLive) parents cur)
        >>= continueLoop plan ops k := by
  rw [Exec.iterate_succ, loopStep, if_neg (by simp [newFrame]), Exec.bind_assoc]
  rfl

/-- The iteration that leaves a frame. -/
theorem iterate_leave (k : Nat) (frame : DfsStackFrame) (parents : List DfsStackFrame)
    (step : StepResult) :
    Exec.iterate (loopStep plan ops) (k + 1) ⟨frame :: parents, step, true⟩
      = Exec.modify (leaveFrame ops frame) >>= fun _ =>
        resumeParent plan step parents >>= continueLoop plan ops k := by
  rw [Exec.iterate_succ, loopStep, Exec.bind_assoc]
  rfl

/-- From a fresh frame to the parent's turn: the loop performs the node's
traversal. -/
theorem loop_node {i : Nat} {below : Forest Nat} (hloop : LoopsChildren plan ops below)
    (hi : i < plan.nodeCount) (hspan : Forest.Spanned plan.children below)
    (hroots : plan.children i = below.roots) (parents : List DfsStackFrame) (cur : StepResult)
    (s : σ) :
    ∃ n ≤ 3 * below.size + 2, ∀ m,
      Exec.iterate (loopStep plan ops) (n + m) ⟨newFrame ops i :: parents, cur, false⟩ s
        = (dfsNode false ops i (dfsChildren false ops below) >>= fun step =>
            resumeParent plan step parents >>= continueLoop plan ops m) s := by
  simp only [dfsNode, Exec.bind_assoc]
  rcases henter : ops.enterNode i s with ⟨⟨step, live, hlive⟩ | _ | _, s₁⟩
  case thrown =>
    refine ⟨1, by omega, fun m => ?_⟩
    rw [Nat.add_comm, iterate_enter, Exec.bind_thrown henter, Exec.bind_thrown henter]
  case halted =>
    refine ⟨1, by omega, fun m => ?_⟩
    rw [Nat.add_comm, iterate_enter, Exec.bind_halted henter, Exec.bind_halted henter]
  case ret =>
    simp only [Exec.bind_ret henter]
    cases hok : step.ok with
    | false =>
        -- the node leaves again at once, with nothing to destroy
        have hdead : live = false := by
          cases live with
          | false => rfl
          | true => exact absurd (hlive rfl) (by simp [hok])
        subst hdead
        refine ⟨2, by omega, fun m => ?_⟩
        rw [show 2 + m = m + 1 + 1 by omega, iterate_enter, Exec.bind_ret henter,
          if_pos (by simp [hok]), if_neg (by simp), Exec.bind_pure_left, Exec.bind_pure_left]
        show Exec.iterate (loopStep plan ops) (m + 1) _ s₁ = _
        rw [iterate_leave, Exec.bind_ret (Exec.modify_run _ _), leaveFrame_entered]
    | true =>
        have hrest : ∀ k, Exec.iterate (loopStep plan ops) (k + 1)
            ⟨newFrame ops i :: parents, cur, false⟩ s
              = (ops.prepareFanoutStaging i >>= fun _ =>
                  descendChild plan ops (readyFrame ops i live 0) parents cur
                    >>= continueLoop plan ops k) s₁ := by
          intro k
          rw [iterate_enter, Exec.bind_ret henter, if_neg (by simp [hok]),
            descendFrame_entered, Exec.bind_assoc]
        simp only [if_true, Exec.onExit_false, Exec.bind_assoc, Exec.bind_pure_left]
        rcases hprep : ops.prepareFanoutStaging i s₁ with ⟨_ | _ | _, s₂⟩
        case thrown =>
          refine ⟨1, by omega, fun m => ?_⟩
          rw [Nat.add_comm, hrest, Exec.bind_thrown hprep, Exec.bind_thrown hprep]
        case halted =>
          refine ⟨1, by omega, fun m => ?_⟩
          rw [Nat.add_comm, hrest, Exec.bind_halted hprep, Exec.bind_halted hprep]
        case ret =>
          obtain ⟨n, hn, ord, hrun⟩ := hloop i 0 live parents cur hi (Nat.zero_le _) hspan
            (by rw [List.drop_zero, hroots]) s₂
          refine ⟨n + 2, by omega, fun m => ?_⟩
          rw [show n + 2 + m = n + (m + 1) + 1 by omega, hrest, Exec.bind_ret hprep,
            Exec.bind_ret hprep, hrun]
          refine congrFun (congrArg (_ >>= ·) (funext fun result => funext fun s₃ => ?_)) s₂
          rw [iterate_leave, Exec.bind_ret (Exec.modify_run _ _),
            Exec.bind_ret (Exec.modify_run _ _), Exec.bind_ret (Exec.modify_run _ _),
            leaveFrame_ready]

theorem loop_children : ∀ f : Forest Nat, LoopsChildren plan ops f
  | .nil => by
      intro i ord live rest cur hi hord _ hroots s
      refine ⟨0, Nat.zero_le _, ord, fun m => ?_⟩
      rw [descendChild_eq hi hord, if_pos (plan.roots_eq_nil hord hroots),
        dfsChildren, Exec.bind_pure_left, Exec.bind_pure_left, Nat.zero_add]
      rfl
  | .cons a c l => by
      intro i ord live rest cur hi hord hspan hroots s
      obtain ⟨ha, hc, hl⟩ := hspan
      obtain ⟨hlt, hchild, hroots'⟩ := plan.roots_eq_cons rfl hroots
      have han : a < plan.nodeCount := hchild ▸ (plan.childIndex_lt hlt).2.2
      have hpush : ∀ k, descendChild plan ops (readyFrame ops i live ord) rest cur
            >>= continueLoop plan ops k
          = Exec.iterate (loopStep plan ops) k
              ⟨newFrame ops a :: readyFrame ops i live ord :: rest, cur, false⟩ := by
        intro k
        rw [descendChild_eq hi hord, if_neg (Nat.ne_of_lt hlt), hchild, Exec.bind_pure_left]
        rfl
      obtain ⟨n, hn, hnode⟩ := loop_node (loop_children c) han hc ha
        (readyFrame ops i live ord :: rest) cur s
      simp only [hpush, dfsChildren, Exec.bind_assoc, Forest.size]
      rcases hrun : dfsNode false ops a (dfsChildren false ops c) s with ⟨step | _ | _, s₁⟩
      case thrown =>
        refine ⟨n, by omega, ord, fun m => ?_⟩
        rw [hnode, Exec.bind_thrown hrun, Exec.bind_thrown hrun]
      case halted =>
        refine ⟨n, by omega, ord, fun m => ?_⟩
        rw [hnode, Exec.bind_halted hrun, Exec.bind_halted hrun]
      case ret =>
        have hnode : ∀ m, Exec.iterate (loopStep plan ops) (n + m)
            ⟨newFrame ops a :: readyFrame ops i live ord :: rest, cur, false⟩ s
              = (resumeParent plan step (readyFrame ops i live ord :: rest)
                  >>= continueLoop plan ops m) s₁ := by
          intro m
          rw [hnode, Exec.bind_ret hrun]
        simp only [Exec.bind_ret hrun]
        by_cases hstop : step.Stops
        · -- the result goes on up without another sibling
          refine ⟨n, by omega, ord, fun m => ?_⟩
          have hnot : ¬ (step.ok || decide (step.status = .abortBranch)) = true := by
            rcases step with ⟨_ | _ | _ | _ | _⟩ <;> simp_all [StepResult.Stops, StepResult.ok]
          rw [hnode, resumeParent, if_neg hnot, if_pos hstop, Exec.bind_pure_left,
            Exec.bind_pure_left]
          rfl
        · have hgo : (step.ok || decide (step.status = .abortBranch)) = true := by
            rcases step with ⟨_ | _ | _ | _ | _⟩ <;> simp_all [StepResult.Stops, StepResult.ok]
          have hresume : resumeParent plan step (readyFrame ops i live ord :: rest)
              = (pure (.inl (if ord + 1 = plan.childCount i then
                  ⟨readyFrame ops i live (ord + 1) :: rest, .success, true⟩
                else ⟨readyFrame ops i live (ord + 1) :: rest, step, false⟩)) :
                  Exec σ (LoopState ⊕ StepResult)) := by
            rw [resumeParent, if_pos hgo]
            show (Exec.ofOption plan.childLayout.counts[i]? >>= fun count => _) = _
            rw [plan.counts_read hi, Exec.ofOption_some, Exec.bind_pure_left, apply_ite Sum.inl,
              apply_ite pure]
            rfl
          rw [if_neg hstop]
          by_cases hlast : ord + 1 = plan.childCount i
          · -- no sibling is left
            have hnil : l = .nil := by
              rw [List.drop_eq_nil_of_le (by rw [plan.length_children]; omega)] at hroots'
              cases l with
              | nil => rfl
              | cons _ _ _ => cases hroots'
            refine ⟨n, by omega, ord + 1, fun m => ?_⟩
            rw [hnode, hresume, if_pos hlast, hnil, dfsChildren, Exec.bind_pure_left,
              Exec.bind_pure_left]
            rfl
          · obtain ⟨n', hn', ord', hrest⟩ := loop_children l i (ord + 1) live rest step hi
              (by omega) hl hroots' s₁
            refine ⟨n + (n' + 1), by omega, ord', fun m => ?_⟩
            rw [Nat.add_assoc, hnode, hresume, if_neg hlast, Exec.bind_pure_left, ← hrest]
            show Exec.iterate (loopStep plan ops) (n' + 1 + m) _ s₁ = _
            rw [show n' + 1 + m = n' + m + 1 by omega, Exec.iterate_succ, loopStep,
              if_pos (by simp [readyFrame]), descendFrame_ready]
            rfl

end LoopEq

/-! ## §7. Both executors at the root. -/

namespace PlanShape

variable (plan : PlanShape)

/-- The trees below the root. -/
def below : Forest Nat :=
  match plan.tree with
  | .nil => .nil
  | .cons _ below _ => below

theorem tree_eq : plan.tree = .cons 0 plan.below .nil := by
  obtain ⟨-, -, -, -, below, h⟩ := plan.tree_spec
  rw [PlanShape.below, h]

theorem below_spanned :
    plan.children 0 = plan.below.roots ∧ Forest.Spanned plan.children plan.below := by
  obtain ⟨-, -, -, h, -⟩ := plan.tree_spec
  rw [plan.tree_eq] at h
  exact ⟨h.1, h.2.1⟩

theorem below_parented : Forest.Parented plan.parentIndex 0 plan.below := by
  obtain ⟨-, -, h, -, -⟩ := plan.tree_spec
  rw [plan.tree_eq] at h
  exact h.2.1

theorem range_eq : List.range plan.nodeCount = 0 :: plan.below.preorder := by
  obtain ⟨h, -⟩ := plan.tree_spec
  rw [← h, plan.tree_eq, Forest.preorder_cons, Forest.preorder_nil, List.append_nil]

theorem below_size : plan.below.size + 1 = plan.nodeCount := by
  have := congrArg List.length plan.range_eq
  rw [List.length_range, List.length_cons, Forest.preorder_length] at this
  omega

/-- The nodes below the root are the indices from one on. -/
theorem below_eq_range : plan.below.preorder = List.range' 1 plan.below.size := by
  have hrange := plan.range_eq
  rw [List.range_eq_range', ← plan.below_size, List.range'_succ, List.cons.injEq] at hrange
  exact hrange.2.symm

end PlanShape

variable {σ : Type} (plan : PlanShape) (ops : DfsOps σ)

/-- `run_explicit_heap_stack`, with as many iterations as the loop can take. -/
def runExplicitHeapStack : Exec σ StepResult :=
  runExplicitHeapStackLoop plan ops (3 * plan.nodeCount)

/-- **The recursive executor, from the root.** -/
theorem runNode_root :
    runNode plan ops 0 = dfsNode true ops 0 (dfsChildren true ops plan.below) :=
  runNode_eq_dfs plan.below_spanned.2 plan.below_spanned.1

/-- **The loop, from the root**: it ends within three iterations a node. -/
theorem runExplicitHeapStackLoop_eq_dfs (extra : Nat) :
    runExplicitHeapStackLoop plan ops (3 * plan.nodeCount + extra)
      = dfsNode false ops 0 (dfsChildren false ops plan.below) := by
  funext s
  obtain ⟨n, hn, hrun⟩ := loop_node (loop_children plan.below) plan.nodeCount_pos
    plan.below_spanned.2 plan.below_spanned.1 [] .success s
  have hsize := plan.below_size
  rw [runExplicitHeapStackLoop, show 3 * plan.nodeCount + extra
    = n + (3 * plan.nodeCount + extra - n) by omega, hrun]
  exact congrFun (Exec.bind_pure_right _) s

theorem runExplicitHeapStack_eq_dfs :
    runExplicitHeapStack plan ops = dfsNode false ops 0 (dfsChildren false ops plan.below) :=
  runExplicitHeapStackLoop_eq_dfs plan ops 0

end YOrch
