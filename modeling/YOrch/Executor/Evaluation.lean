/-
  YOrch.Executor.Evaluation — what a run computes, without its slots.

  The executor keeps payloads in slots that nodes share: a child reads, and may
  mutate or consume, its parent's payload where it lies, a forward-prev node
  passes that very object on, and the compact layout lets nodes of different
  branches use one slot.  `evaluate` is a recursion over the tree in which a node
  receives values and hands a value to its children, and in which nothing a
  node does to what it received is seen by anyone else.

    • `cells_sim` — a node's task on two cells of its own does what it does on
      the slots,
    • `dfsNode_evaluates`, `dfsChildren_evaluates` — one node, and the trees
      below one,
    • `run_evaluates` — every run ends the way the evaluation does, and leaves
      the same world.
-/
import YOrch.Executor.Permutation

namespace YOrch

open Library

variable {V W S : Type}

/-! ## §1. The evaluation. -/

/-- What a node hands to its children: its payload, and the staged copy of it. -/
structure Handout (V : Type) where
  output : Option V := none
  staged : Option V := none
  deriving Repr, DecidableEq

/-- The objects a node's task reaches: the one its prev view is bound to, and
its own payload. -/
structure Cells (V : Type) where
  prev : Option V
  own : Option V := none
  deriving Repr, DecidableEq

section Evaluation

variable (p : Program V W)

/-- Node `i`'s payload is its own cell, a forward-prev node's the other one. -/
def ownsCell (i j : Nat) : Bool :=
  j == i && p.plan.outputStorageMode i != .forwardedPrev

/-- The two cells as node `i`'s backend. -/
def cellSlots (i : Nat) : SlotsApi V (Cells V) where
  initial := { prev := none }
  hasValue _ c := c.own.isSome
  emplace _ v c := ([], { c with own := some v })
  destroy _ c := ([], { c with own := none })
  get j c := if ownsCell p i j then c.own else c.prev
  set j v c :=
    if ownsCell p i j then { c with own := c.own.map fun _ => v }
    else { c with prev := c.prev.map fun _ => v }
  outHasValue _ c := c.own.isSome
  outEmplace _ v c := ([], { c with own := some v })
  outDestroy _ c := ([], { c with own := none })
  destroyActiveSlots c := ([], { c with own := none })

/-- A machine for one node, which has received `prev`. -/
def cellMachine (prev : Handout V) : Machine (Cells V) V where
  slots := { prev := prev.output }
  stage _ := prev.staged

/-- The copy for the children of a staged fanout. -/
def evaluateStaging (i : Nat) (output : Option V) : Exec W (Option V) :=
  if p.plan.parentRequiresFanoutStaging i then
    match output with
    | none => Exec.halt
    | some v => do
        let copied ← Exec.act fun w => p.copy w v
        match copied with
        | none => Exec.throw
        | some v => pure (some v)
  else
    pure none

/-- Evaluate node `i` on what it receives, and what is below it on what it
hands out. -/
def evaluateNode (fuel i : Nat) (prev : Handout V) (children : Handout V → Exec W StepResult) :
    Exec W StepResult := do
  let (entered, m) ← Exec.withLocal (cellMachine prev) (enterNode (cellSlots p i) p fuel i)
  if entered.step.ok then do
    let output := nodeOutput (cellSlots p i) p i m
    let staged ← evaluateStaging p i output
    children { output, staged }
  else
    pure entered.step

/-- Evaluate the trees of a forest, each on what their parent has handed out. -/
def evaluateChildren (fuel : Nat) : Forest Nat → Handout V → Exec W StepResult
  | .nil, _ => pure .success
  | .cons i below rest, prev => do
      let step ← evaluateNode p fuel i prev (evaluateChildren fuel below)
      if step.Stops then pure step else evaluateChildren fuel rest prev

/-- Evaluate the plan.  The root receives nothing. -/
def evaluate (fuel : Nat) : Exec W StepResult :=
  evaluateNode p fuel 0 {} (evaluateChildren p fuel p.plan.below)

end Evaluation

/-! ## §2. Cells for slots. -/

section Mirror

variable {p : Program V W} {i : Nat}

/-- A machine of cells for node `i`, and one on the ideal backend, which has kept
its stages and continued its log since `start`. -/
structure Mirrors (p : Program V W) (i : Nat) (start : Machine (Nat → Option V) V)
    (s : Machine (Cells V) V × W) (t : Machine (Nat → Option V) V × W) : Prop where
  world : s.2 = t.2
  own : s.1.slots.own = t.1.slots i
  slot : (p.plan.task i).usesPrevAccess → ∀ o, p.plan.prevSource i = some (.slot o) →
    s.1.slots.prev = t.1.slots o
  stage : (p.plan.task i).usesPrevAccess → ∀ q, p.plan.prevSource i = some (.stage q) →
    s.1.stage q = t.1.stage q
  kept : t.1.stage = start.stage
  log : start.events <:+ t.1.events

/-- What outlives a node's cells. -/
structure Outlives (start : Machine (Nat → Option V) V) (s : Machine (Cells V) V × W)
    (t : Machine (Nat → Option V) V × W) : Prop where
  world : s.2 = t.2
  kept : t.1.stage = start.stage
  log : start.events <:+ t.1.events

/-- What a node that succeeded leaves for its children. -/
structure HandsOut (p : Program V W) (i : Nat) (start : Machine (Nat → Option V) V)
    (s : Machine (Cells V) V × W) (t : Machine (Nat → Option V) V × W) : Prop
    extends Outlives start s t where
  output : nodeOutput (cellSlots p i) p i s.1
    = nodeOutput (idealSlots p.plan.toCompiledPlan V) p i t.1
  finished : .finished i (nodeOutput (idealSlots p.plan.toCompiledPlan V) p i t.1) ∈ t.1.events

/-- The parent's object is the other cell. -/
theorem ownsCell_parent {o : Nat} (hi : i < p.plan.nodeCount)
    (hsource : p.plan.prevSource i = some (.slot o)) :
    ownsCell p i (p.plan.parentIndex i) = false := by
  have hne : p.plan.parentIndex i ≠ i := by
    intro heq
    rw [CompiledPlan.prevSource] at hsource
    split_ifs at hsource with hroot
    · cases hsource
    · exact Nat.ne_of_lt (p.plan.parentIndex_lt (p.plan.pos_of_parentIndex hroot) hi) heq
  simp [ownsCell, hne]

/-- The parent's object is in another slot than node `i`'s own. -/
theorem source_ne_self {o : Nat} (hi : i < p.plan.nodeCount)
    (hsource : p.plan.prevSource i = some (.slot o)) : o ≠ i := by
  obtain ⟨hparent, hvoid, howner⟩ := ValidPlan.parent_of_source hi hsource
  have hpos : 0 < i := by
    apply p.plan.pos_of_parentIndex
    intro hroot
    rw [CompiledPlan.prevSource, if_pos hroot] at hsource
    cases hsource
  have hle := ValidPlan.owner_le hparent hvoid
  have hlt := p.plan.parentIndex_lt hpos hi
  omega

namespace Mirrors

variable {start : Machine (Nat → Option V) V} {s : Machine (Cells V) V × W}
  {t : Machine (Nat → Option V) V × W}

theorem outlives (h : Mirrors p i start s t) : Outlives start s t :=
  ⟨h.world, h.kept, h.log⟩

theorem setWorld (h : Mirrors p i start s t) (w : W) : Mirrors p i start (s.1, w) (t.1, w) :=
  { h with world := rfl }

theorem record (h : Mirrors p i start s t) (event event' : Event V) :
    Mirrors p i start (s.1.record event, s.2) (t.1.record event', t.2) :=
  { h with log := h.log.trans (List.suffix_cons _ _) }

/-- The prev views agree. -/
theorem read_eq (h : Mirrors p i start s t) (hi : i < p.plan.nodeCount)
    (huses : (p.plan.task i).usesPrevAccess) :
    readPrev (cellSlots p i) p i s.1
      = readPrev (idealSlots p.plan.toCompiledPlan V) p i t.1 := by
  cases hsource : p.plan.prevSource i with
  | none => rw [readPrev, readPrev, hsource]
  | some source =>
      cases source with
      | stage q =>
          rw [readPrev_stage _ _ hsource, readPrev_stage _ _ hsource]
          exact h.stage huses q hsource
      | slot o =>
          obtain ⟨-, -, howner⟩ := ValidPlan.parent_of_source hi hsource
          rw [readPrev_slot _ _ hsource, readPrev_slot _ _ hsource]
          show (if ownsCell p i (p.plan.parentIndex i) then s.1.slots.own else s.1.slots.prev)
            = t.1.slots (p.plan.canonicalOutputOwnerNode (p.plan.parentIndex i))
          rw [ownsCell_parent hi hsource, howner]
          exact h.slot huses o hsource

/-- Writing to the parent's object. -/
theorem writePrev (h : Mirrors p i start s t) (hi : i < p.plan.nodeCount)
    (huses : (p.plan.task i).usesPrevAccess) (v : V) :
    Mirrors p i start (writePrev (cellSlots p i) p i v s.1, s.2)
      (writePrev (idealSlots p.plan.toCompiledPlan V) p i v t.1, t.2) := by
  have hread := h.read_eq hi huses
  unfold YOrch.writePrev
  cases hsource : p.plan.prevSource i with
  | none => exact h
  | some source =>
      cases source with
      | stage q => exact h
      | slot o =>
          dsimp only
          rw [hread]
          -- the object is there on both sides, or on neither
          split
          · obtain ⟨-, -, howner⟩ := ValidPlan.parent_of_source hi hsource
            have hcell : (cellSlots p i).set (p.plan.parentIndex i) v s.1.slots
                = { s.1.slots with prev := s.1.slots.prev.map fun _ => v } := by
              show (if ownsCell p i (p.plan.parentIndex i) then _ else _) = _
              rw [ownsCell_parent hi hsource]
              rfl
            have hideal : (idealSlots p.plan.toCompiledPlan V).set (p.plan.parentIndex i) v
                  t.1.slots
                = Function.update t.1.slots o ((t.1.slots o).map fun _ => v) := by
              rw [← howner]
              rfl
            rw [hcell, hideal]
            refine { h with own := ?_, slot := ?_ }
            · show s.1.slots.own = Function.update t.1.slots o _ i
              rw [Function.update_of_ne (source_ne_self hi hsource).symm]
              exact h.own
            · intro _ o' hsource'
              obtain rfl : o = o' := by
                rw [hsource, Option.some.injEq, PrevSource.slot.injEq] at hsource'
                exact hsource'
              show s.1.slots.prev.map _ = Function.update t.1.slots o _ o
              rw [Function.update_self, h.slot huses o hsource]
          · exact h

theorem writeBack (h : Mirrors p i start s t) (hi : i < p.plan.nodeCount) (written : Option V) :
    Mirrors p i start (writeBack (cellSlots p i) p i written s.1, s.2)
      (writeBack (idealSlots p.plan.toCompiledPlan V) p i written t.1, t.2) := by
  unfold YOrch.writeBack
  cases written with
  | none => exact h
  | some v =>
      dsimp only
      split
      · next hwritable =>
          obtain ⟨binding, hmem, hbinding⟩ := List.any_eq_true.mp hwritable
          have hexclusive := TaskBehaviour.exclusive_of_binding hmem
            (TaskBehaviour.exclusive_of_writable hbinding)
          exact h.writePrev hi (Task.exclusive_uses hexclusive) v
      · exact h

/-- Changing node `i`'s own payload. -/
theorem onOwn (h : Mirrors p i start s t) (hi : i < p.plan.nodeCount) {o : Option V}
    {op : Cells V → List MemoryEvent × Cells V}
    {op' : (Nat → Option V) → List MemoryEvent × (Nat → Option V)}
    (hop : (op s.1.slots).2 = { s.1.slots with own := o })
    (hop' : (op' t.1.slots).2 = Function.update t.1.slots i o) :
    Mirrors p i start (s.1.onSlots op, s.2) (t.1.onSlots op', t.2) where
  world := h.world
  own := by
    rw [Machine.onSlots_slots, Machine.onSlots_slots, hop, hop', Function.update_self]
  slot huses o' hsource := by
    rw [Machine.onSlots_slots, Machine.onSlots_slots, hop, hop',
      Function.update_of_ne (source_ne_self hi hsource)]
    exact h.slot huses o' hsource
  stage := h.stage
  kept := h.kept
  log := by
    rw [Machine.onSlots_events]
    exact h.log.trans (List.suffix_append _ _)

theorem emplaceSink (h : Mirrors p i start s t) (hi : i < p.plan.nodeCount)
    (payload : Option V) :
    Mirrors p i start (emplaceSink (cellSlots p i) i payload s.1, s.2)
      (emplaceSink (idealSlots p.plan.toCompiledPlan V) i payload t.1, t.2) := by
  cases payload with
  | none => exact h
  | some v => exact h.onOwn hi (o := some v) rfl rfl

theorem outDestroy (h : Mirrors p i start s t) (hi : i < p.plan.nodeCount) :
    Mirrors p i start (s.1.onSlots ((cellSlots p i).outDestroy i), s.2)
      (t.1.onSlots ((idealSlots p.plan.toCompiledPlan V).outDestroy i), t.2) :=
  h.onOwn hi (o := none) rfl idealDestroy_slots

/-- The sinks hold a payload together. -/
theorem sinkLive (h : Mirrors p i start s t) :
    (cellSlots p i).outHasValue i s.1.slots
      = (idealSlots p.plan.toCompiledPlan V).outHasValue i t.1.slots :=
  congrArg Option.isSome h.own

theorem output_eq (h : Mirrors p i start s t) (hi : i < p.plan.nodeCount) :
    nodeOutput (cellSlots p i) p i s.1
      = nodeOutput (idealSlots p.plan.toCompiledPlan V) p i t.1 := by
  unfold nodeOutput
  cases hvoid : (p.plan.outputType i).isVoid with
  | true => rfl
  | false =>
      show (if ownsCell p i i then s.1.slots.own else s.1.slots.prev)
        = t.1.slots (p.plan.canonicalOutputOwnerNode i)
      by_cases hforward : p.plan.outputStorageMode i = .forwardedPrev
      · -- the node's payload is its parent's object
        have hexclusive := (ValidPlan.forward_exclusive hi hforward).1
        have hsource := ValidPlan.prevSource_eq hi (Task.exclusive_uses hexclusive)
        rw [ValidPlan.exclusive_not_staged hexclusive, if_neg (by simp)] at hsource
        rw [if_neg (by simp [ownsCell, hforward]), ValidPlan.owner_forward hi hforward]
        exact h.slot (Task.exclusive_uses hexclusive) _ hsource
      · rw [if_pos (by simp [ownsCell, hforward]), ValidPlan.owner_self hvoid hforward]
        exact h.own

/-- Node `i`'s task has succeeded. -/
theorem finish (h : Mirrors p i start s t) (hi : i < p.plan.nodeCount) :
    HandsOut p i start (finishNode (cellSlots p i) p i s.1, s.2)
      (finishNode (idealSlots p.plan.toCompiledPlan V) p i t.1, t.2) where
  toOutlives := (h.record _ _).outlives
  output := h.output_eq hi
  finished := List.mem_cons_self

end Mirrors

/-- **A node on its own cells.**  From cells that mirror the slots, node `i` does
on the cells what it does on the ideal backend. -/
theorem cells_sim (hi : i < p.plan.nodeCount) (start : Machine (Nat → Option V) V) :
    EnterSim (cellSlots p i) (idealSlots p.plan.toCompiledPlan V) p i (Mirrors p i start)
      (HandsOut p i start) (Outlives start)
      (fun phase s t => Mirrors p i start s t
        ∧ match phase with
          | .evaluating rest => rest <:+ (p.behaviour i).evaluated
          | .ready | .sinking _ | .tried => True)
      (fun s t => s.2 = t.2) where
  world phase s t hst := ⟨hst.1.world, fun w => ⟨hst.1.setWorld w, hst.2⟩⟩
  halts phase s t hst := hst.1.world
  violate phase violation s t _ hst := hst.1.world
  attempt s t hst := ⟨hst.1.record _ _, List.suffix_refl _⟩
  abandon rest s t hst := ⟨hst.1, trivial⟩
  skip binding rest s t _ hst := ⟨hst.1, (List.suffix_cons _ _).trans hst.2⟩
  read binding rest s t hprev hst :=
    hst.1.read_eq hi (TaskBehaviour.uses_of_binding (hst.2.subset List.mem_cons_self) hprev)
  resolve binding rest s t source v arg left w hprev hst _ _ _ := by
    have huses := TaskBehaviour.uses_of_binding (hst.2.subset List.mem_cons_self) hprev
    refine ⟨?_, (List.suffix_cons _ _).trans hst.2⟩
    unfold resolveStep
    split
    · exact ((hst.1.record _ _).writePrev hi huses left).setWorld w
    · exact (hst.1.record _ _).setWorld w
  write written s t _ hst := ⟨hst.1.writeBack hi written, trivial⟩
  sink args w s t _ hst := ⟨hst.1, trivial⟩
  sinkHasValue next s t hst := ⟨hst.1.sinkLive, hst⟩
  sinkEmplace payload next s t hst :=
    ⟨hst.1.sinkLive, fun _ => ⟨hst.1.emplaceSink hi payload, trivial⟩,
      fun _ => ⟨⟨(hst.1.record _ _).emplaceSink hi payload, trivial⟩, hst.1.world⟩⟩
  sinkDestroy next s t hst := ⟨hst.1.outDestroy hi, trivial⟩
  sinkFinish exit written world s t hst := ⟨hst.1.writeBack hi written, trivial⟩
  again s t _ _ hst := hst
  cleanUp s t _ _ hst := by
    refine ⟨?_, trivial⟩
    unfold cleanUpSink
    rw [hst.1.sinkLive]
    split
    · exact hst.1.outDestroy hi
    · exact hst.1
  enter s t hst := ⟨hst.record _ _, trivial⟩
  hasValue s t hinto hst := by
    rw [idealSlots_hasValue hi (ValidPlan.payloadNode_of_direct hinto)]
    exact congrArg Option.isSome hst.1.own
  finish s t _ hst _ := hst.1.finish hi
  finishMissing s t _ hst _ := (hst.1.record _ _).finish hi
  failInto s t hinto hst := by
    rw [idealSlots_onDestroy hi (ValidPlan.payloadNode_of_direct hinto)]
    exact (hst.1.outDestroy hi).outlives
  store v s t _ _ hst := (hst.1.onOwn hi (o := some v) rfl rfl).finish hi
  pass s t _ _ hst := hst.1.finish hi
  fail s t _ hst := hst.1.outlives

end Mirror

/-! ## §3. The tree. -/

section Tree

variable {p : Program V W} {P staged : List Nat} {given : Nat → Handout V} {i n : Nat}

/-- The world around the evaluation is that around the machine. -/
def SameWorld (w : W) (t : Machine (Nat → Option V) V × W) : Prop := w = t.2

/-- The nodes of the path `P` finished with what `given` says they hand out, and
the staged copies of those in `staged` are what it says. -/
structure Gives (p : Program V W) (given : Nat → Handout V) (staged P : List Nat) (w : W)
    (t : Machine (Nat → Option V) V × W) : Prop where
  world : w = t.2
  finished : ∀ q ∈ P, .finished q (given q).output ∈ t.1.events
  stage : ∀ q ∈ staged, p.plan.parentRequiresFanoutStaging q → t.1.stage q = (given q).staged

/-- What else a run keeps on the ideal backend: each payload on the path is the
one its node finished with unless an access from below has reached it, and only
nodes on the path have payloads. -/
def Carries (p : Program V W) (staged P : List Nat) (n : Nat)
    (t : Machine (Nat → Option V) V × W) : Prop :=
  Handed p staged P n n t.1
    ∧ ∃ s, Agree p.plan (SlotsRep p.plan (compactMap p.plan.toCompiledPlan)) P P s t

theorem Carries.later {m : Nat} {t : Machine (Nat → Option V) V × W} (h : Carries p staged P n t)
    (hnm : n ≤ m) : Carries p staged P m t :=
  ⟨h.1.weaken (List.Subset.refl _) (List.Subset.refl _) hnm hnm, h.2⟩

theorem carries_run (p : Program V W) (fuel : Nat) :
    ∃ Abandoned H, RunTriple p.plan.toPlanShape p.plan.payloadNode
      (nodeOps (idealSlots p.plan.toCompiledPlan V) p fuel)
      (fun P n => Carries p P P n) (fun P n => Carries p P.tail P n) Abandoned H :=
  ⟨_, _, (access_run p fuel).and (traversal_agrees (compact_refines p.plan) fuel).right⟩

namespace Gives

variable {w : W} {t t' : Machine (Nat → Option V) V × W} {output : Option V}

/-- The log has grown, and the listed stages are as before. -/
theorem mono {w' : W} (h : Gives p given staged P w t) (hworld : w' = t'.2)
    (hlog : t.1.events <:+ t'.1.events) (hstage : ∀ q ∈ staged, t'.1.stage q = t.1.stage q) :
    Gives p given staged P w' t' where
  world := hworld
  finished q hq := hlog.subset (h.finished q hq)
  stage q hq hstaging := (hstage q hq).trans (h.stage q hq hstaging)

/-- Above node `i` it does not matter what `i` hands out. -/
theorem above {handout : Handout V} (hi : i < p.plan.nodeCount) :
    Gives p (Function.update given i handout) (p.plan.path i).tail (p.plan.path i).tail w t
      ↔ Gives p given (p.plan.path i).tail (p.plan.path i).tail w t := by
  have hne : ∀ q ∈ (p.plan.path i).tail, Function.update given i handout q = given q := by
    intro q hq
    exact Function.update_of_ne (fun hqi : q = i => Agree.not_mem_tail hi (hqi ▸ hq)) ..
  constructor
  · intro h
    exact ⟨h.world, fun q hq => hne q hq ▸ h.finished q hq, fun q hq => hne q hq ▸ h.stage q hq⟩
  · intro h
    exact ⟨h.world, fun q hq => (hne q hq).symm ▸ h.finished q hq,
      fun q hq => (hne q hq).symm ▸ h.stage q hq⟩

/-- Node `i` has finished, and its fanout is staged or need not be. -/
theorem enter {handout : Handout V} (hi : i < p.plan.nodeCount)
    (h : Gives p given (p.plan.path i).tail (p.plan.path i).tail w t)
    (hfinished : .finished i handout.output ∈ t.1.events)
    (hstage : p.plan.parentRequiresFanoutStaging i → t.1.stage i = handout.staged) :
    Gives p (Function.update given i handout) (p.plan.path i) (p.plan.path i) w t := by
  have habove : Gives p (Function.update given i handout) (p.plan.path i).tail
      (p.plan.path i).tail w t := (above hi).mpr h
  refine ⟨h.world, fun q hq => ?_, fun q hq hstaging => ?_⟩
  · by_cases hqi : q = i
    · subst hqi
      rw [Function.update_self]
      exact hfinished
    · exact habove.finished q (ValidPlan.mem_tail_path hq hqi)
  · by_cases hqi : q = i
    · subst hqi
      rw [Function.update_self]
      exact hstage hstaging
    · exact habove.stage q (ValidPlan.mem_tail_path hq hqi) hstaging

/-- Node `i` and its stage are left. -/
theorem leave {handout : Handout V} (hi : i < p.plan.nodeCount)
    (h : Gives p (Function.update given i handout) staged (p.plan.path i) w t)
    (hstaged : (p.plan.path i).tail ⊆ staged) :
    Gives p given (p.plan.path i).tail (p.plan.path i).tail w t :=
  (above hi).mp ⟨h.world, fun q hq => h.finished q (Agree.tail_subset _ i hq),
    fun q hq => h.stage q (hstaged hq)⟩

/-- On entry, node `i`'s cells mirror the slots. -/
theorem mirrors {prev : Handout V} (hi : i < p.plan.nodeCount)
    (h : Gives p given (p.plan.path i).tail (p.plan.path i).tail w t)
    (hcarries : Carries p (p.plan.path i).tail (p.plan.path i).tail i t)
    (hprev : (p.plan.task i).usesPrevAccess → prev = given (p.plan.parentIndex i)) :
    Mirrors p i t.1 (cellMachine prev, w) t := by
  obtain ⟨hhanded, _, hagree⟩ := hcarries
  have hparent : (p.plan.task i).usesPrevAccess →
      p.plan.parentIndex i ∈ (p.plan.path i).tail := by
    intro huses
    rw [p.plan.path_of_pos (ValidPlan.parent_output hi huses).1 hi]
    exact p.plan.self_mem_path _
  refine ⟨h.world, ?_, fun huses o hsource => ?_, fun huses q hsource => ?_, rfl,
    List.suffix_refl _⟩
  · -- only nodes above `i` have payloads
    by_contra hne
    exact Agree.not_mem_tail hi (hagree.live i fun hnone => hne hnone.symm).1
  · rw [hprev huses]
    exact (hhanded.reads_slot hi (Nat.le_refl i) huses hsource (hparent huses)
      (h.finished _ (hparent huses))).symm
  · rw [ValidPlan.prevSource_eq hi huses] at hsource
    split_ifs at hsource with hstaged
    swap
    · cases hsource
    rw [Option.some.injEq, PrevSource.stage.injEq] at hsource
    subst hsource
    have hstaging : p.plan.parentRequiresFanoutStaging (p.plan.parentIndex i) := by
      rw [CompiledPlan.nodeUsesStagedCopyPrev] at hstaged
      split_ifs at hstaged
      exact (Bool.and_eq_true_iff.mp hstaged).1
    rw [hprev huses]
    exact (h.stage _ (hparent huses) hstaging).symm

end Gives

/-- Staging a fanout. -/
theorem stage_evaluates (hi : i < p.plan.nodeCount) {output : Option V}
    (hstaging : p.plan.parentRequiresFanoutStaging i) :
    Exec.Sim
      (fun w t => Gives p given (p.plan.path i).tail (p.plan.path i).tail w t
        ∧ .finished i output ∈ t.1.events
        ∧ nodeOutput (idealSlots p.plan.toCompiledPlan V) p i t.1 = output)
      (evaluateStaging p i output)
      (stageFanout (idealSlots p.plan.toCompiledPlan V) p i >>= fun _ => look fun m => m.stage i)
      (fun staged => Gives p (Function.update given i { output, staged }) (p.plan.path i)
        (p.plan.path i))
      SameWorld SameWorld := by
  intro w t hst
  obtain ⟨hgives, hfinished, houtput⟩ := hst
  have hget : (idealSlots p.plan.toCompiledPlan V).get i t.1.slots = output := by
    rw [← houtput, nodeOutput, ValidPlan.output_of_staging hi hstaging]
    rfl
  obtain rfl : w = t.2 := hgives.world
  unfold evaluateStaging stageFanout
  rw [if_pos hstaging]
  simp only [look, onWorld, onMachine, Exec.bind_run, Exec.reads_run, hget]
  cases output with
  | none => exact .halted rfl
  | some v =>
      rcases hcopy : p.copy t.2 v with ⟨_ | v', w'⟩
      · simp only [Exec.act_run, Exec.bind_run, hcopy]
        exact .thrown rfl
      · simp only [Exec.act_run, Exec.bind_run, hcopy]
        have hstage : ∀ q ∈ (p.plan.path i).tail,
            (t.1.emplaceStage i v').stage q = t.1.stage q := by
          intro q hq
          exact Function.update_of_ne (fun hqi : q = i => Agree.not_mem_tail hi (hqi ▸ hq)) ..
        have hkept : Gives p given (p.plan.path i).tail (p.plan.path i).tail w'
            (t.1.emplaceStage i v', w') :=
          hgives.mono rfl (List.suffix_cons _ _) hstage
        have hevent : .finished i (some v) ∈ (t.1.emplaceStage i v').events :=
          List.mem_cons_of_mem _ hfinished
        have hself : (t.1.emplaceStage i v').stage i = some v' := Function.update_self ..
        show Exec.Match _ _ _ (.ret (some v'), w')
          (.ret ((t.1.emplaceStage i v').stage i), (t.1.emplaceStage i v', w'))
        rw [hself]
        exact .ret (hkept.enter hi hevent fun _ => hself)

/-- What an exception or a halt leaves to compare. -/
theorem sameWorld_staging (s : Machine (Nat → Option V) V × W) (fuel i : Nat) :
    ((nodeOps (idealSlots p.plan.toCompiledPlan V) p fuel).destroyFanoutStaging i s).2 = s.2 := by
  unfold DfsOps.destroyFanoutStaging
  cases (nodeOps (idealSlots p.plan.toCompiledPlan V) p fuel).requiresStaging i with
  | true => rfl
  | false => rfl

theorem sameWorld_payload (s : Machine (Nat → Option V) V × W) (fuel i : Nat) (live : Bool) :
    (bif live then (nodeOps (idealSlots p.plan.toCompiledPlan V) p fuel).destroyPayload i s
      else s).2 = s.2 := by
  cases live with
  | true => rfl
  | false => rfl

/-- The relation between the evaluation and the traversal: between the nodes
below the last one of the path `P`, `n` being the next index. -/
def Follows (p : Program V W) (given : Nat → Handout V) (P : List Nat) (n : Nat) (w : W)
    (t : Machine (Nat → Option V) V × W) : Prop :=
  Gives p given P P w t ∧ Carries p P P n t

/-- Node `i` has been entered, and its fanout is not staged. -/
def FollowsEntered (p : Program V W) (given : Nat → Handout V) (i n : Nat) (w : W)
    (t : Machine (Nat → Option V) V × W) : Prop :=
  Gives p given (p.plan.path i).tail (p.plan.path i).tail w t
    ∧ Carries p (p.plan.path i).tail (p.plan.path i) n t

section Node

variable (fuel : Nat) {prev : Handout V} {children : Handout V → Exec W StepResult}
  {below : Exec (Machine (Nat → Option V) V × W) StepResult}

/-- The children of node `i`, which find what it hands out, and the end of their
stage. -/
theorem scope_evaluates (unwind : Bool) (hi : i < p.plan.nodeCount) {handout : Handout V}
    (hbelow : Exec.Sim
      (Follows p (Function.update given i handout) (p.plan.path i) (i + 1))
      (children handout) below
      (fun _ => Follows p (Function.update given i handout) (p.plan.path i) n)
      SameWorld SameWorld) :
    Exec.Sim (Follows p (Function.update given i handout) (p.plan.path i) (i + 1))
      (children handout)
      (Exec.onExit unwind
        ((nodeOps (idealSlots p.plan.toCompiledPlan V) p fuel).destroyFanoutStaging i) below)
      (fun _ => FollowsEntered p given i n) SameWorld SameWorld := by
  apply hbelow.onExit_right
  · intro _ w t hst
    obtain ⟨hgives, hcarries⟩ := hst
    obtain ⟨_, _, hrun⟩ := carries_run p fuel
    refine ⟨?_, (hrun.sim.unstage_open hi ⟨rfl, hcarries⟩).2⟩
    apply (hgives.leave hi (Agree.tail_subset _ i)).mono
    · rw [sameWorld_staging]
      exact hgives.world
    · exact (nodeOps_grows _ p fuel).destroyStaging (logs_parting 0) i t
    · intro q hq
      have hqi : q ≠ i := fun hqi => Agree.not_mem_tail hi (hqi ▸ hq)
      unfold DfsOps.destroyFanoutStaging
      cases (nodeOps (idealSlots p.plan.toCompiledPlan V) p fuel).requiresStaging i with
      | true =>
          show (t.1.destroyStage i).stage q = _
          rw [Machine.destroyStage_stage, Function.update_of_ne hqi]
      | false => rfl
  · intro w t hst
    cases unwind with
    | true => exact hst.trans (sameWorld_staging t fuel i).symm
    | false => exact hst

/-- What follows a success of node `i`. -/
theorem entered_evaluates (unwind : Bool) (hi : i < p.plan.nodeCount) {output : Option V}
    (hbelow : ∀ handout, Exec.Sim
      (Follows p (Function.update given i handout) (p.plan.path i) (i + 1))
      (children handout) below
      (fun _ => Follows p (Function.update given i handout) (p.plan.path i) n)
      SameWorld SameWorld) :
    Exec.Sim
      (fun w t => FollowsEntered p given i (i + 1) w t ∧ .finished i output ∈ t.1.events
        ∧ nodeOutput (idealSlots p.plan.toCompiledPlan V) p i t.1 = output)
      (evaluateStaging p i output >>= fun staged => children { output, staged })
      ((nodeOps (idealSlots p.plan.toCompiledPlan V) p fuel).prepareFanoutStaging i >>= fun _ =>
        Exec.onExit unwind
          ((nodeOps (idealSlots p.plan.toCompiledPlan V) p fuel).destroyFanoutStaging i) below)
      (fun _ => FollowsEntered p given i n) SameWorld SameWorld := by
  obtain ⟨_, _, hrun⟩ := carries_run p fuel
  cases hstaging : p.plan.parentRequiresFanoutStaging i with
  | false =>
      have hprepare : (nodeOps (idealSlots p.plan.toCompiledPlan V) p fuel).prepareFanoutStaging i
          = pure () := if_neg (by simp [nodeOps, hstaging])
      unfold evaluateStaging
      rw [hprepare, hstaging, if_neg (by simp), Exec.bind_pure_left, Exec.bind_pure_left]
      apply (scope_evaluates fuel unwind hi (hbelow _)).pre
      intro w t hst
      obtain ⟨⟨hgives, hcarries⟩, hfinished, -⟩ := hst
      refine ⟨hgives.enter hi hfinished fun h => ?_, ?_⟩
      · rw [hstaging] at h
        cases h
      · exact (hrun.unstaged i hi hstaging _ t).mp hcarries
  | true =>
      have hprepare : (nodeOps (idealSlots p.plan.toCompiledPlan V) p fuel).prepareFanoutStaging i
          = stageFanout (idealSlots p.plan.toCompiledPlan V) p i :=
        if_pos (by simp [nodeOps, hstaging])
      have hstage : Exec.Triple (Carries p (p.plan.path i).tail (p.plan.path i) (i + 1))
          (stageFanout (idealSlots p.plan.toCompiledPlan V) p i >>= fun _ =>
            look fun m => m.stage i)
          (fun _ => Carries p (p.plan.path i) (p.plan.path i) (i + 1)) (fun _ => True)
          (fun _ => True) :=
        Exec.Triple.bind ((hrun.stage i hi hstaging).conseq (fun _ => id) (fun _ _ => id)
          (fun _ _ => trivial) fun _ _ => trivial) fun _ => .reads fun _ hs => hs
      -- the evaluation passes on what the machine then has in its stage
      have hread : (stageFanout (idealSlots p.plan.toCompiledPlan V) p i >>= fun _ =>
            Exec.onExit unwind
              ((nodeOps (idealSlots p.plan.toCompiledPlan V) p fuel).destroyFanoutStaging i) below)
          = (stageFanout (idealSlots p.plan.toCompiledPlan V) p i >>= fun _ =>
              look fun m => m.stage i) >>= fun _ => Exec.onExit unwind
                ((nodeOps (idealSlots p.plan.toCompiledPlan V) p fuel).destroyFanoutStaging i)
                below := by
        rw [Exec.bind_assoc]
        rfl
      rw [hprepare, hread]
      apply Exec.Sim.bind
      · apply (hstage.and_right (stage_evaluates hi hstaging)).conseq
        · intro w t hst
          exact ⟨⟨hst.1.1, hst.2⟩, hst.1.2⟩
        · exact fun _ _ _ => id
        · exact fun _ _ hst => hst.1
        · exact fun _ _ hst => hst.1
      · intro staged
        exact scope_evaluates fuel unwind hi (hbelow _)

/-- **Visiting a node.** -/
theorem dfsNode_evaluates (unwind : Bool) (hi : i < p.plan.nodeCount) (hn : i < n)
    (hprev : (p.plan.task i).usesPrevAccess → prev = given (p.plan.parentIndex i))
    (hbelow : ∀ handout, Exec.Sim
      (Follows p (Function.update given i handout) (p.plan.path i) (i + 1))
      (children handout) below
      (fun _ => Follows p (Function.update given i handout) (p.plan.path i) n)
      SameWorld SameWorld) :
    Exec.Sim (Follows p given (p.plan.path i).tail i) (evaluateNode p fuel i prev children)
      (dfsNode unwind (nodeOps (idealSlots p.plan.toCompiledPlan V) p fuel) i below)
      (fun _ => Follows p given (p.plan.path i).tail n) SameWorld SameWorld := by
  intro w t hst
  obtain ⟨_, _, hrun⟩ := carries_run p fuel
  have henter := (hrun.enter i hi).and_right ((cells_sim hi t.1).enterNode_sim hi fuel)
  have hkept : ∀ {s : Machine (Cells V) V × W} {t' : Machine (Nat → Option V) V × W},
      Outlives t.1 s t' → Gives p given (p.plan.path i).tail (p.plan.path i).tail s.2 t' :=
    fun h => hst.1.mono h.world h.log fun q _ => congrFun h.kept q
  -- the node's cells mirror the slots of this one machine
  suffices hnode : Exec.Sim (fun w' t' => w' = w ∧ t' = t) (evaluateNode p fuel i prev children)
      (dfsNode unwind (nodeOps (idealSlots p.plan.toCompiledPlan V) p fuel) i below)
      (fun _ => Follows p given (p.plan.path i).tail n) SameWorld SameWorld from
    hnode w t ⟨rfl, rfl⟩
  unfold evaluateNode dfsNode
  apply Exec.Sim.withLocal_bind (henter.conseq (fun _ _ => id) (fun _ _ _ => id)
    (fun _ _ h => h.1.world) fun _ _ h => h.1)
  · intro w' t' hstart
    obtain ⟨rfl, rfl⟩ := hstart
    exact ⟨hst.1.mirrors hi hst.2 hprev, hst.2⟩
  · intro entered m
    unfold EnterSim.Outcome
    dsimp only
    cases hok : entered.step.ok with
    | false =>
        -- there is nothing to leave: the node has no payload, and stages nothing
        simp only [Bool.false_eq_true, if_false]
        apply Exec.Sim.pure
        intro w' t' hleft
        exact ⟨hkept hleft.1, hleft.2.later hn⟩
    | true =>
        simp only [if_true]
        by_cases hlive : entered.payloadLive = p.plan.payloadNode i
        · rw [hlive]
          apply Exec.Sim.onExit_right
          · apply (entered_evaluates fuel unwind hi hbelow).pre
            intro w' t' hentered
            obtain ⟨⟨-, hhands⟩, -, hcarries⟩ := hentered
            refine ⟨⟨hkept hhands.toOutlives, hcarries⟩, ?_, hhands.output.symm⟩
            rw [hhands.output]
            exact hhands.finished
          · intro _ w' t' hleft
            obtain ⟨hgives, hcarries⟩ := hleft
            refine ⟨hgives.mono ?_ ?_ ?_, (hrun.sim.destroy_entered hi ⟨rfl, hcarries⟩).2⟩
            · rw [sameWorld_payload]
              exact hgives.world
            · exact (nodeOps_grows _ p fuel).destroyLive (logs_parting 0) _ i t'
            · intro q _
              cases p.plan.payloadNode i with
              | true => rfl
              | false => rfl
          · intro w' t' hworld
            cases unwind with
            | true => exact hworld.trans (sameWorld_payload t' fuel i _).symm
            | false => exact hworld
        · -- `payload_live` of a node that succeeded says whether it has a slot
          exact fun w' t' hentered => absurd hentered.2.1 hlive

end Node

/-- **The trees below a node.**  The induction is on the forest; its nodes are
the indices from `n` on, and each tree finds what the node `q` hands out. -/
theorem dfsChildren_evaluates (p : Program V W) (fuel : Nat) (unwind : Bool) :
    ∀ (f : Forest Nat) (q n : Nat) (given : Nat → Handout V), q < n →
      n + f.size ≤ p.plan.nodeCount → Forest.Parented p.plan.parentIndex q f →
      f.preorder = List.range' n f.size →
      Exec.Sim (Follows p given (p.plan.path q) n) (evaluateChildren p fuel f (given q))
        (dfsChildren unwind (nodeOps (idealSlots p.plan.toCompiledPlan V) p fuel) f)
        (fun _ => Follows p given (p.plan.path q) (n + f.size)) SameWorld SameWorld
  | .nil, _, _, _, _, _, _, _ => .pure fun _ _ hst => hst
  | .cons i below rest, q, n, given, hqn, hsize, hparented, hpreorder => by
      obtain ⟨hparent, hbelow, hrest⟩ := hparented
      simp only [Forest.size] at hsize hpreorder ⊢
      rw [Forest.preorder_cons, List.range'_succ, List.cons.injEq,
        ← List.range'_append_1] at hpreorder
      obtain ⟨rfl, hpreorder⟩ := hpreorder
      obtain ⟨hbelow', hrest'⟩ := List.append_inj hpreorder (by
        rw [Forest.preorder_length, List.length_range'])
      have hchild : p.plan.IsParent q i := ⟨by omega, by omega, hparent⟩
      have hbelow : ∀ handout, Exec.Sim
          (Follows p (Function.update given i handout) (p.plan.path i) (i + 1))
          (evaluateChildren p fuel below handout)
          (dfsChildren unwind (nodeOps (idealSlots p.plan.toCompiledPlan V) p fuel) below)
          (fun _ => Follows p (Function.update given i handout) (p.plan.path i)
            (i + 1 + below.size)) SameWorld SameWorld := by
        intro handout
        have := dfsChildren_evaluates p fuel unwind below i (i + 1)
          (Function.update given i handout) (by omega) (by omega) hbelow hbelow'
        rwa [Function.update_self] at this
      have hnode := dfsNode_evaluates fuel unwind hchild.2.1 (by omega)
        (fun _ => congrArg given hparent.symm) hbelow
      rw [hchild.path, List.tail_cons] at hnode
      apply hnode.bind
      intro step
      -- a step that stops skips the later siblings, whose indices are then never reached
      split
      · exact .pure fun w t hst => ⟨hst.1, hst.2.later (by omega)⟩
      · have := dfsChildren_evaluates p fuel unwind rest q (i + 1 + below.size) given (by omega)
          (by omega) hrest hrest'
        rwa [show i + 1 + below.size + rest.size = i + (below.size + rest.size + 1) by omega]
          at this

end Tree

/-! ## §4. Whole runs. -/

theorem ideal_evaluates (p : Program V W) (exec : ExecPolicy) (fuel : Nat) (w : W) :
    let run := runFrom (idealSlots p.plan.toCompiledPlan V) p exec fuel w
    (run.1, run.2.2) = evaluate p fuel w := by
  have hbelow : ∀ handout, Exec.Sim
      (Follows p (Function.update (fun _ => {}) 0 handout) (p.plan.path 0) 1)
      (evaluateChildren p fuel p.plan.below handout)
      (dfsChildren exec.unwinds (nodeOps (idealSlots p.plan.toCompiledPlan V) p fuel)
        p.plan.below)
      (fun _ => Follows p (Function.update (fun _ => {}) 0 handout) (p.plan.path 0)
        (1 + p.plan.below.size)) SameWorld SameWorld := by
    intro handout
    have := dfsChildren_evaluates p fuel exec.unwinds p.plan.below 0 1
      (Function.update (fun _ => {}) 0 handout) (by omega) (by have := p.plan.below_size; omega)
      p.plan.below_parented p.plan.below_eq_range
    rwa [Function.update_self] at this
  -- nothing is known of the parent of the root
  have hroot : Exec.Sim (Follows p (fun _ => {}) [] 0) (evaluate p fuel)
      (traversal (idealSlots p.plan.toCompiledPlan V) p exec fuel)
      (fun _ => Follows p (fun _ => {}) [] (1 + p.plan.below.size)) SameWorld SameWorld :=
    dfsNode_evaluates fuel exec.unwinds p.plan.nodeCount_pos (by omega) (fun _ => rfl) hbelow
  have hstart : Follows p (fun _ => {}) [] 0 w
      (({ slots := fun _ => none } : Machine (Nat → Option V) V), w) := by
    refine ⟨⟨rfl, ?_, ?_⟩, Handed.start p, _, Agree.start (compact_refines p.plan) w⟩
    · exact fun q hq => absurd hq List.not_mem_nil
    · exact fun q hq => absurd hq List.not_mem_nil
  -- the destructors leave the world as it is
  have hrun : Exec.Sim (Follows p (fun _ => {}) [] 0) (evaluate p fuel)
      (runPlan (idealSlots p.plan.toCompiledPlan V) p exec fuel) (fun _ => SameWorld) SameWorld
      SameWorld := by
    rw [runPlan_eq]
    exact hroot.onExit_right (fun _ _ _ hst => hst.1.world) fun _ _ hworld => hworld
  obtain ⟨hexit, hworld⟩ := (hrun w _ hstart).same
  exact Prod.ext hexit.symm hworld.symm

/-- **A run computes its evaluation.**  For every validated plan, every behaviour
of its tasks, every slot layout and either executor, a run ends the way the
evaluation of the tree does and leaves the same world: no node can tell that
payloads are mutated, consumed and forwarded where they lie, that slots are
shared, or that the executor keeps a stack of its own. -/
theorem run_evaluates (p : Program V W) (layout : SlotLayoutPolicy) (exec : ExecPolicy)
    (fuel : Nat) (w : W) :
    let run := runFrom (layout.slots p.plan.toCompiledPlan) p exec fuel w
    (run.1, run.2.2) = evaluate p fuel w := by
  obtain ⟨hexit, hworld, -⟩ := run_agrees (layout.refines p.plan) exec fuel w
  show (_, _) = _
  rw [hexit, hworld]
  exact ideal_evaluates p exec fuel w

end YOrch
