/-
  YOrch.Executor.PrevAccess — what nodes see of their parents' payloads.

  `Handed` says of a machine on the ideal backend that the canonical slot of each
  finished node on the current path still holds what it held when the node's task
  finished, unless an exclusive access from below has reached it, and that a
  staged copy is a copy of that.  It survives everything a run does:

    • `access_triple`, `access_run` — the step and the run,
    • `run_accessLog` — what it says of the log, for every layout and executor:
      a node is entered with, and its first attempt resolves, the value its
      parent finished with; after a consuming node no other node resolves the
      slot, and it resolves it once.
-/
import YOrch.Executor.Backends

namespace YOrch

open Library

variable {V W S : Type}

/-! ## §1. Bindings of a valid task. -/

namespace TaskBehaviour

variable {task : Task} {b : TaskBehaviour V W task}

theorem mem_specs {binding : Spec × CppType} (h : binding ∈ b.evaluated) :
    binding.1 ∈ task.bound.allSpecs :=
  (BaseTask.bindings_sublist _).subset
    (List.mem_map_of_mem (b.evaluated_perm.subset h))

theorem uses_of_binding {binding : Spec × CppType} (h : binding ∈ b.evaluated)
    (hprev : binding.1.isPrevAccess) : task.usesPrevAccess := by
  simp only [Task.usesPrevAccess, Task.summary_eq, summarizeSpecs_eq, bne_iff_ne, ne_eq,
    List.countP_eq_zero, not_forall, not_not]
  exact ⟨binding.1, mem_specs h, hprev⟩

theorem exclusive_of_binding {binding : Spec × CppType} (h : binding ∈ b.evaluated)
    (hexclusive : binding.1.isExclusive) : task.usesExclusivePrevAccess := by
  simp only [Task.usesExclusivePrevAccess, Task.summary_eq, summarizeSpecs_eq, bne_iff_ne, ne_eq,
    List.countP_eq_zero, not_forall, not_not]
  exact ⟨binding.1, mem_specs h, hexclusive⟩

theorem consume_of_binding {binding : Spec × CppType} (h : binding ∈ b.evaluated)
    (hkind : binding.1.kind = .consume) : task.usesConsumePrev := by
  simp only [Task.usesConsumePrev, Task.summary_eq, summarizeSpecs_eq, bne_iff_ne, ne_eq,
    List.countP_eq_zero, not_forall, not_not]
  exact ⟨binding.1, mem_specs h, by rw [hkind]; rfl⟩

/-- A writable argument is an exclusive access. -/
theorem exclusive_of_writable {binding : Spec × CppType} (h : Program.writable binding) :
    binding.1.isExclusive := by
  unfold Program.writable at h
  unfold Spec.isExclusive
  cases hk : binding.1.kind <;> simp_all

/-- After an exclusive access there is none left. -/
theorem none_after_exclusive (hvalid : task.prevAccessValid) {binding : Spec × CppType}
    {rest : List (Spec × CppType)} (hsuffix : binding :: rest <:+ b.evaluated)
    (hexclusive : binding.1.isExclusive) : ∀ later ∈ rest, later.1.isPrevAccess = false := by
  have hmem : binding ∈ b.evaluated := hsuffix.subset List.mem_cons_self
  have hone := (Task.valid_exclusive_unique hvalid (exclusive_of_binding hmem hexclusive)).2
  have hprev : binding.1.isPrevAccess := by
    unfold Spec.isExclusive at hexclusive
    unfold Spec.isPrevAccess
    cases hk : binding.1.kind <;> simp_all
  have hcount : (binding :: rest).countP (fun b => b.1.isPrevAccess) ≤ 1 := by
    calc (binding :: rest).countP (fun b => b.1.isPrevAccess)
        ≤ b.evaluated.countP (fun b => b.1.isPrevAccess) := hsuffix.sublist.countP_le
      _ = task.bound.bindings.countP (fun b => b.1.isPrevAccess) :=
          b.evaluated_perm.countP_eq _
      _ = (task.bound.bindings.map Prod.fst).countP Spec.isPrevAccess := by
          rw [List.countP_map]
          rfl
      _ ≤ task.bound.allSpecs.countP Spec.isPrevAccess :=
          (BaseTask.bindings_sublist _).countP_le
      _ = 1 := hone
  have hzero : rest.countP (fun b => b.1.isPrevAccess) = 0 := by
    rw [List.countP_cons, if_pos hprev] at hcount
    omega
  intro later hlater
  have := List.countP_eq_zero.mp hzero later hlater
  simpa using this

end TaskBehaviour

/-! ## §2. What the log says. -/

/-- Copies and moves that return make an equal object. -/
structure Program.Faithful (p : Program V W) : Prop where
  copy : ∀ w v v', (p.copy w v).1 = some v' → v' = v
  move : ∀ w v v', (p.move w v).1 = some v' → v' = v

/-- The attempts of node `i`'s task among the events. -/
def attempts (i : Nat) (events : List (Event V)) : Nat :=
  events.countP fun
    | .attempted node _ => node == i
    | _ => false

/-- What holds of the log at any moment. -/
structure AccessLog (p : Program V W) (events : List (Event V)) : Prop where
  /-- A node with prev access is entered with the value its parent finished with. -/
  entries : p.Faithful → ∀ i prev before, .entered i prev :: before <:+ events →
    (p.plan.task i).usesPrevAccess → .finished (p.plan.parentIndex i) prev ∈ before
  /-- So is an argument of its first attempt. -/
  first : p.Faithful → ∀ i kind source v before,
    .resolved i kind source (some v) :: before <:+ events → attempts i before = 1 →
    .finished (p.plan.parentIndex i) (some v) ∈ before
  /-- No other node resolves the source of a consuming node entered before. -/
  consumed : ∀ i kind source arg before, .resolved i kind source arg :: before <:+ events →
    ∀ j prev, .entered j prev ∈ before → (p.plan.task j).usesConsumePrev →
      p.plan.prevSource j = some source → j = i
  /-- A consuming node resolves its source once. -/
  once : ∀ i kind source arg before, .resolved i kind source arg :: before <:+ events →
    ∀ source' arg', .resolved i .consume source' arg' ∉ before
  /-- A node finishes once, and before any later node is entered. -/
  finished : ∀ q v before, .finished q v :: before <:+ events →
    (∀ v', .finished q v' ∉ before) ∧ ∀ i prev, .entered i prev ∈ before → i ≤ q

/-- Events that are about no node's access. -/
def Event.Plain : Event V → Prop
  | .attempted _ _ | .memory _ | .violated _ => True
  | .entered _ _ | .resolved .. | .finished _ _ => False

namespace AccessLog

variable {p : Program V W} {events : List (Event V)}

theorem nil : AccessLog p ([] : List (Event V)) where
  entries _ _ _ _ h := by simp at h
  first _ _ _ _ _ _ h := by simp at h
  consumed _ _ _ _ _ h := by simp at h
  once _ _ _ _ _ h := by simp at h
  finished _ _ _ h := by simp at h

/-- An event of the log is the last one or an earlier one. -/
theorem cons {event : Event V} (h : AccessLog p events)
    (hentered : ∀ i prev, event = .entered i prev → p.Faithful →
      (p.plan.task i).usesPrevAccess → .finished (p.plan.parentIndex i) prev ∈ events)
    (hfirst : ∀ i kind source v, event = .resolved i kind source (some v) → p.Faithful →
      attempts i events = 1 → .finished (p.plan.parentIndex i) (some v) ∈ events)
    (hconsumed : ∀ i kind source arg, event = .resolved i kind source arg →
      (∀ j prev, .entered j prev ∈ events → (p.plan.task j).usesConsumePrev →
        p.plan.prevSource j = some source → j = i)
      ∧ ∀ source' arg', .resolved i .consume source' arg' ∉ events)
    (hfinished : ∀ q v, event = .finished q v →
      (∀ v', .finished q v' ∉ events) ∧ ∀ i prev, .entered i prev ∈ events → i ≤ q) :
    AccessLog p (event :: events) where
  entries hf i prev before hsuffix huses := by
    rcases List.suffix_cons_iff.mp hsuffix with heq | hsuffix
    · obtain ⟨hevent, rfl⟩ := List.cons.inj heq
      exact hentered i prev hevent.symm hf huses
    · exact h.entries hf i prev before hsuffix huses
  first hf i kind source v before hsuffix hone := by
    rcases List.suffix_cons_iff.mp hsuffix with heq | hsuffix
    · obtain ⟨hevent, rfl⟩ := List.cons.inj heq
      exact hfirst i kind source v hevent.symm hf hone
    · exact h.first hf i kind source v before hsuffix hone
  consumed i kind source arg before hsuffix := by
    rcases List.suffix_cons_iff.mp hsuffix with heq | hsuffix
    · obtain ⟨hevent, rfl⟩ := List.cons.inj heq
      exact (hconsumed i kind source arg hevent.symm).1
    · exact h.consumed i kind source arg before hsuffix
  once i kind source arg before hsuffix := by
    rcases List.suffix_cons_iff.mp hsuffix with heq | hsuffix
    · obtain ⟨hevent, rfl⟩ := List.cons.inj heq
      exact (hconsumed i kind source arg hevent.symm).2
    · exact h.once i kind source arg before hsuffix
  finished q v before hsuffix := by
    rcases List.suffix_cons_iff.mp hsuffix with heq | hsuffix
    · obtain ⟨hevent, rfl⟩ := List.cons.inj heq
      exact hfinished q v hevent.symm
    · exact h.finished q v before hsuffix

theorem plain {event : Event V} (h : AccessLog p events) (hevent : event.Plain) :
    AccessLog p (event :: events) := by
  apply h.cons
  · intro i prev heq
    subst heq
    exact absurd hevent id
  · intro i kind source v heq
    subst heq
    exact absurd hevent id
  · intro i kind source arg heq
    subst heq
    exact absurd hevent id
  · intro q v heq
    subst heq
    exact absurd hevent id

theorem memory (h : AccessLog p events) : ∀ log : List MemoryEvent,
    AccessLog p (log.map .memory ++ events)
  | [] => h
  | _ :: log => (h.memory log).plain trivial

/-- A node finishes with one value. -/
theorem finished_unique (h : AccessLog p events) {q : Nat} {v v' : Option V}
    (hv : .finished q v ∈ events) (hv' : .finished q v' ∈ events) : v = v' := by
  obtain ⟨_, before, rfl⟩ := List.append_of_mem hv
  obtain ⟨later', before', heq⟩ := List.append_of_mem hv'
  have hsuffix : .finished q v' :: before' <:+ _ ++ .finished q v :: before := ⟨later', heq.symm⟩
  rcases List.suffix_or_suffix_of_suffix hsuffix (List.suffix_append _ _) with hs | hs
  · rcases List.suffix_cons_iff.mp hs with heq | hs
    · exact (Event.finished.inj (List.cons.inj heq).1).2.symm
    · have := (h.finished q v before (List.suffix_append _ _)).1 v'
      exact absurd (hs.subset List.mem_cons_self) this
  · rcases List.suffix_cons_iff.mp hs with heq | hs
    · exact (Event.finished.inj (List.cons.inj heq).1).2
    · have := (h.finished q v' before' hsuffix).1 v
      exact absurd (hs.subset List.mem_cons_self) this

end AccessLog

/-! ## §3. Payloads on the path. -/

/-- An exclusive access from below has reached node `q`'s canonical slot. -/
def Reached (p : Program V W) (q : Nat) (events : List (Event V)) : Prop :=
  ∃ y < p.plan.nodeCount, (p.plan.task y).usesExclusivePrevAccess ∧ q ∈ (p.plan.path y).tail
    ∧ p.plan.prevSource y = some (.slot (p.plan.canonicalOutputOwnerNode q))
    ∧ ∃ live, .attempted y live ∈ events

/-- What the nodes in `live` finished with is still there, in their canonical
slots and, for those in `staged`, in their staged copies.  Nodes entered so far
are below `n`, finished ones below `k`. -/
structure Handed (p : Program V W) (staged live : List Nat) (n k : Nat)
    (m : Machine (Nat → Option V) V) : Prop where
  log : AccessLog p m.events
  entered : ∀ i prev, .entered i prev ∈ m.events → i < n
  attempted : ∀ i sink, .attempted i sink ∈ m.events → i < n
  resolved : ∀ i kind source arg, .resolved i kind source arg ∈ m.events → i < n
  finished : ∀ q v, .finished q v ∈ m.events → q < k
  done : ∀ q ∈ live, ∃ v, .finished q v ∈ m.events
  slot : ∀ q ∈ live, (p.plan.outputType q).isVoid = false → ∀ v, .finished q v ∈ m.events →
    m.slots (p.plan.canonicalOutputOwnerNode q) = v ∨ Reached p q m.events
  stage : p.Faithful → ∀ q ∈ staged, p.plan.parentRequiresFanoutStaging q →
    ∀ v, .finished q v ∈ m.events → m.stage q = v

theorem Reached.mono {p : Program V W} {q : Nat} {events events' : List (Event V)}
    (h : Reached p q events) (hsub : events ⊆ events') : Reached p q events' := by
  obtain ⟨y, hy, hexclusive, hq, hsource, live, hlive⟩ := h
  exact ⟨y, hy, hexclusive, hq, hsource, live, hsub hlive⟩

namespace Handed

variable {p : Program V W} {staged live staged' live' : List Nat} {n k n' k' i : Nat}
  {m m' : Machine (Nat → Option V) V}

/-- Fewer nodes, higher bounds. -/
theorem weaken (h : Handed p staged live n k m) (hstaged : staged' ⊆ staged)
    (hlive : live' ⊆ live) (hn : n ≤ n') (hk : k ≤ k') : Handed p staged' live' n' k' m where
  log := h.log
  entered i prev hmem := Nat.lt_of_lt_of_le (h.entered i prev hmem) hn
  attempted i sink hmem := Nat.lt_of_lt_of_le (h.attempted i sink hmem) hn
  resolved i kind source arg hmem := Nat.lt_of_lt_of_le (h.resolved i kind source arg hmem) hn
  finished q v hmem := Nat.lt_of_lt_of_le (h.finished q v hmem) hk
  done q hq := h.done q (hlive hq)
  slot q hq := h.slot q (hlive hq)
  stage hf q hq := h.stage hf q (hstaged hq)

/-- Another event that is not the end of a task. -/
theorem record (h : Handed p staged live n k m) {event : Event V}
    (hlog : AccessLog p (event :: m.events))
    (hentered : ∀ i prev, event = .entered i prev → i < n)
    (hattempted : ∀ i sink, event = .attempted i sink → i < n)
    (hresolved : ∀ i kind source arg, event = .resolved i kind source arg → i < n)
    (hfinished : ∀ q v, event ≠ .finished q v) : Handed p staged live n k (m.record event) where
  log := hlog
  entered i prev hmem := by
    rcases List.mem_cons.mp hmem with heq | hmem
    · exact hentered i prev heq.symm
    · exact h.entered i prev hmem
  attempted i sink hmem := by
    rcases List.mem_cons.mp hmem with heq | hmem
    · exact hattempted i sink heq.symm
    · exact h.attempted i sink hmem
  resolved i kind source arg hmem := by
    rcases List.mem_cons.mp hmem with heq | hmem
    · exact hresolved i kind source arg heq.symm
    · exact h.resolved i kind source arg hmem
  finished q v hmem := h.finished q v ((List.mem_cons.mp hmem).resolve_left
    fun heq => hfinished q v heq.symm)
  done q hq := by
    obtain ⟨v, hv⟩ := h.done q hq
    exact ⟨v, List.mem_cons_of_mem _ hv⟩
  slot q hq hvoid v hmem := by
    have hmem := (List.mem_cons.mp hmem).resolve_left fun heq => hfinished q v heq.symm
    exact (h.slot q hq hvoid v hmem).imp_right fun hreached =>
      hreached.mono (List.subset_cons_self _ _)
  stage hf q hq hstaging v hmem := by
    have hmem := (List.mem_cons.mp hmem).resolve_left fun heq => hfinished q v heq.symm
    exact h.stage hf q hq hstaging v hmem

/-- Other slots and other copies, the same events but for memory. -/
theorem change (h : Handed p staged live n k m) {log : List MemoryEvent}
    (hevents : m'.events = log.map .memory ++ m.events)
    (hslots : ∀ q ∈ live, (p.plan.outputType q).isVoid = false →
      m'.slots (p.plan.canonicalOutputOwnerNode q) = m.slots (p.plan.canonicalOutputOwnerNode q)
        ∨ Reached p q m.events)
    (hstage : ∀ q ∈ staged, m'.stage q = m.stage q) : Handed p staged live n k m' := by
  -- but for memory events, both logs hold the same
  have hmem : ∀ {event : Event V}, (∀ e, event ≠ .memory e) →
      (event ∈ m'.events ↔ event ∈ m.events) := by
    intro event hevent
    rw [hevents, List.mem_append]
    refine or_iff_right ?_
    intro hmem
    obtain ⟨e, -, heq⟩ := List.mem_map.mp hmem
    exact hevent e heq.symm
  refine ⟨?_, ?_, ?_, ?_, ?_, ?_, ?_, ?_⟩
  · rw [hevents]
    exact h.log.memory log
  · exact fun i prev h' => h.entered i prev ((hmem (by nofun)).mp h')
  · exact fun i sink h' => h.attempted i sink ((hmem (by nofun)).mp h')
  · exact fun i kind source arg h' => h.resolved i kind source arg ((hmem (by nofun)).mp h')
  · exact fun q v h' => h.finished q v ((hmem (by nofun)).mp h')
  · intro q hq
    obtain ⟨v, hv⟩ := h.done q hq
    exact ⟨v, (hmem (by nofun)).mpr hv⟩
  · intro q hq hvoid v hv
    have hsub : m.events ⊆ m'.events := by
      rw [hevents]
      exact List.subset_append_right _ _
    rcases h.slot q hq hvoid v ((hmem (by nofun)).mp hv) with hslot | hreached
    · rcases hslots q hq hvoid with heq | hreached
      · exact Or.inl (heq.trans hslot)
      · exact Or.inr (hreached.mono hsub)
    · exact Or.inr (hreached.mono hsub)
  · intro hf q hq hstaging v hv
    rw [hstage q hq]
    exact h.stage hf q hq hstaging v ((hmem (by nofun)).mp hv)

/-- An event of another kind than those the log has something to say about. -/
theorem plain (h : Handed p staged live n k m) {event : Event V} (hevent : event.Plain)
    (hattempted : ∀ i sink, event = .attempted i sink → i < n) :
    Handed p staged live n k (m.record event) := by
  apply h.record (h.log.plain hevent) _ hattempted
  · intro i kind source arg heq
    subst heq
    exact absurd hevent id
  · intro q v heq
    subst heq
    exact absurd hevent id
  · intro i prev heq
    subst heq
    exact absurd hevent id

/-- The nodes above `i` keep their payloads elsewhere. -/
theorem owner_above (hi : i < p.plan.nodeCount) {q : Nat} (hq : q ∈ (p.plan.path i).tail)
    (hvoid : (p.plan.outputType q).isVoid = false) : p.plan.canonicalOutputOwnerNode q ≠ i := by
  have hne : q ≠ i := fun hqi => Agree.not_mem_tail hi (hqi ▸ hq)
  have hle := p.plan.mem_path_le hi (Agree.tail_subset _ i hq)
  have hown := ValidPlan.owner_le (Nat.lt_of_le_of_lt hle hi) hvoid
  omega

/-- An operation on node `i`'s slot. -/
theorem onSlots (h : Handed p staged (p.plan.path i).tail n k m) (hi : i < p.plan.nodeCount)
    {op : (Nat → Option V) → List MemoryEvent × (Nat → Option V)}
    (hop : ∀ j, j ≠ i → (op m.slots).2 j = m.slots j) :
    Handed p staged (p.plan.path i).tail n k (m.onSlots op) :=
  h.change (m.onSlots_events op)
    (fun _ hq hvoid => Or.inl (hop _ (owner_above hi hq hvoid))) fun _ _ => rfl

/-- Writing to the object an exclusive access is bound to. -/
theorem writePrev (h : Handed p staged (p.plan.path i).tail n k m) (hi : i < p.plan.nodeCount)
    (hexclusive : (p.plan.task i).usesExclusivePrevAccess)
    (hattempted : ∃ sink, .attempted i sink ∈ m.events) (v : V) :
    Handed p staged (p.plan.path i).tail n k
      (writePrev (idealSlots p.plan.toCompiledPlan V) p i v m) := by
  have hevents : (YOrch.writePrev (idealSlots p.plan.toCompiledPlan V) p i v m).events
      = ([] : List MemoryEvent).map .memory ++ m.events := writePrev_events ..
  apply h.change hevents
  · intro q hq hvoid
    unfold YOrch.writePrev
    cases hsource : p.plan.prevSource i with
    | none => exact Or.inl rfl
    | some source =>
        cases source with
        | stage r => exact Or.inl rfl
        | slot o =>
            obtain ⟨-, -, ho⟩ := ValidPlan.parent_of_source hi hsource
            by_cases howner : p.plan.canonicalOutputOwnerNode q = o
            · -- the write is an access from below
              refine Or.inr ⟨i, hi, hexclusive, hq, ?_, hattempted⟩
              rw [hsource, howner]
            · refine Or.inl ?_
              dsimp only
              split
              · show Function.update m.slots _ _ _ = _
                rw [ho, Function.update_of_ne howner]
              · rfl
  · intro q _
    rw [writePrev_stage]

/-- Whatever the callable wrote through a mutable reference. -/
theorem writeBack (h : Handed p staged (p.plan.path i).tail n k m) (hi : i < p.plan.nodeCount)
    (hattempted : ∃ sink, .attempted i sink ∈ m.events) (written : Option V) :
    Handed p staged (p.plan.path i).tail n k
      (writeBack (idealSlots p.plan.toCompiledPlan V) p i written m) := by
  unfold YOrch.writeBack
  cases written with
  | none => exact h
  | some v =>
      dsimp only
      split
      · next hwritable =>
          obtain ⟨binding, hmem, hbinding⟩ := List.any_eq_true.mp hwritable
          exact h.writePrev hi (TaskBehaviour.exclusive_of_binding hmem
            (TaskBehaviour.exclusive_of_writable hbinding)) hattempted v
      · exact h

/-- Before node `i` is entered, the slot its view is bound to holds what its
parent finished with. -/
theorem reads_slot (h : Handed p staged live n k m) (hi : i < p.plan.nodeCount) (hn : n ≤ i)
    (huses : (p.plan.task i).usesPrevAccess) {o : Nat}
    (hsource : p.plan.prevSource i = some (.slot o)) (hparent : p.plan.parentIndex i ∈ live)
    {v : Option V} (hv : .finished (p.plan.parentIndex i) v ∈ m.events) : m.slots o = v := by
  obtain ⟨hpos, hvoid⟩ := ValidPlan.parent_output hi huses
  obtain ⟨-, -, howner⟩ := ValidPlan.parent_of_source hi hsource
  rcases h.slot _ hparent hvoid v hv with hslot | hreached
  · rw [← howner]
    exact hslot
  · -- an access from below would have had to be entered before `i`
    obtain ⟨y, hy, hexclusive, hbelow, hysource, sink, hsink⟩ := hreached
    have hlt := Nat.lt_of_lt_of_le (h.attempted y sink hsink) hn
    rw [howner] at hysource
    have halias := ValidPlan.exclusive_alias hy hi (Nat.ne_of_lt hlt) hexclusive huses
      hysource hsource
    rcases halias with ⟨hmem, -⟩ | ⟨hmem, -⟩
    · rw [p.plan.path_of_pos hpos hi] at hmem
      have hyq := p.plan.mem_path_le (Nat.lt_trans (p.plan.parentIndex_lt hpos hi) hi)
        ((List.mem_cons.mp hmem).resolve_left (Nat.ne_of_lt hlt))
      have hle := p.plan.mem_path_le hy (Agree.tail_subset _ y hbelow)
      exact absurd (Nat.le_antisymm hle hyq ▸ hbelow) (Agree.not_mem_tail hy)
    · exact absurd (p.plan.mem_path_le hy hmem) (Nat.not_le.mpr hlt)

/-- **What a child finds.**  Before node `i` is entered, its view is of an object
that holds what its parent finished with. -/
theorem reads_parent (h : Handed p (p.plan.path i).tail (p.plan.path i).tail i k m)
    (hi : i < p.plan.nodeCount) (hf : p.Faithful) (huses : (p.plan.task i).usesPrevAccess) :
    .finished (p.plan.parentIndex i)
      (readPrev (idealSlots p.plan.toCompiledPlan V) p i m) ∈ m.events := by
  obtain ⟨hpos, hvoid⟩ := ValidPlan.parent_output hi huses
  have hpath := p.plan.path_of_pos hpos hi
  have hparent : p.plan.parentIndex i ∈ (p.plan.path i).tail := by
    rw [hpath]
    exact p.plan.self_mem_path _
  obtain ⟨v, hv⟩ := h.done _ hparent
  have hsource := ValidPlan.prevSource_eq hi huses
  cases hstaged : p.plan.nodeUsesStagedCopyPrev i with
  | true =>
      -- the staged copy is the parent's own and nobody else writes to it
      have hstaging : p.plan.parentRequiresFanoutStaging (p.plan.parentIndex i) := by
        rw [CompiledPlan.nodeUsesStagedCopyPrev, if_neg (ValidPlan.parentIndex_ne hpos hi),
          Bool.and_eq_true] at hstaged
        exact hstaged.1
      rw [hstaged, if_pos rfl] at hsource
      rw [readPrev_stage _ _ hsource, h.stage hf _ hparent hstaging v hv]
      exact hv
  | false =>
      rw [hstaged, if_neg (by simp)] at hsource
      rw [readPrev_slot _ _ hsource]
      show Event.finished _ (m.slots _) ∈ _
      rw [h.reads_slot hi (Nat.le_refl i) huses hsource hparent hv]
      exact hv

/-- Node `i`'s task has succeeded. -/
theorem finish (h : Handed p (p.plan.path i).tail (p.plan.path i).tail (i + 1) i m)
    (hi : i < p.plan.nodeCount) :
    Handed p (p.plan.path i).tail (p.plan.path i) (i + 1) (i + 1)
      (finishNode (idealSlots p.plan.toCompiledPlan V) p i m) := by
  -- the one new event is `i`'s own finish, and `i` had not finished before
  have hnew : ∀ {q : Nat} {v : Option V}, q ≠ i →
      (.finished q v ∈ (finishNode (idealSlots p.plan.toCompiledPlan V) p i m).events
        ↔ .finished q v ∈ m.events) := by
    intro q v hq
    refine List.mem_cons.trans (or_iff_right ?_)
    intro heq
    exact hq (Event.finished.inj heq).1
  have hself : ∀ {v : Option V},
      .finished i v ∈ (finishNode (idealSlots p.plan.toCompiledPlan V) p i m).events →
      v = nodeOutput (idealSlots p.plan.toCompiledPlan V) p i m := by
    intro v hv
    rcases List.mem_cons.mp hv with heq | hv
    · exact (Event.finished.inj heq).2
    · exact absurd (h.finished i v hv) (Nat.lt_irrefl i)
  refine ⟨?_, ?_, ?_, ?_, ?_, ?_, ?_, ?_⟩
  · apply h.log.cons (by nofun) (by nofun) (by nofun)
    intro q v heq
    obtain ⟨rfl, -⟩ := Event.finished.inj heq
    refine ⟨fun v' hv' => absurd (h.finished i v' hv') (Nat.lt_irrefl i), ?_⟩
    intro j prev hj
    exact Nat.lt_succ_iff.mp (h.entered j prev hj)
  · exact fun j prev hj => h.entered j prev ((List.mem_cons.mp hj).resolve_left (by nofun))
  · exact fun j sink hj => h.attempted j sink ((List.mem_cons.mp hj).resolve_left (by nofun))
  · exact fun j kind source arg hj =>
      h.resolved j kind source arg ((List.mem_cons.mp hj).resolve_left (by nofun))
  · intro q v hv
    by_cases hq : q = i
    · rw [hq]
      exact Nat.lt_succ_self i
    · exact Nat.lt_succ_of_lt (h.finished q v ((hnew hq).mp hv))
  · intro q hq
    by_cases hqi : q = i
    · subst hqi
      exact ⟨_, List.mem_cons_self⟩
    · obtain ⟨v, hv⟩ := h.done q (ValidPlan.mem_tail_path hq hqi)
      exact ⟨v, (hnew hqi).mpr hv⟩
  · intro q hq hvoid v hv
    by_cases hqi : q = i
    · subst hqi
      -- what `i` finishes with is read from the slot it leaves behind
      refine Or.inl ?_
      rw [hself hv, nodeOutput, hvoid]
      rfl
    · have hslot := h.slot q (ValidPlan.mem_tail_path hq hqi) hvoid v ((hnew hqi).mp hv)
      exact hslot.imp_right fun hreached => hreached.mono (List.subset_cons_self _ _)
  · intro hf q hq hstaging v hv
    have hqi : q ≠ i := fun hqi => Agree.not_mem_tail hi (hqi ▸ hq)
    exact h.stage hf q hq hstaging v ((hnew hqi).mp hv)

end Handed

/-! ## §4. One node. -/

section Node

variable {p : Program V W} {i : Nat} {m : Machine (Nat → Option V) V}

/-- Node `i`'s view is of an object that holds what its parent finished with. -/
def Reads (p : Program V W) (i : Nat) (m : Machine (Nat → Option V) V) : Prop :=
  p.Faithful → (p.plan.task i).usesPrevAccess →
    .finished (p.plan.parentIndex i) (readPrev (idealSlots p.plan.toCompiledPlan V) p i m)
      ∈ m.events

/-- Node `i` has resolved a consuming access. -/
def Consumed (i : Nat) (events : List (Event V)) : Prop :=
  ∃ source arg, .resolved i .consume source arg ∈ events

theorem attempts_attempted (i : Nat) (sink : Option Bool) (events : List (Event V)) :
    attempts i (.attempted i sink :: events) = attempts i events + 1 := by
  simp [attempts]

theorem attempts_cons {event : Event V} (h : ∀ i sink, event ≠ .attempted i sink) (i : Nat)
    (events : List (Event V)) : attempts i (event :: events) = attempts i events := by
  unfold attempts
  rw [List.countP_cons_of_neg]
  cases event with
  | attempted j sink => exact absurd rfl (h j sink)
  | _ => simp

theorem attempts_memory (i : Nat) (log : List MemoryEvent) (events : List (Event V)) :
    attempts i (log.map .memory ++ events) = attempts i events := by
  induction log with
  | nil => rfl
  | cons e log ih => exact (attempts_cons (by nofun) i _).trans ih

theorem attempted_of_attempts {events : List (Event V)} (h : attempts i events ≠ 0) :
    ∃ sink, .attempted i sink ∈ events := by
  obtain ⟨event, hmem, hevent⟩ := List.countP_pos_iff.mp (Nat.pos_of_ne_zero h)
  cases event with
  | attempted j sink =>
      obtain rfl : j = i := by simpa using hevent
      exact ⟨sink, hmem⟩
  | _ => cases hevent

theorem consumed_memory (log : List MemoryEvent) (events : List (Event V)) :
    Consumed i (log.map .memory ++ events) ↔ Consumed i events := by
  simp [Consumed]

/-- An argument under faithful copies and moves. -/
theorem Program.Faithful.resolvePrev (hf : p.Faithful) {binding : Spec × CppType} {v v' left : V}
    {w w' : W} (h : p.resolvePrev binding v w = (some v', left, w')) : v' = v := by
  unfold Program.resolvePrev at h
  split at h
  · exact hf.copy w v v' (Prod.mk.inj h).1
  · split at h
    · exact (Option.some.inj (Prod.mk.inj h).1).symm
    · exact hf.move w v v' (congrArg Prod.fst h)
  all_goals exact (Option.some.inj (Prod.mk.inj h).1).symm

/-- None of the bindings left reads the parent. -/
def NoPrev (rest : List (Spec × CppType)) : Prop := ∀ binding ∈ rest, binding.1.isPrevAccess = false

/-- What is known of node `i`'s accesses in each phase of its entry. -/
def AccessPhase (p : Program V W) (i : Nat) (phase : Phase V W)
    (m : Machine (Nat → Option V) V) : Prop :=
  Handed p (p.plan.path i).tail (p.plan.path i).tail (i + 1) i m ∧
    match phase with
    | .ready => (attempts i m.events = 0 → Reads p i m) ∧ ¬ Consumed i m.events
    | .evaluating rest => attempts i m.events ≠ 0 ∧ rest <:+ (p.behaviour i).evaluated
        ∧ (attempts i m.events = 1 → Reads p i m ∨ NoPrev rest)
        ∧ (Consumed i m.events → (p.plan.task i).usesConsumePrev ∧ NoPrev rest)
    | .sinking _ | .tried => attempts i m.events ≠ 0
        ∧ (Consumed i m.events → (p.plan.task i).usesConsumePrev)

/-- Node `i` resolves a binding. -/
theorem AccessPhase.resolve (hi : i < p.plan.nodeCount) {binding : Spec × CppType}
    {rest : List (Spec × CppType)} {source : PrevSource} {v left : V} {arg : Option V} {w w' : W}
    (hprev : binding.1.isPrevAccess)
    (h : AccessPhase p i (.evaluating (binding :: rest)) m)
    (hsource : p.plan.prevSource i = some source)
    (hread : readPrev (idealSlots p.plan.toCompiledPlan V) p i m = some v)
    (harg : p.resolvePrev binding v w = (arg, left, w')) :
    AccessPhase p i (.evaluating rest)
      (resolveStep (idealSlots p.plan.toCompiledPlan V) p i binding source arg left m) := by
  obtain ⟨hhanded, hattempts, hsuffix, hfirst, hconsumed⟩ := h
  have hmem : binding ∈ (p.behaviour i).evaluated := hsuffix.subset List.mem_cons_self
  have huses := TaskBehaviour.uses_of_binding hmem hprev
  have hvalid := ValidPlan.prevAccessValid hi
  have hnot : ¬ NoPrev (binding :: rest) := by
    intro hno
    rw [hno binding List.mem_cons_self] at hprev
    cases hprev
  have hlog : AccessLog p (.resolved i binding.1.kind source arg :: m.events) := by
    apply hhanded.log.cons (by nofun) _ _ (by nofun)
    · -- the first attempt reads what the parent handed over
      intro j kind source' v' heq hf hone
      obtain ⟨rfl, -, -, rfl⟩ := Event.resolved.inj heq
      have hreads := (hfirst hone).resolve_right hnot hf huses
      rw [hread] at hreads
      rw [hf.resolvePrev harg]
      exact hreads
    · intro j kind source' arg' heq
      obtain ⟨rfl, -, rfl, -⟩ := Event.resolved.inj heq
      refine ⟨fun y prev hy hconsume hysource => ?_, fun source' arg' hbefore => ?_⟩
      · -- a consuming node shares its source with nodes below a forwarding one only
        by_contra hne
        have hlt : y < i := by
          have := hhanded.entered y prev hy
          omega
        have hyn := Nat.lt_trans hlt hi
        have hexclusive := Task.consume_exclusive hconsume
        have hslot := ValidPlan.prevSource_eq hyn (Task.exclusive_uses hexclusive)
        rw [ValidPlan.exclusive_not_staged hexclusive, if_neg (by simp), hysource] at hslot
        rw [Option.some.inj hslot] at hysource hsource
        rcases ValidPlan.exclusive_alias hyn hi hne hexclusive huses hysource hsource with
          ⟨-, hforward⟩ | ⟨hmem, -⟩
        · rw [(ValidPlan.forward_exclusive hyn hforward).2] at hconsume
          cases hconsume
        · exact absurd (p.plan.mem_path_le hyn hmem) (Nat.not_le.mpr hlt)
      · exact hnot (hconsumed ⟨source', arg', hbefore⟩).2
  have hrecord : Handed p (p.plan.path i).tail (p.plan.path i).tail (i + 1) i
      (m.record (.resolved i binding.1.kind source arg)) := by
    apply hhanded.record hlog (by nofun) (by nofun) _ (by nofun)
    intro j kind source' arg' heq
    rw [← (Event.resolved.inj heq).1]
    exact Nat.lt_succ_self i
  have hcount : attempts i (.resolved i binding.1.kind source arg :: m.events)
      = attempts i m.events := attempts_cons (by nofun) i _
  refine ⟨?_, ?_, (List.suffix_cons _ _).trans hsuffix, ?_, ?_⟩
  · unfold resolveStep
    dsimp only
    split
    · next hexclusive =>
        apply hrecord.writePrev hi (TaskBehaviour.exclusive_of_binding hmem hexclusive)
        obtain ⟨sink, hsink⟩ := attempted_of_attempts hattempts
        exact ⟨sink, List.mem_cons_of_mem _ hsink⟩
    · exact hrecord
  · rw [resolveStep_events, hcount]
    exact hattempts
  · -- an exclusive access is the last one, any other leaves the parent's payload
    rw [resolveStep_events, hcount]
    intro hone
    by_cases hexclusive : binding.1.isExclusive
    · exact Or.inr (TaskBehaviour.none_after_exclusive hvalid hsuffix hexclusive)
    · -- nothing was written
      refine Or.inl fun hf huses => ?_
      unfold resolveStep
      rw [if_neg hexclusive]
      exact List.mem_cons_of_mem _ ((hfirst hone).resolve_right hnot hf huses)
  · rw [resolveStep_events]
    intro hresolved
    obtain ⟨source', arg', hmem'⟩ := hresolved
    rcases List.mem_cons.mp hmem' with heq | hbefore
    · obtain ⟨-, hkind, -, -⟩ := Event.resolved.inj heq
      refine ⟨TaskBehaviour.consume_of_binding hmem hkind.symm, ?_⟩
      apply TaskBehaviour.none_after_exclusive hvalid hsuffix
      rw [Spec.isExclusive, ← hkind]
      rfl
    · exact absurd (hconsumed ⟨source', arg', hbefore⟩).2 hnot

/-- An operation on node `i`'s slot after its attempts began. -/
theorem AccessPhase.onSlots (hi : i < p.plan.nodeCount)
    {op : (Nat → Option V) → List MemoryEvent × (Nat → Option V)}
    (hop : ∀ j, j ≠ i → (op m.slots).2 j = m.slots j) (h : AccessPhase p i .tried m) :
    AccessPhase p i .tried (m.onSlots op) := by
  refine ⟨h.1.onSlots hi hop, ?_, ?_⟩
  · rw [Machine.onSlots_events, attempts_memory]
    exact h.2.1
  · rw [Machine.onSlots_events, consumed_memory]
    exact h.2.2

theorem idealEmplace_other {v : V} {f : Nat → Option V} (j : Nat) (hj : j ≠ i) :
    (idealEmplace i v f).2 j = f j :=
  Function.update_of_ne hj ..

theorem idealDestroy_other {f : Nat → Option V} (j : Nat) (hj : j ≠ i) :
    (idealDestroy i f).2 j = f j := by
  rw [idealDestroy_slots, Function.update_of_ne hj]

/-- Violations do not concern accesses. -/
theorem AccessPhase.violate (violation : Violation) (h : AccessPhase p i .tried m) :
    AccessPhase p i .tried (m.violate violation) := by
  refine ⟨h.1.plain trivial (by nofun), ?_, fun hconsumed => h.2.2 ?_⟩
  · rw [Machine.violate_events, attempts_cons (by nofun)]
    exact h.2.1
  · obtain ⟨source, arg, hmem⟩ := hconsumed
    exact ⟨source, arg, (List.mem_cons.mp hmem).resolve_left (by nofun)⟩

theorem AccessPhase.writeBack (hi : i < p.plan.nodeCount) (written : Option V)
    (h : AccessPhase p i .tried m) : AccessPhase p i .tried
      (writeBack (idealSlots p.plan.toCompiledPlan V) p i written m) := by
  refine ⟨h.1.writeBack hi (attempted_of_attempts h.2.1) written, ?_, ?_⟩
  · rw [writeBack_events]
    exact h.2.1
  · rw [writeBack_events]
    exact h.2.2

theorem AccessPhase.emplaceSink (hi : i < p.plan.nodeCount) (payload : Option V)
    (h : AccessPhase p i .tried m) : AccessPhase p i .tried
      (emplaceSink (idealSlots p.plan.toCompiledPlan V) i payload m) := by
  cases payload with
  | none => exact h
  | some v => exact h.onSlots hi idealEmplace_other

/-- **The accesses of one node.** -/
theorem access_triple (hi : i < p.plan.nodeCount) :
    EnterTriple (idealSlots p.plan.toCompiledPlan V) p i
      (fun s => Handed p (p.plan.path i).tail (p.plan.path i).tail i i s.1)
      (fun s => Handed p (p.plan.path i).tail (p.plan.path i) (i + 1) (i + 1) s.1)
      (fun s => Handed p (p.plan.path i).tail (p.plan.path i).tail (i + 1) (i + 1) s.1)
      (fun phase s => AccessPhase p i phase s.1) (fun s => AccessLog p s.1.events) where
  world phase s w hs := hs
  halts phase s hs := hs.1.log
  violate phase violation s _ hs := hs.1.log.plain trivial
  attempt s hs := by
    obtain ⟨hhanded, hfirst, hnot⟩ := hs
    refine ⟨hhanded.plain trivial ?_, ?_, List.suffix_refl _, ?_, ?_⟩
    · intro j sink heq
      rw [← (Event.attempted.inj heq).1]
      exact Nat.lt_succ_self i
    · show attempts i (_ :: _) ≠ 0
      rw [attempts_attempted]
      exact Nat.succ_ne_zero _
    · -- the first attempt sees the slots as they were on entry
      show attempts i (_ :: _) = 1 → _
      rw [attempts_attempted]
      intro hone
      exact Or.inl fun hf huses => List.mem_cons_of_mem _ (hfirst (by omega) hf huses)
    · intro hconsumed
      obtain ⟨source, arg, hmem⟩ := hconsumed
      exact absurd ⟨source, arg, (List.mem_cons.mp hmem).resolve_left (by nofun)⟩ hnot
  abandon rest s hs := ⟨hs.1, hs.2.1, fun hconsumed => (hs.2.2.2.2 hconsumed).1⟩
  skip binding rest s _ hs := by
    obtain ⟨hhanded, hattempts, hsuffix, hfirst, hconsumed⟩ := hs
    have hrest : NoPrev (binding :: rest) → NoPrev rest :=
      fun hno b hb => hno b (List.mem_cons_of_mem _ hb)
    exact ⟨hhanded, hattempts, (List.suffix_cons _ _).trans hsuffix,
      fun hone => (hfirst hone).imp_right hrest, fun hc => (hconsumed hc).imp_right hrest⟩
  resolve binding rest s source v arg left w hprev hs hsource hread harg :=
    hs.resolve hi hprev hsource hread harg
  write written s _ hs := by
    have htried : AccessPhase p i .tried s.1 :=
      ⟨hs.1, hs.2.1, fun hconsumed => (hs.2.2.2.2 hconsumed).1⟩
    exact htried.writeBack hi written
  sink args w s _ hs := ⟨hs.1, hs.2.1, fun hconsumed => (hs.2.2.2.2 hconsumed).1⟩
  sinkHasValue next s hs := hs
  sinkEmplace payload next s hs := by
    have htried : AccessPhase p i .tried s.1 := hs
    have hviolate := htried.violate (.emplaceOverLive i)
    exact ⟨fun _ => htried.emplaceSink hi payload,
      fun _ => ⟨hviolate.emplaceSink hi payload, hviolate.1.log⟩⟩
  sinkDestroy next s hs := by
    have htried : AccessPhase p i .tried s.1 := hs
    exact htried.onSlots hi idealDestroy_other
  sinkFinish exit written world s hs := by
    have htried : AccessPhase p i .tried s.1 := hs
    exact htried.writeBack hi written
  -- a task that consumes its parent's payload may not be retried
  again s _ hretry hs := by
    refine ⟨hs.1, fun hzero => absurd hzero hs.2.1, fun hconsumed => hretry ?_⟩
    exact Task.valid_consume_no_retry (ValidPlan.prevAccessValid hi) (hs.2.2 hconsumed)
  cleanUp s _ hretry hs := by
    have htried : AccessPhase p i .tried s.1 := hs
    have hclean : AccessPhase p i .tried
        (cleanUpSink (idealSlots p.plan.toCompiledPlan V) i s.1) := by
      unfold cleanUpSink
      split
      · exact htried.onSlots hi idealDestroy_other
      · exact htried
    refine ⟨hclean.1, fun hzero => absurd hzero hclean.2.1, fun hconsumed => hretry ?_⟩
    exact Task.valid_consume_no_retry (ValidPlan.prevAccessValid hi) (hclean.2.2 hconsumed)
  enter s hs := by
    have hlog : AccessLog p (.entered i
        (readPrev (idealSlots p.plan.toCompiledPlan V) p i s.1) :: s.1.events) := by
      apply hs.log.cons _ (by nofun) (by nofun) (by nofun)
      intro j prev heq hf huses
      obtain ⟨rfl, rfl⟩ := Event.entered.inj heq
      exact hs.reads_parent hi hf huses
    have hwider : Handed p (p.plan.path i).tail (p.plan.path i).tail (i + 1) i s.1 :=
      hs.weaken (List.Subset.refl _) (List.Subset.refl _) (Nat.le_succ i) (Nat.le_refl i)
    refine ⟨hwider.record hlog ?_ (by nofun) (by nofun) (by nofun), ?_, ?_⟩
    · intro j prev heq
      rw [← (Event.entered.inj heq).1]
      exact Nat.lt_succ_self i
    · intro _ hf huses
      exact List.mem_cons_of_mem _ (hs.reads_parent hi hf huses)
    · -- nothing is resolved for `i` before it is entered
      intro hconsumed
      obtain ⟨source, arg, hmem⟩ := hconsumed
      have hbefore := (List.mem_cons.mp hmem).resolve_left (by nofun)
      exact Nat.lt_irrefl i (hs.resolved i _ source arg hbefore)
  finish s _ hs _ := hs.1.finish hi
  finishMissing s _ hs _ := (hs.violate (.missingOutput i)).1.finish hi
  failInto s hinto hs := by
    rw [idealSlots_onDestroy hi (ValidPlan.payloadNode_of_direct hinto)]
    exact (hs.onSlots hi idealDestroy_other).1.weaken (List.Subset.refl _) (List.Subset.refl _)
      (Nat.le_refl _) (Nat.le_succ i)
  store v s _ _ hs := (hs.onSlots hi idealEmplace_other).1.finish hi
  pass s _ _ hs := hs.1.finish hi
  fail s _ hs := hs.1.weaken (List.Subset.refl _) (List.Subset.refl _) (Nat.le_refl _)
    (Nat.le_succ i)

/-! ## §5. Whole runs. -/

/-- A copy of node `i`'s payload is staged. -/
theorem Handed.emplaceStage
    (h : Handed p (p.plan.path i).tail (p.plan.path i) (i + 1) (i + 1) m)
    (hi : i < p.plan.nodeCount) (hstaging : p.plan.parentRequiresFanoutStaging i)
    {v v' : V} {w : W}
    (hget : (idealSlots p.plan.toCompiledPlan V).get i m.slots = some v)
    (hcopy : (p.copy w v).1 = some v') :
    Handed p (p.plan.path i) (p.plan.path i) (i + 1) (i + 1) (m.emplaceStage i v') := by
  have htail : Handed p (p.plan.path i).tail (p.plan.path i) (i + 1) (i + 1)
      (m.emplaceStage i v') := by
    have hevents : (m.emplaceStage i v').events
        = ([.constructed (.stage i) ((m.stage i).map fun _ => .stage i)] : List MemoryEvent).map
          .memory ++ m.events := rfl
    apply h.change hevents (fun _ _ _ => Or.inl rfl)
    intro q hq
    exact Function.update_of_ne (fun hqi : q = i => Agree.not_mem_tail hi (hqi ▸ hq)) ..
  refine { htail with stage := fun hf q hq hstaging' v'' hv'' => ?_ }
  by_cases hqi : q = i
  · subst hqi
    have hold := (List.mem_cons.mp hv'').resolve_left (by nofun)
    show Function.update m.stage q (some v') q = v''
    rw [Function.update_self, hf.copy w v v' hcopy, ← hget]
    -- nothing below `q` has been entered yet
    refine (h.slot q hq (ValidPlan.output_of_staging hi hstaging) v'' hold).resolve_right ?_
    intro hreached
    obtain ⟨y, hy, -, hbelow, -, sink, hsink⟩ := hreached
    have hlt := h.attempted y sink hsink
    have hle := p.plan.mem_path_le hy (Agree.tail_subset _ y hbelow)
    have hyq : q = y := by omega
    exact Agree.not_mem_tail hy (hyq ▸ hbelow)
  · exact htail.stage hf q (ValidPlan.mem_tail_path hq hqi) hstaging' v'' hv''

/-- **The accesses of a traversal.** -/
theorem access_run (p : Program V W) (fuel : Nat) :
    RunTriple p.plan.toPlanShape p.plan.payloadNode
      (nodeOps (idealSlots p.plan.toCompiledPlan V) p fuel)
      (fun P n s => Handed p P P n n s.1) (fun P n s => Handed p P.tail P n n s.1)
      (fun s => AccessLog p s.1.events) (fun s => AccessLog p s.1.events) where
  enter i hi := (access_triple hi).enterNode hi fuel
  stage i hi hstaging := stageFanout_triple (fun _ _ hs => hs) (fun _ hs => hs.log.plain trivial)
    fun s v w v' hs hget hcopy => hs.emplaceStage hi hstaging hget hcopy
  unstaged i hi hstaging n s := by
    constructor
    · -- a node without staging is not among those that promise a copy
      intro hs
      refine { hs with stage := fun hf q hq hstaging' => ?_ }
      exact hs.stage hf q (ValidPlan.mem_tail_of_staging hstaging hq hstaging') hstaging'
    · exact fun hs => hs.weaken (Agree.tail_subset _ i) (List.Subset.refl _) (Nat.le_refl n)
        (Nat.le_refl n)
  unstage i hi _ n s hs := by
    -- first node `i` is taken off the list, then its copy goes
    have htail := hs.weaken (Agree.tail_subset _ i) (List.Subset.refl _) (Nat.le_refl n)
      (Nat.le_refl n)
    obtain ⟨log, hevents, -⟩ := s.1.destroyStage_memory i
    apply htail.change hevents
    · intro q _ _
      show (s.1.destroyStage i).slots _ = _ ∨ _
      rw [Machine.destroyStage_slots]
      exact Or.inl rfl
    · intro q hq
      show (s.1.destroyStage i).stage q = _
      rw [Machine.destroyStage_stage,
        Function.update_of_ne fun hqi : q = i => Agree.not_mem_tail hi (hqi ▸ hq)]
  destroy i hi hpayload n s hs := by
    show Handed p _ _ n n (s.1.onSlots ((idealSlots p.plan.toCompiledPlan V).destroy i))
    rw [idealSlots_onDestroy hi hpayload]
    exact (hs.weaken (List.Subset.refl _) (Agree.tail_subset _ i) (Nat.le_refl n)
      (Nat.le_refl n)).onSlots hi idealDestroy_other
  leave i hi _ n s hs := hs.weaken (List.Subset.refl _) (Agree.tail_subset _ i) (Nat.le_refl n)
    (Nat.le_refl n)
  later P n m s hnm hs := hs.weaken (List.Subset.refl _) (List.Subset.refl _) hnm hnm
  laterEntered P n m s hnm hs := hs.weaken (List.Subset.refl _) (List.Subset.refl _) hnm hnm
  abandon P n s hs := hs.log
  abandonEntered P n s hs := hs.log

/-- Before a run nothing has been handed over. -/
theorem Handed.start (p : Program V W) :
    Handed p [] [] 0 0 ({ slots := fun _ => none } : Machine (Nat → Option V) V) where
  log := .nil
  entered _ _ h := absurd h List.not_mem_nil
  attempted _ _ h := absurd h List.not_mem_nil
  resolved _ _ _ _ h := absurd h List.not_mem_nil
  finished _ _ h := absurd h List.not_mem_nil
  done _ h := absurd h List.not_mem_nil
  slot _ h := absurd h List.not_mem_nil
  stage _ _ h := absurd h List.not_mem_nil

theorem ideal_accessLog (p : Program V W) (exec : ExecPolicy) (fuel : Nat) (w : W) :
    AccessLog p (runFrom (idealSlots p.plan.toCompiledPlan V) p exec fuel w).2.1.events := by
  exact (access_run p fuel).log (fun _ hs => hs.log) (fun log _ hs => hs.memory log) exec
    (Handed.start p)

/-- **What the log of every run says**, for every layout and either executor. -/
theorem run_accessLog (p : Program V W) (layout : SlotLayoutPolicy) (exec : ExecPolicy)
    (fuel : Nat) (w : W) :
    AccessLog p (runFrom (layout.slots p.plan.toCompiledPlan) p exec fuel w).2.1.events := by
  obtain ⟨-, -, hevents, -⟩ := run_agrees (layout.refines p.plan) exec fuel w
  rw [hevents]
  exact ideal_accessLog p exec fuel w

/-- **No consumed slot is read again.**  Statically: where a node with exclusive
access and another node with prev access read one owner's slot, they lie on one
path and the upper one forwards; and a task that consumes has no retry layer.  In
every run, whatever the layout and the executor: once a consuming node is
entered, no other node resolves its source, and it resolves it at most once. -/
theorem consumed_never_resolved (p : Program V W) :
    (∀ i j o, i < p.plan.nodeCount → j < p.plan.nodeCount → i ≠ j →
      (p.plan.task i).usesExclusivePrevAccess → (p.plan.task j).usesPrevAccess →
      p.plan.prevSource i = some (.slot o) → p.plan.prevSource j = some (.slot o) →
        (i ∈ p.plan.path j ∧ p.plan.outputStorageMode i = .forwardedPrev)
        ∨ (j ∈ p.plan.path i ∧ p.plan.outputStorageMode j = .forwardedPrev))
    ∧ (∀ i < p.plan.nodeCount, (p.plan.task i).usesConsumePrev →
      (p.plan.task i).retryLayers = 0)
    ∧ ∀ (layout : SlotLayoutPolicy) (exec : ExecPolicy) (fuel : Nat) (w : W),
      let events := (runFrom (layout.slots p.plan.toCompiledPlan) p exec fuel w).2.1.events
      ∀ j kind source arg before, .resolved j kind source arg :: before <:+ events →
        (∀ i prev, .entered i prev ∈ before → (p.plan.task i).usesConsumePrev →
          p.plan.prevSource i = some source → j = i)
        ∧ ∀ source' arg', .resolved j .consume source' arg' ∉ before := by
  refine ⟨?_, ?_, ?_⟩
  · intro i j o hi hj hne hexclusive huses hsource hsource'
    exact ValidPlan.exclusive_alias hi hj hne hexclusive huses hsource hsource'
  · intro i hi hconsume
    exact Task.valid_consume_no_retry (ValidPlan.prevAccessValid hi) hconsume
  · intro layout exec fuel w events j kind source arg before hresolved
    have hlog := run_accessLog p layout exec fuel w
    exact ⟨fun i prev hentered hconsume hsource =>
        (hlog.consumed j kind source arg before hresolved i prev hentered hconsume hsource).symm,
      hlog.once j kind source arg before hresolved⟩

end Node

end YOrch
