/-
  YOrch.Executor.Context — what a run reads and writes outside its tree.

  Arguments that do not come from a parent are resolved from the context the run
  borrows, by type, or from a value kept in the spec.  Both outlive the call, and
  the next attempt, node or run resolves from them again.  A sourced program's
  callables reach them only through their arguments: they see what these are
  bound to, and change what is bound as `T&`.  Before that, the evaluation of an
  argument may run a constructor or a conversion on what it is bound to.

    • `Context.get_set` — an entry is found by its type, and no other is,
    • `resolveValue_readonly` — a stored value is not bound as `T&`,
    • `run_footprint` — the entries no node asks for do not matter to a run, and
      what no entered node can write to is as it was.
-/
import YOrch.Executor.Concepts
import YOrch.Executor.Worlds

namespace YOrch

open Library

/-! ## §1. Contexts. -/

/-- `unique_types_v`, by `type_count_v`. -/
def uniqueTypes (types : List CppType) : Bool := types.all fun t => types.count t == 1

theorem uniqueTypes_iff {types : List CppType} : uniqueTypes types ↔ types.Nodup := by
  rw [uniqueTypes, List.all_eq_true, List.nodup_iff_count_eq_one]
  exact forall₂_congr fun t _ => beq_iff_eq

/-- `context<Ts...>`, with objects `O`. -/
structure Context (O : Type) where
  types : List CppType
  unique : uniqueTypes types
  storage : List O
  size : storage.length = types.length

namespace Context

variable {O : Type} (ctx : Context O)

/-- `context::contains<T>`. -/
def contains (t : CppType) : Bool := ctx.types.count t == 1

/-- `context::get<T>`, which is `std::get<T>` of the tuple. -/
def get (t : CppType) : Option O := ctx.storage[ctx.types.idxOf t]?

/-- An assignment through the reference `get<T>` returns. -/
def set (t : CppType) (o : O) : Context O where
  types := ctx.types
  unique := ctx.unique
  storage := ctx.storage.set (ctx.types.idxOf t) o
  size := by rw [List.length_set, ctx.size]

@[simp] theorem set_types (t : CppType) (o : O) : (ctx.set t o).types = ctx.types := rfl

variable {ctx} {t : CppType}

theorem contains_iff : ctx.contains t ↔ t ∈ ctx.types := by
  rw [contains, beq_iff_eq]
  constructor
  · intro hcount
    exact List.count_pos_iff.mp (hcount ▸ Nat.one_pos)
  · intro hmem
    exact List.nodup_iff_count_eq_one.mp (uniqueTypes_iff.mp ctx.unique) t hmem

/-- **Lookup.**  What is assigned to an entry is found under its type, and under
no other. -/
theorem get_set (u : CppType) (o : O) :
    (ctx.set u o).get t = if t = u ∧ ctx.contains u then some o else ctx.get t := by
  unfold get
  show (ctx.storage.set (ctx.types.idxOf u) o)[ctx.types.idxOf t]? = _
  rw [List.getElem?_set]
  by_cases hu : ctx.contains u
  · have hmem := contains_iff.mp hu
    have hlt : ctx.types.idxOf u < ctx.storage.length := by
      rw [ctx.size]
      exact List.idxOf_lt_length_iff.mpr hmem
    by_cases htu : t = u
    · subst htu
      rw [if_pos rfl, if_pos hlt, if_pos ⟨rfl, hu⟩]
    · have hne : ctx.types.idxOf u ≠ ctx.types.idxOf t := by
        intro heq
        exact htu (List.idxOf_inj hmem |>.mp heq).symm
      rw [if_neg hne, if_neg fun h => htu h.1]
  · -- without such an entry, nothing is assigned
    have hge : ctx.storage.length ≤ ctx.types.idxOf u := by
      rw [ctx.size, List.idxOf_eq_length (fun hmem => hu (contains_iff.mpr hmem))]
    rw [if_neg fun h : t = u ∧ ctx.contains u => hu h.2]
    split
    · next heq =>
        rw [if_neg (Nat.not_lt.mpr hge), ← heq]
        exact (List.getElem?_eq_none hge).symm
    · rfl

end Context

/-! ## §2. Resolution. -/

/-- The argument is a reference that can be written through, or moved from. -/
def CppType.isWritable : CppType → Bool
  | .lvalueRef t => !t.isConst
  | .rvalueRef _ => true
  | _ => false

section Resolution

variable {traits : BindTraits} {ctx : Option (List CppType)} {t arg : CppType}

/-- **Stored values are not written to**, nor moved from. -/
theorem resolveValue_readonly (hwrapper : ∀ u, t ≠ .referenceWrapper u)
    (h : resolveValueAsserts traits t arg) : arg.isWritable = false := by
  unfold resolveValueAsserts at h
  split at h
  · next u => exact absurd rfl (hwrapper u)
  · split at h
    · cases h
    · next u =>
        rw [Bool.and_eq_true] at h
        rw [CppType.isWritable, h.1]
        rfl
    · next hrvalue hlvalue =>
        cases arg with
        | rvalueRef u => exact absurd rfl (hrvalue u)
        | lvalueRef u => exact absurd rfl (hlvalue u)
        | _ => rfl

/-- **Context entries are not moved from.** -/
theorem resolveFromCtx_lvalue (h : resolveFromCtxAsserts traits ctx t arg)
    (hwritable : arg.isWritable) : ∃ u, arg = .lvalueRef u ∧ u.isConst = false := by
  cases arg with
  | rvalueRef u =>
      cases ctx with
      | none => cases h
      | some types =>
          rw [resolveFromCtxAsserts, Bool.and_eq_true] at h
          exact absurd h.2 Bool.false_ne_true
  | lvalueRef u => exact ⟨u, rfl, by simpa [CppType.isWritable] using hwritable⟩
  | _ => cases hwritable

end Resolution

/-! ## §3. Sourced programs. -/

variable {V O W S : Type}

/-- What an argument that does not come from the parent is resolved from: an
entry of the context, or the value kept in a spec of a node. -/
inductive Source where
  | entry (type : CppType)
  | stored (node position : Nat)
  deriving Repr, DecidableEq

/-- The sources of node `i`'s arguments, each with the type of its argument.  What
a reference wrapper refers to is neither an entry nor a stored value, but part of
the rest of the world. -/
def Task.sources (task : Task) (i : Nat) : List (Source × CppType) :=
  task.bound.bindings.zipIdx.filterMap fun (binding, position) =>
    match binding.1 with
    | .fromCtx t => some (.entry t.removeCvref, binding.2)
    | .value (.referenceWrapper _) => none
    | .value _ => some (.stored i position, binding.2)
    | .borrowPrev _ | .borrowPrevMut _ | .copyPrev _ | .consumePrev _ => none

/-- The context a run borrows, and the values kept in the plan's specs. -/
structure Sources (O : Type) where
  context : Context O
  stored : Nat → Nat → O

namespace Sources

variable {O : Type} (σ : Sources O)

/-- The object of a source. -/
def read : Source → Option O
  | .entry t => σ.context.get t
  | .stored node position => some (σ.stored node position)

/-- There is such an object. -/
def has : Source → Bool
  | .entry t => σ.context.contains t
  | .stored .. => true

/-- An assignment to it. -/
def write : Source → O → Sources O
  | .entry t, o => { σ with context := σ.context.set t o }
  | .stored node position, o =>
      { σ with stored := fun i k => if i = node ∧ k = position then o else σ.stored i k }

/-- What a task's arguments are bound to. -/
def given (sources : List (Source × CppType)) (source : Source) : Option O :=
  if sources.any fun bound => bound.1 == source then σ.read source else none

/-- What is left in the source of an argument, where it can be written to through
an argument of this type. -/
def assign (through : CppType → Bool) (left : Source → Option O) (σ : Sources O)
    (source : Source × CppType) : Sources O :=
  match left source.1 with
  | some o => if through source.2 then σ.write source.1 o else σ
  | none => σ

def assignAll (through : CppType → Bool) (left : Source → Option O) (σ : Sources O)
    (sources : List (Source × CppType)) : Sources O :=
  sources.foldl (assign through left) σ

variable {σ}

@[simp] theorem write_types (source : Source) (o : O) :
    (σ.write source o).context.types = σ.context.types := by
  cases source <;> rfl

/-- **Lookup**, in a context or in a spec. -/
theorem read_write (source source' : Source) (o : O) :
    (σ.write source o).read source'
      = if source' = source ∧ σ.has source then some o else σ.read source' := by
  cases source with
  | entry u =>
      cases source' with
      | entry t =>
          refine (Context.get_set u o).trans (if_congr ?_ rfl rfl)
          rw [Source.entry.injEq]
          rfl
      | stored node position => rfl
  | stored node position =>
      cases source' with
      | entry t => rfl
      | stored node' position' =>
          refine (apply_ite some _ _ _).trans (if_congr ?_ rfl rfl)
          rw [Source.stored.injEq]
          exact (and_iff_left rfl).symm

end Sources

/-- Something that does not see the sources. -/
def besideSources {α : Type} (f : W → α × W) (s : Sources O × W) : α × (Sources O × W) :=
  ((f s.2).1, (s.1, (f s.2).2))

/-- The policies of adapters do not see the sources. -/
def Task.Policies.beside {T : Task → Type} :
    (task : Task) → task.Policies T W → task.Policies T (Sources O × W)
  | .base _, _ => ()
  | .catchFailureTask task, policies => Policies.beside task policies
  | .catchFailureWithPolicyTask _ task, (policy, policies) =>
      (besideSources policy, Policies.beside task policies)
  | .retryTask task, (policy, policies) =>
      ({ shouldRetry := fun retryCount => besideSources (policy.shouldRetry retryCount)
         onExhausted := policy.onExhausted.map fun exhausted raw => besideSources (exhausted raw) },
        Policies.beside task policies)

/-- The body, with the worlds it leaves replaced. -/
def SinkBody.mapWorld {U : Type} (f : W → U) : SinkBody V W → SinkBody V U
  | .finish exit written world => .finish exit written (f world)
  | .hasValue next => .hasValue fun live => (next live).mapWorld f
  | .emplace payload next => .emplace payload (next.mapWorld f)
  | .destroy next => .destroy (next.mapWorld f)

/-- What a task does with what its arguments are bound to, and what it leaves
there, if it does not leave it alone. -/
structure SourcedBehaviour (V O W : Type) (task : Task) where
  evaluated : List (Spec × CppType)
  evaluated_perm : List.Perm evaluated task.bound.bindings
  /-- Evaluate an argument that does not come from the parent.  The object that is
  made of its source, if one is, belongs to the rest of the world. -/
  argument : Spec × CppType → (Source → Option O) → W → (Bool × (Source → Option O)) × W
  body : List V → (Source → Option O) → W →
    ((Exit (task.bound.rawResultType.rawKind.Result V) × Option V) × (Source → Option O)) × W
  sinkBody : List V → (Source → Option O) → W → SinkBody V ((Source → Option O) × W)
  policies : task.Policies (fun task => task.rawKind.Result V) W
  policiesInto : task.Policies (fun _ => StepResult) W

/-- A plan to run, and callables that reach the run's sources through their
arguments only. -/
structure SourcedProgram (V O W : Type) where
  plan : ValidPlan
  behaviour : ∀ i, SourcedBehaviour V O W (plan.task i)
  supported : ∀ i < plan.nodeCount, (plan.task i).policiesSupported := by decide
  copy : W → V → Option V × W
  move : W → V → Option V × V × W
  asserts : Bool

namespace SourcedProgram

variable (p : SourcedProgram V O W)

/-- Node `i`'s task, on its sources.  The evaluation of an argument may change
whatever it is bound to, and the callable what it has a reference to. -/
def toBehaviour (i : Nat) : TaskBehaviour V (Sources O × W) (p.plan.task i) where
  evaluated := (p.behaviour i).evaluated
  evaluated_perm := (p.behaviour i).evaluated_perm
  argument binding s :=
    let ((evaluates, left), w) :=
      (p.behaviour i).argument binding (s.1.given ((p.plan.task i).sources i)) s.2
    (evaluates, (s.1.assignAll (fun _ => true) left ((p.plan.task i).sources i), w))
  body args s :=
    let ((result, left), w) :=
      (p.behaviour i).body args (s.1.given ((p.plan.task i).sources i)) s.2
    (result, (s.1.assignAll CppType.isWritable left ((p.plan.task i).sources i), w))
  sinkBody args s :=
    ((p.behaviour i).sinkBody args (s.1.given ((p.plan.task i).sources i)) s.2).mapWorld
      fun (left, w) => (s.1.assignAll CppType.isWritable left ((p.plan.task i).sources i), w)
  policies := Task.Policies.beside _ (p.behaviour i).policies
  policiesInto := Task.Policies.beside _ (p.behaviour i).policiesInto

def toProgram : Program V (Sources O × W) where
  plan := p.plan
  behaviour := p.toBehaviour
  supported := p.supported
  copy s v := besideSources (fun w => p.copy w v) s
  move s v := ((p.move s.2 v).1, (p.move s.2 v).2.1, (s.1, (p.move s.2 v).2.2))
  asserts := p.asserts

/-- Some node of the plan resolves an argument from the source. -/
def Reads (source : Source) : Prop :=
  ∃ i < p.plan.nodeCount, ∃ arg, (source, arg) ∈ (p.plan.task i).sources i

/-- No constructor or conversion that node `i`'s arguments run changes the source. -/
def Spares (i : Nat) (source : Source) : Prop :=
  ∀ binding given w, ((p.behaviour i).argument binding given w).1.2 source = none

/-- A node that was entered can write to the source. -/
def Writes (events : List (Event V)) (source : Source) : Prop :=
  ∃ i < p.plan.nodeCount, (∃ prev, .entered i prev ∈ events) ∧
    ∃ arg, (source, arg) ∈ (p.plan.task i).sources i ∧ (arg.isWritable ∨ ¬ p.Spares i source)

variable {p}

theorem Writes.reads {events : List (Event V)} {source : Source} (h : p.Writes events source) :
    p.Reads source := by
  obtain ⟨i, hi, -, arg, hmem, -⟩ := h
  exact ⟨i, hi, arg, hmem⟩

end SourcedProgram

/-- Each source comes with the binding that is resolved from it. -/
theorem Task.binding_of_source {task : Task} {i : Nat} {source : Source} {arg : CppType}
    (h : (source, arg) ∈ task.sources i) :
    (∃ t, (.fromCtx t, arg) ∈ task.bound.bindings ∧ source = .entry t.removeCvref)
      ∨ ∃ t position, (.value t, arg) ∈ task.bound.bindings
        ∧ (∀ u, t ≠ .referenceWrapper u) ∧ source = .stored i position := by
  obtain ⟨⟨⟨spec, arg'⟩, position⟩, hmem, hsource⟩ := List.mem_filterMap.mp h
  have hbinding : (spec, arg') ∈ task.bound.bindings := List.fst_mem_of_mem_zipIdx hmem
  dsimp only at hsource
  split at hsource
  · next t =>
      obtain ⟨rfl, rfl⟩ := Prod.mk.inj (Option.some.inj hsource)
      exact .inl ⟨t, hbinding, rfl⟩
  · cases hsource
  · next t hwrapper =>
      obtain ⟨rfl, rfl⟩ := Prod.mk.inj (Option.some.inj hsource)
      exact .inr ⟨t, position, hbinding, fun u h => hwrapper u h, rfl⟩
  all_goals cases hsource

/-! ## §4. Footprints. -/

/-- The relation only looks at the rest of the world for equality. -/
def RestStable (R : WorldRel V (Sources O × W)) : Prop :=
  ∀ events s t, R events s t → s.2 = t.2 ∧ ∀ w, R events (s.1, w) (t.1, w)

section Rest

variable {R : WorldRel V (Sources O × W)}

theorem RestStable.entered (h : RestStable R) (i : Nat) : RestStable (R.entered i) :=
  fun events s t hst =>
    ⟨(h events s t hst.2).1, fun w => ⟨hst.1, (h events s t hst.2).2 w⟩⟩

theorem besideSources_alike {α : Type} (h : RestStable R) (f : W → α × W) :
    Alike R (besideSources f) := by
  intro events s t hst
  obtain ⟨hrest, hset⟩ := h events s t hst
  unfold besideSources
  rw [hrest]
  exact ⟨rfl, hset _⟩

theorem policies_beside {T : Task → Type} (h : RestStable R) :
    ∀ (task : Task) (policies : task.Policies T W),
      task.PoliciesRespect R (Task.Policies.beside task policies)
  | .base _, _ => trivial
  | .catchFailureTask task, policies => policies_beside h task policies
  | .catchFailureWithPolicyTask _ task, (policy, policies) =>
      ⟨besideSources_alike h policy, policies_beside h task policies⟩
  | .retryTask task, (policy, policies) => by
      refine ⟨⟨fun retryCount => besideSources_alike h _, ?_⟩, policies_beside h task policies⟩
      intro exhausted hexhausted raw
      obtain ⟨f, -, rfl⟩ := Option.map_eq_some_iff.mp hexhausted
      exact besideSources_alike h (f raw)

/-- One body, with worlds replaced by related ones. -/
theorem mapWorld_alike {U : Type} {Q : U → U → Prop} {f g : W → U} (h : ∀ w, Q (f w) (g w)) :
    ∀ body : SinkBody V W, SinkAlike Q (body.mapWorld f) (body.mapWorld g)
  | .finish exit written w => .finish exit written (h w)
  | .hasValue next => .hasValue fun live => mapWorld_alike h (next live)
  | .emplace payload next => .emplace payload (mapWorld_alike h next)
  | .destroy next => .destroy (mapWorld_alike h next)

end Rest

namespace SourcedProgram

variable {p : SourcedProgram V O W} {σ υ : Sources O} {events : List (Event V)} {i : Nat}

/-- Two runs so far, the one from the sources `σ` and the other from `υ`. -/
structure Footprint (p : SourcedProgram V O W) (σ υ : Sources O) (events : List (Event V))
    (s t : Sources O × W) : Prop where
  rest : s.2 = t.2
  types : s.1.context.types = σ.context.types ∧ t.1.context.types = υ.context.types
  reads : ∀ source, p.Reads source → s.1.read source = t.1.read source
  others : ∀ source, ¬ p.Writes events source →
    s.1.read source = σ.read source ∧ t.1.read source = υ.read source

theorem Footprint.restStable : RestStable (p.Footprint σ υ) :=
  fun _ _ _ h => ⟨h.rest, fun _ => ⟨rfl, h.types, h.reads, h.others⟩⟩

theorem Footprint.grows : WorldRel.Grows (p.Footprint σ υ) := by
  intro events events' s t hsuffix h
  refine ⟨h.rest, h.types, h.reads, fun source hwrites => h.others source ?_⟩
  rintro ⟨i, hi, ⟨prev, hentered⟩, hwrite⟩
  exact hwrites ⟨i, hi, ⟨prev, hsuffix.subset hentered⟩, hwrite⟩

/-- A node's arguments are bound to the same in both. -/
theorem Footprint.given (hi : i < p.plan.nodeCount) {s t : Sources O × W}
    (h : p.Footprint σ υ events s t) :
    s.1.given ((p.plan.task i).sources i) = t.1.given ((p.plan.task i).sources i) := by
  funext source
  unfold Sources.given
  split
  · next hmem =>
      obtain ⟨⟨source', arg⟩, hbound, heq⟩ := List.any_eq_true.mp hmem
      obtain rfl : source' = source := beq_iff_eq.mp heq
      exact h.reads source' ⟨i, hi, arg, hbound⟩
  · rfl

/-- What node `i` leaves in its sources is left where it can write to. -/
def LeavesWritten (p : SourcedProgram V O W) (i : Nat) (through : CppType → Bool)
    (left : Source → Option O) : Prop :=
  ∀ source arg o, left source = some o → through arg →
    arg.isWritable ∨ ¬ p.Spares i source

section Alike

variable (hsame : υ.context.types = σ.context.types) (hi : i < p.plan.nodeCount)

include hsame hi

/-- An entered node leaves an object in what an argument is bound to. -/
theorem Footprint.assign {through : CppType → Bool} {left : Source → Option O}
    (hleft : p.LeavesWritten i through left) {source : Source × CppType}
    (hmem : source ∈ (p.plan.task i).sources i) {s t : Sources O × W}
    (h : WorldRel.entered (p.Footprint σ υ) i events s t) :
    WorldRel.entered (p.Footprint σ υ) i events (s.1.assign through left source, s.2)
      (t.1.assign through left source, t.2) := by
  obtain ⟨source, arg⟩ := source
  unfold Sources.assign
  cases ho : left source with
  | none => exact h
  | some o =>
      cases hthrough : through arg with
      | false => exact h
      | true =>
          obtain ⟨⟨prev, hentered⟩, hfoot⟩ := h
          -- the node was entered, so that it counts as writing to the source
          have hwrites : p.Writes events source :=
            ⟨i, hi, ⟨prev, hentered⟩, arg, hmem, hleft source arg o ho hthrough⟩
          have htypes : t.1.context.types = s.1.context.types := by
            rw [hfoot.types.1, hfoot.types.2, hsame]
          -- both have the source, or neither does
          have hhas : s.1.has source = t.1.has source := by
            cases source with
            | entry u => exact congrArg (fun types => types.count u == 1) htypes.symm
            | stored node position => rfl
          dsimp only
          rw [if_pos rfl, if_pos rfl]
          refine ⟨⟨prev, hentered⟩, hfoot.rest, ?_, ?_, ?_⟩
          · rw [Sources.write_types, Sources.write_types]
            exact hfoot.types
          · intro source' hreads
            rw [Sources.read_write, Sources.read_write, hfoot.reads source' hreads, hhas]
          · intro source' hother
            have hne : source' ≠ source := by
              rintro rfl
              exact hother hwrites
            rw [Sources.read_write, Sources.read_write, if_neg fun h => hne h.1,
              if_neg fun h => hne h.1]
            exact hfoot.others source' hother

theorem Footprint.assignAll {through : CppType → Bool} {left : Source → Option O}
    (hleft : p.LeavesWritten i through left) : ∀ (sources : List (Source × CppType))
    {s t : Sources O × W}, (∀ source ∈ sources, source ∈ (p.plan.task i).sources i) →
    WorldRel.entered (p.Footprint σ υ) i events s t →
    WorldRel.entered (p.Footprint σ υ) i events (s.1.assignAll through left sources, s.2)
      (t.1.assignAll through left sources, t.2)
  | [], _, _, _, h => h
  | source :: rest, s, t, hmem, h => by
      have hfirst := Footprint.assign hsame hi hleft (hmem source List.mem_cons_self) h
      exact Footprint.assignAll hleft rest (fun source hrest =>
        hmem source (List.mem_cons_of_mem _ hrest)) hfirst

end Alike

/-- **Callables respect footprints.** -/
theorem Footprint.respects (hsame : υ.context.types = σ.context.types) :
    p.toProgram.Respects (p.Footprint σ υ) where
  grows := Footprint.grows
  copy v := besideSources_alike Footprint.restStable fun w => p.copy w v
  move v := besideSources_alike Footprint.restStable fun w =>
    (((p.move w v).1, (p.move w v).2.1), (p.move w v).2.2)
  argument i hi binding := by
    intro events s t h
    obtain ⟨hrest, hset⟩ := Footprint.restStable.entered i events s t h
    show (((p.behaviour i).argument binding (s.1.given ((p.plan.task i).sources i)) s.2).1.1 = _)
      ∧ WorldRel.entered (p.Footprint σ υ) i events
        (s.1.assignAll _ ((p.behaviour i).argument binding (s.1.given _) s.2).1.2 _, _) _
    rw [Footprint.given hi h.2, hrest]
    let evaluated := (p.behaviour i).argument binding (t.1.given ((p.plan.task i).sources i)) t.2
    have hleft : p.LeavesWritten i (fun _ => true) evaluated.1.2 := by
      intro source arg o hleft _
      refine .inr fun hspares => ?_
      rw [hspares binding _ _] at hleft
      cases hleft
    exact ⟨rfl, Footprint.assignAll hsame hi hleft _ (fun _ hmem => hmem) (hset evaluated.2)⟩
  body i hi args := by
    intro events s t h
    -- the callable is called on the same, and leaves the same in its arguments
    obtain ⟨hrest, hset⟩ := Footprint.restStable.entered i events s t h
    show (((p.behaviour i).body args (s.1.given ((p.plan.task i).sources i)) s.2).1.1 = _)
      ∧ WorldRel.entered (p.Footprint σ υ) i events
        (s.1.assignAll _ ((p.behaviour i).body args (s.1.given _) s.2).1.2 _, _) _
    rw [Footprint.given hi h.2, hrest]
    let returned := (p.behaviour i).body args (t.1.given ((p.plan.task i).sources i)) t.2
    have hleft : p.LeavesWritten i CppType.isWritable returned.1.2 :=
      fun _ _ _ _ hwritable => .inl hwritable
    exact ⟨rfl, Footprint.assignAll hsame hi hleft _ (fun _ hmem => hmem) (hset returned.2)⟩
  sinkBody i hi args events s t h := by
    obtain ⟨hrest, hset⟩ := Footprint.restStable.entered i events s t h
    show SinkAlike _ (((p.behaviour i).sinkBody args (s.1.given _) s.2).mapWorld _) _
    rw [Footprint.given hi h.2, hrest]
    apply mapWorld_alike
    rintro ⟨left, w⟩
    have hleft : p.LeavesWritten i CppType.isWritable left :=
      fun _ _ _ _ hwritable => .inl hwritable
    exact Footprint.assignAll hsame hi hleft _ (fun _ hmem => hmem) (hset w)
  policies i _ := policies_beside (Footprint.restStable.entered i) _ _
  policiesInto i _ := policies_beside (Footprint.restStable.entered i) _ _

end SourcedProgram

/-- **The footprint of a run.**  Callables reach the context and the stored values
through their arguments, and through those that are references to non-const if
they write.  Let the plan's specs resolve in a context of the run's types.  Then
two contexts that agree on the entries some node of the plan asks for make for one
run: the same exit, the same log, the same rest of the world, and the same values
in these entries and in the specs.  An entry is only changed if a node that was
entered binds it as `T&`, or runs a constructor or a conversion for one of its
arguments that changes it.  A stored value is only changed in the second way:
where the evaluation of arguments leaves what they are bound to alone, every
attempt resolves from what was stored. -/
theorem run_footprint (p : SourcedProgram V O W) {traits : BindTraits} {σ υ : Sources O}
    (hsame : υ.context.types = σ.context.types ∧ υ.stored = σ.stored)
    (hresolves : ∀ i < p.plan.nodeCount, p.plan.nodeResolvesIn traits (some σ.context.types) i)
    (hreads : ∀ t, p.Reads (.entry t) → υ.context.get t = σ.context.get t)
    (layout : SlotLayoutPolicy) (exec : ExecPolicy) (fuel : Nat) (w : W) :
    let run := runFrom (layout.slots p.plan.toCompiledPlan) p.toProgram exec fuel (σ, w)
    let run' := runFrom (layout.slots p.plan.toCompiledPlan) p.toProgram exec fuel (υ, w)
    run'.1 = run.1 ∧ run'.2.1.events = run.2.1.events ∧ run'.2.2.2 = run.2.2.2
      ∧ (∀ t, p.Reads (.entry t) → run'.2.2.1.context.get t = run.2.2.1.context.get t)
      ∧ run'.2.2.1.stored = run.2.2.1.stored ∧ run.2.2.1.context.types = σ.context.types
      ∧ (∀ t, run.2.2.1.context.get t ≠ σ.context.get t →
          ∃ i < p.plan.nodeCount, (∃ prev, .entered i prev ∈ run.2.1.events) ∧
            ∃ arg, (.entry t, arg) ∈ (p.plan.task i).sources i ∧
              ((∃ u, arg = .lvalueRef u ∧ u.isConst = false) ∨ ¬ p.Spares i (.entry t)))
      ∧ ∀ i position, run.2.2.1.stored i position ≠ σ.stored i position →
          (∃ prev, .entered i prev ∈ run.2.1.events) ∧ ¬ p.Spares i (.stored i position) := by
  intro run run'
  have hstored : ∀ i position, υ.read (.stored i position) = σ.read (.stored i position) := by
    intro i position
    show some _ = some _
    rw [hsame.2]
  have hstart : p.Footprint σ υ [] (σ, w) (υ, w) := by
    refine ⟨rfl, ⟨rfl, rfl⟩, ?_, fun _ _ => ⟨rfl, rfl⟩⟩
    rintro (t | ⟨i, position⟩) h
    · exact (hreads t h).symm
    · exact (hstored i position).symm
  obtain ⟨hexit, hmachine, hfoot⟩ := run_alike (layout.slots p.plan.toCompiledPlan)
    (SourcedProgram.Footprint.respects hsame.1) exec fuel hstart
  have hsources : ∀ i < p.plan.nodeCount, ∀ binding ∈ (p.plan.task i).bound.bindings,
      binding.1.sourceAsserts traits (some σ.context.types) binding.2 := fun i hi binding hmem =>
    ((ValidPlan.nodeResolvesIn_parts hi).mp (hresolves i hi)).2 binding hmem |>.2
  have hchanged : ∀ source, run.2.2.1.read source ≠ σ.read source →
      p.Writes run.2.1.events source := by
    intro source hchanged
    by_contra hwrites
    exact hchanged (hfoot.others source hwrites).1
  refine ⟨hexit.symm, (congrArg Machine.events hmachine).symm, hfoot.rest.symm,
    fun t ht => (hfoot.reads _ ht).symm, ?_, hfoot.types.1, ?_, ?_⟩
  · funext i position
    have hboth : run'.2.2.1.read (.stored i position) = run.2.2.1.read (.stored i position) := by
      by_cases hread : p.Reads (.stored i position)
      · exact (hfoot.reads _ hread).symm
      · obtain ⟨hleft, hright⟩ := hfoot.others _ (mt SourcedProgram.Writes.reads hread)
        exact hright.trans ((hstored i position).trans hleft.symm)
    exact Option.some.inj hboth
  · intro t hget
    obtain ⟨i, hi, hentered, arg, hmem, hwritable | hspares⟩ := hchanged (.entry t) hget
    · -- an entry is resolved by a `from_ctx`, which does not bind as `T&&`
      refine ⟨i, hi, hentered, arg, hmem, .inl ?_⟩
      rcases Task.binding_of_source hmem with ⟨u, hbinding, -⟩ | ⟨_, _, -, -, hsource⟩
      · have hresolved : resolveFromCtxAsserts traits (some σ.context.types) u arg :=
          hsources i hi _ hbinding
        exact resolveFromCtx_lvalue hresolved hwritable
      · cases hsource
    · exact ⟨i, hi, hentered, arg, hmem, .inr hspares⟩
  · intro i position hstored
    obtain ⟨j, hj, hentered, arg, hmem, hwrite⟩ := hchanged (.stored i position)
      fun hread => hstored (Option.some.inj hread)
    rcases Task.binding_of_source hmem with ⟨_, -, hsource⟩ | ⟨u, _, hbinding, hwrapper, hsource⟩
    · cases hsource
    · obtain ⟨rfl, -⟩ := Source.stored.inj hsource
      refine ⟨hentered, hwrite.resolve_left fun hwritable => ?_⟩
      -- a stored value does not bind as `T&` either
      have hreadonly := resolveValue_readonly hwrapper (hsources _ hj _ hbinding)
      rw [hreadonly] at hwritable
      cases hwritable

/-! ## §5. A counter in the context. -/

/-- The root counts in the context up to a stored limit, and its first child reads
another limit from the context. -/
def countingPlan : ValidPlan where
  toPlanShape := .twoChildren
  task
    | 0 => .base (.boundTask (.function [.lvalueRef (.object 0), .object 1] .stepResult)
        [.fromCtx (.object 0), .value (.object 1)])
    | 1 => .base (.boundTask (.function [(CppType.object 1).constRef] .stepResult)
        [.fromCtx (.object 1)])
    | _ => .base (.boundTask (.function [] .void) [])
  fanoutPolicy := fun _ => .auto
  bound := by decide
  runnable := by decide
  slotsFormed := by decide

/-- Every source is left alone. -/
def leavesAlone : Source → Option Nat := fun _ => none

def countingProgram : SourcedProgram Nat Nat Unit where
  plan := countingPlan
  behaviour
    | 0 =>
        { evaluated := (countingPlan.task 0).bound.bindings
          evaluated_perm := List.Perm.refl _
          argument := fun _ _ w => ((true, leavesAlone), w)
          body := fun _ given w =>
            let count := (given (.entry (.object 0))).getD 0
            let limit := (given (.stored 0 1)).getD 0
            (((.ret .success, none), fun source =>
              if source = .entry (.object 0) ∧ count < limit then some (count + 1) else none), w)
          sinkBody := fun _ _ w => .finish (.ret .success) none (leavesAlone, w)
          policies := ()
          policiesInto := () }
    | 1 =>
        { evaluated := (countingPlan.task 1).bound.bindings
          evaluated_perm := List.Perm.refl _
          argument := fun _ _ w => ((true, leavesAlone), w)
          body := fun _ given w =>
            (((.ret (if given (.entry (.object 1)) = some 0 then .failure else .success), none),
              leavesAlone), w)
          sinkBody := fun _ _ w => .finish (.ret .success) none (leavesAlone, w)
          policies := ()
          policiesInto := () }
    | i + 2 =>
        { evaluated := (countingPlan.task (i + 2)).bound.bindings
          evaluated_perm := List.Perm.refl _
          argument := fun _ _ w => ((true, leavesAlone), w)
          body := fun _ _ w => (((.ret (), none), leavesAlone), w)
          sinkBody := fun _ _ w => .finish (.ret .success) none (leavesAlone, w)
          policies := ()
          policiesInto := () }
  copy w v := (some v, w)
  move w v := (some v, v, w)
  asserts := true

/-- A counter, a limit, and an entry nobody asks for. -/
def countingSources (unread : Nat) : Sources Nat where
  context :=
    { types := [.object 0, .object 1, .object 2]
      unique := by decide
      storage := [0, 5, unread]
      size := rfl }
  stored := fun _ _ => 3

/-- A run that counts to one, whatever the third entry is. -/
theorem run_footprint_counting :
    let run := runFrom (SlotLayoutPolicy.slots countingPlan.toCompiledPlan .serialDfsCompact)
      countingProgram.toProgram .serialDfsExplicitHeapStack 1 (countingSources 9, ())
    run.1 = .ret .success ∧ run.2.2.1.context.get (.object 0) = some 1 := by
  have hreads : ∀ t, countingProgram.Reads (.entry t) →
      (countingSources 9).context.get t = (countingSources 7).context.get t := by
    have hnodes : ∀ i < countingPlan.nodeCount, ∀ source ∈ (countingPlan.task i).sources i,
        source.1 = .entry (.object 0) ∨ source.1 = .entry (.object 1)
          ∨ source.1 = .stored 0 1 := by decide
    rintro t ⟨i, hi, arg, hmem⟩
    rcases hnodes i hi _ hmem with hfirst | hsecond | hstored
    · cases hfirst
      rfl
    · cases hsecond
      rfl
    · cases hstored
  have hsame : (countingSources 9).context.types = (countingSources 7).context.types
      ∧ (countingSources 9).stored = (countingSources 7).stored := ⟨rfl, rfl⟩
  -- a type is converted to itself
  let traits : BindTraits :=
    { constructible := fun t source => .lvalueRef t == source
      convertible := fun source t => source.removeCvref == t.removeCvref }
  have hresolves : ∀ i < countingPlan.nodeCount,
      countingPlan.nodeResolvesIn traits (some (countingSources 7).context.types) i := by decide
  obtain ⟨hexit, -, -, hagree, -⟩ := run_footprint countingProgram hsame hresolves hreads
    .serialDfsCompact .serialDfsExplicitHeapStack 1 ()
  constructor
  · exact hexit.trans (by decide +kernel)
  · have hread : countingProgram.Reads (.entry (.object 0)) :=
      ⟨0, by decide, .lvalueRef (.object 0), by decide⟩
    exact (hagree _ hread).trans (by decide +kernel)

end YOrch
