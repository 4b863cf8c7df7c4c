/-
  YOrch.Executor.Traversal — what a run enters, and how it ends.

  Here the behaviour of the nodes is arbitrary but total: entering, staging and
  destroying are functions of the whole run state, and every operation is
  recorded.  The results hold for all of them:

    • `explicitHeapStack_eq_recursive` — the two executors return the same
      result and perform the same operations in the same order,
    • `run_enters` — a run enters nodes in increasing order, a non-root node
      exactly when its parent succeeded and nothing before it stopped the run,
      and its result is the root's own or that of the node that stopped it.
-/
import YOrch.Executor.SerialDfs
import Mathlib.Data.List.Sort

namespace YOrch

open Library

/-! ## §1. Recorded runs. -/

/-- What an executor does at a node. -/
inductive DfsEvent where
  | entered (i : Nat) (step : StepResult)
  | staged (i : Nat)
  | unstaged (i : Nat)
  | payloadDestroyed (i : Nat)
  deriving Repr, DecidableEq

/-- Total node operations over the run state. -/
structure NodeBehaviour (σ : Type) where
  enterNode : Nat → σ → NodeEnterResult × σ
  destroyPayload : Nat → σ → σ
  requiresStaging : Nat → Bool
  stage : Nat → σ → σ
  unstage : Nat → σ → σ

/-- The node operations, each recorded as it happens. -/
def NodeBehaviour.ops {σ : Type} (b : NodeBehaviour σ) : DfsOps (σ × List DfsEvent) where
  enterNode i := fun (s, log) =>
    let (result, s') := b.enterNode i s
    (.ret result, (s', log ++ [.entered i result.step]))
  destroyPayload i := fun (s, log) => (b.destroyPayload i s, log ++ [.payloadDestroyed i])
  requiresStaging := b.requiresStaging
  stage i := fun (s, log) => (.ret (), (b.stage i s, log ++ [.staged i]))
  unstage i := fun (s, log) => (b.unstage i s, log ++ [.unstaged i])

/-! ## §2. The executors agree. -/

section Returns

variable {σ α β : Type}

/-- `x` returns from every state. -/
def Returns (x : Exec σ α) : Prop := ∀ s, ∃ a s', x s = (.ret a, s')

theorem Returns.pure (a : α) : Returns (pure a : Exec σ α) := fun s => ⟨a, s, rfl⟩

theorem Returns.bind {x : Exec σ α} {f : α → Exec σ β} (hx : Returns x)
    (hf : ∀ a, Returns (f a)) : Returns (x >>= f) := by
  intro s
  obtain ⟨a, s', h⟩ := hx s
  rw [Exec.bind_ret h]
  exact hf a s'

theorem Returns.onExit {x : Exec σ α} (hx : Returns x) (unwind : Bool) (cleanup : σ → σ) :
    Returns (Exec.onExit unwind cleanup x) := by
  intro s
  obtain ⟨a, s', h⟩ := hx s
  exact ⟨a, cleanup s', Exec.onExit_ret h unwind cleanup⟩

/-- Where nothing is thrown, unwinding makes no difference. -/
theorem Returns.onExit_unwind {x : Exec σ α} (hx : Returns x) (cleanup : σ → σ) :
    Exec.onExit true cleanup x = Exec.onExit false cleanup x := by
  funext s
  obtain ⟨a, s', h⟩ := hx s
  rw [Exec.onExit_ret h, Exec.onExit_ret h]

end Returns

section Agree

variable {σ : Type} {ops : DfsOps σ}

theorem returns_prepare (hstage : ∀ i, Returns (ops.stage i)) (i : Nat) :
    Returns (ops.prepareFanoutStaging i) := by
  rw [DfsOps.prepareFanoutStaging]
  split
  · exact hstage i
  · exact .pure ()

theorem returns_dfsNode (henter : ∀ i, Returns (ops.enterNode i))
    (hstage : ∀ i, Returns (ops.stage i)) (unwind : Bool) (i : Nat)
    {children : Exec σ StepResult} (hc : Returns children) :
    Returns (dfsNode unwind ops i children) := by
  refine (henter i).bind fun entered => ?_
  split
  · exact ((returns_prepare hstage i).bind fun _ => hc.onExit _ _).onExit _ _
  · exact .pure _

theorem returns_dfsChildren (henter : ∀ i, Returns (ops.enterNode i))
    (hstage : ∀ i, Returns (ops.stage i)) (unwind : Bool) (f : Forest Nat) :
    Returns (dfsChildren unwind ops f) := by
  induction f with
  | nil => exact .pure _
  | cons i c s ihc ihs =>
      refine (returns_dfsNode henter hstage unwind i ihc).bind fun step => ?_
      split
      · exact .pure _
      · exact ihs

theorem dfsNode_unwind (hstage : ∀ i, Returns (ops.stage i)) (i : Nat)
    {children : Exec σ StepResult} (hc : Returns children) :
    dfsNode true ops i children = dfsNode false ops i children := by
  rw [dfsNode, dfsNode, hc.onExit_unwind]
  congr 1
  funext entered
  split
  · exact ((returns_prepare hstage i).bind fun _ => hc.onExit _ _).onExit_unwind _
  · rfl

theorem dfsChildren_unwind (henter : ∀ i, Returns (ops.enterNode i))
    (hstage : ∀ i, Returns (ops.stage i)) (f : Forest Nat) :
    dfsChildren true ops f = dfsChildren false ops f := by
  induction f with
  | nil => rfl
  | cons i c s ihc ihs =>
      rw [dfsChildren, dfsChildren, ihs, ihc,
        dfsNode_unwind hstage i (returns_dfsChildren henter hstage false c)]

end Agree

variable {σ : Type} (b : NodeBehaviour σ)

theorem NodeBehaviour.returns_enter (i : Nat) : Returns (b.ops.enterNode i) :=
  fun (_, _) => ⟨_, _, rfl⟩

theorem NodeBehaviour.returns_stage (i : Nat) : Returns (b.ops.stage i) :=
  fun (_, _) => ⟨_, _, rfl⟩

/-- Both executors return what the traversal without unwinding returns. -/
theorem NodeBehaviour.runs_return (plan : PlanShape) (s : σ) (extra : Nat) :
    ∃ step s' log,
      runNode plan b.ops 0 (s, []) = (.ret step, (s', log)) ∧
      runExplicitHeapStackLoop plan b.ops (3 * plan.nodeCount + extra) (s, [])
        = (.ret step, (s', log)) := by
  have hc := returns_dfsChildren b.returns_enter b.returns_stage false plan.below
  obtain ⟨step, ⟨s', log⟩, hrun⟩ :=
    returns_dfsNode b.returns_enter b.returns_stage false 0 hc (s, [])
  refine ⟨step, s', log, ?_, ?_⟩
  · rw [runNode_root, dfsChildren_unwind b.returns_enter b.returns_stage,
      dfsNode_unwind b.returns_stage 0 hc, hrun]
  · rw [runExplicitHeapStackLoop_eq_dfs, hrun]

/-- **The explicit-heap-stack loop is the recursive executor.**  For every plan
and every behaviour of its nodes, both come back, with the same result, the
same run state and the same operations in the same order; three iterations a
node are enough for the loop, and more change nothing. -/
theorem explicitHeapStack_eq_recursive (plan : PlanShape) (b : NodeBehaviour σ)
    (s : σ) (extra : Nat) :
    ∃ step s' log,
      runNode plan b.ops 0 (s, []) = (.ret step, (s', log)) ∧
      runExplicitHeapStackLoop plan b.ops (3 * plan.nodeCount + extra) (s, [])
        = (.ret step, (s', log)) :=
  b.runs_return plan s extra

/-! ## §3. The nodes a run enters. -/

/-- The node entries of a recorded run, with their statuses. -/
def entries (log : List DfsEvent) : List (Nat × StepResult) :=
  log.filterMap fun event =>
    match event with
    | .entered i step => some (i, step)
    | _ => none

/-- `E` are the entries of a traversal of the forest that ends with `r`. -/
def Visits : Forest Nat → List (Nat × StepResult) → StepResult → Prop
  | .nil, E, r => E = [] ∧ r = .success
  | .cons i below rest, E, r => ∃ step E₁ r₁ E₂,
      E = (i, step) :: (E₁ ++ E₂) ∧
      (if step.ok then Visits below E₁ r₁ else E₁ = [] ∧ r₁ = step) ∧
      (if r₁.Stops then E₂ = [] ∧ r = r₁ else Visits rest E₂ r)

/-- Entering a node records it; what surrounds the children records no entry. -/
theorem dfsNode_visits (i : Nat) {children : Exec (σ × List DfsEvent) StepResult}
    {V : List (Nat × StepResult) → StepResult → Prop}
    (hc : ∀ s log, ∃ r s' log' E, children (s, log) = (.ret r, (s', log')) ∧
      entries log' = entries log ++ E ∧ V E r) (unwind : Bool) (s : σ) (log : List DfsEvent) :
    ∃ r s' log' step E, dfsNode unwind b.ops i children (s, log) = (.ret r, (s', log')) ∧
      entries log' = entries log ++ (i, step) :: E ∧
      (if step.ok then V E r else E = [] ∧ r = step) := by
  rcases hb : b.enterNode i s with ⟨result, s₁⟩
  have henter : b.ops.enterNode i (s, log)
      = (.ret result, (s₁, log ++ [.entered i result.step])) := by
    simp [NodeBehaviour.ops, hb]
  cases hok : result.step.ok with
  | false =>
      refine ⟨result.step, s₁, log ++ [.entered i result.step], result.step, [], ?_, ?_,
        by simp [hok]⟩
      · rw [dfsNode, Exec.bind_ret henter, if_neg (by simp [hok])]
        rfl
      · simp [entries]
  | true =>
      have hprep : ∃ s₂ log₂, b.ops.prepareFanoutStaging i
            (s₁, log ++ [.entered i result.step]) = (.ret (), (s₂, log₂)) ∧
          entries log₂ = entries log ++ [(i, result.step)] := by
        rw [DfsOps.prepareFanoutStaging]
        split
        · exact ⟨_, _, rfl, by simp [entries]⟩
        · exact ⟨_, _, rfl, by simp [entries]⟩
      obtain ⟨s₂, log₂, hprep, hlog₂⟩ := hprep
      obtain ⟨r, s₃, log₃, E, hrun, hlog₃, hV⟩ := hc s₂ log₂
      -- neither cleanup records an entry
      have hunstage : ∀ t l, ∃ t' l', b.ops.destroyFanoutStaging i (t, l) = (t', l') ∧
          entries l' = entries l := by
        intro t l
        rw [DfsOps.destroyFanoutStaging]
        cases b.ops.requiresStaging i
        · exact ⟨_, _, rfl, rfl⟩
        · exact ⟨_, _, rfl, by simp [entries]⟩
      have hdestroy : ∀ t l, ∃ t' l', (bif result.payloadLive then
          b.ops.destroyPayload i (t, l) else (t, l)) = (t', l') ∧ entries l' = entries l := by
        intro t l
        cases result.payloadLive
        · exact ⟨_, _, rfl, rfl⟩
        · exact ⟨_, _, rfl, by simp [entries]⟩
      obtain ⟨s₄, log₄, hun, hlog₄⟩ := hunstage s₃ log₃
      obtain ⟨s₅, log₅, hde, hlog₅⟩ := hdestroy s₄ log₄
      refine ⟨r, s₅, log₅, result.step, E, ?_, ?_, by simpa [hok] using hV⟩
      · have hinner : (b.ops.prepareFanoutStaging i >>= fun _ =>
            Exec.onExit unwind (b.ops.destroyFanoutStaging i) children)
              (s₁, log ++ [.entered i result.step]) = (.ret r, (s₄, log₄)) := by
          rw [Exec.bind_ret hprep, Exec.onExit_ret hrun, hun]
        rw [dfsNode, Exec.bind_ret henter, if_pos hok, Exec.onExit_ret hinner, hde]
      · rw [hlog₅, hlog₄, hlog₃, hlog₂, List.append_assoc]
        rfl

theorem dfsChildren_visits (unwind : Bool) : ∀ (f : Forest Nat) (s : σ) (log : List DfsEvent),
    ∃ r s' log' E, dfsChildren unwind b.ops f (s, log) = (.ret r, (s', log')) ∧
      entries log' = entries log ++ E ∧ Visits f E r
  | .nil, s, log => ⟨.success, s, log, [], rfl, by simp, rfl, rfl⟩
  | .cons i c l, s, log => by
      obtain ⟨r₁, s₁, log₁, step, E₁, hnode, hlog₁, hbelow⟩ :=
        dfsNode_visits b i (dfsChildren_visits unwind c) unwind s log
      by_cases hstop : r₁.Stops
      · refine ⟨r₁, s₁, log₁, (i, step) :: E₁, ?_, hlog₁, step, E₁, r₁, [], by simp, hbelow, ?_⟩
        · rw [dfsChildren, Exec.bind_ret hnode, if_pos hstop]
          rfl
        · rw [if_pos hstop]
          exact ⟨rfl, rfl⟩
      · obtain ⟨r, s₂, log₂, E₂, hrest, hlog₂, hV⟩ := dfsChildren_visits unwind l s₁ log₁
        refine ⟨r, s₂, log₂, (i, step) :: (E₁ ++ E₂), ?_, ?_, step, E₁, r₁, E₂, rfl, hbelow, ?_⟩
        · rw [dfsChildren, Exec.bind_ret hnode, if_neg hstop, hrest]
        · rw [hlog₂, hlog₁]
          simp
        · rwa [if_neg hstop]

/-! ## §4. What the entries say. -/

section Visits

variable {f : Forest Nat} {E : List (Nat × StepResult)} {r : StepResult}

/-- Entries follow the preorder. -/
theorem Visits.sublist : ∀ {f : Forest Nat} {E : List (Nat × StepResult)} {r : StepResult},
    Visits f E r → (E.map Prod.fst).Sublist f.preorder
  | .nil, E, r, h => by
      rw [h.1]
      exact List.nil_sublist _
  | .cons i c l, E, r, h => by
      obtain ⟨step, E₁, r₁, E₂, rfl, hc, hl⟩ := h
      have hc : (E₁.map Prod.fst).Sublist c.preorder := by
        split at hc
        · exact hc.sublist
        · rw [hc.1]
          exact List.nil_sublist _
      have hl : (E₂.map Prod.fst).Sublist l.preorder := by
        split at hl
        · rw [hl.1]
          exact List.nil_sublist _
        · exact hl.sublist
      rw [List.map_cons, List.map_append]
      exact (hc.append hl).cons_cons i

/-- The last entry stopped the traversal, with its status. -/
def StoppedBy (E : List (Nat × StepResult)) (r : StepResult) : Prop :=
  r.Stops ∧ ∃ E' i, E = E' ++ [(i, r)] ∧ ∀ e ∈ E', ¬ e.2.Stops

/-- A traversal succeeds, with no entry that stops, or ends at the first one. -/
theorem Visits.result : ∀ {f : Forest Nat} {E : List (Nat × StepResult)} {r : StepResult},
    Visits f E r → (r = .success ∧ ∀ e ∈ E, ¬ e.2.Stops) ∨ StoppedBy E r
  | .nil, E, r, h => by
      refine Or.inl ⟨h.2, ?_⟩
      rw [h.1]
      intro e he
      cases he
  | .cons i c l, E, r, h => by
      obtain ⟨step, E₁, r₁, E₂, rfl, hc, hl⟩ := h
      -- the first tree: its entries, ending with `r₁` if that stops
      have hfirst : (¬ r₁.Stops ∧ ∀ e ∈ (i, step) :: E₁, ¬ e.2.Stops) ∨
          StoppedBy ((i, step) :: E₁) r₁ := by
        split at hc
        · next hok =>
            have hstep : ¬ step.Stops := by
              rw [StepResult.ok_iff.mp hok]
              decide
            rcases hc.result with ⟨rfl, hnone⟩ | ⟨hstop, E', j, rfl, hnone⟩
            · refine Or.inl ⟨by decide, fun e he => ?_⟩
              rcases List.mem_cons.mp he with rfl | he
              · exact hstep
              · exact hnone e he
            · refine Or.inr ⟨hstop, (i, step) :: E', j, rfl, fun e he => ?_⟩
              rcases List.mem_cons.mp he with rfl | he
              · exact hstep
              · exact hnone e he
        · obtain ⟨rfl, rfl⟩ := hc
          by_cases hstop : r₁.Stops
          · exact Or.inr ⟨hstop, [], i, rfl, fun e he => by cases he⟩
          · refine Or.inl ⟨hstop, fun e he => ?_⟩
            obtain rfl : e = (i, r₁) := by simpa using he
            exact hstop
      rcases hfirst with ⟨hgo, hnone⟩ | hstopped
      · rw [if_neg hgo] at hl
        rcases hl.result with ⟨rfl, hnone'⟩ | ⟨hstop, E', j, rfl, hnone'⟩
        · refine Or.inl ⟨rfl, fun e he => ?_⟩
          rw [← List.cons_append] at he
          rcases List.mem_append.mp he with he | he
          · exact hnone e he
          · exact hnone' e he
        · refine Or.inr ⟨hstop, (i, step) :: E₁ ++ E', j, by simp, fun e he => ?_⟩
          rcases List.mem_append.mp he with he | he
          · exact hnone e he
          · exact hnone' e he
      · rw [if_pos hstopped.1] at hl
        obtain ⟨rfl, rfl⟩ := hl
        rw [List.append_nil]
        exact Or.inr hstopped

theorem Visits.mem_preorder (h : Visits f E r) {e : Nat × StepResult} (he : e ∈ E) :
    e.1 ∈ f.preorder :=
  h.sublist.subset (List.mem_map_of_mem he)

/-- Of the entries `E`, `x` is one exactly if its parent is `q` or an entry that
succeeded, and no earlier entry stopped the traversal. -/
def EnteredBy (par : Nat → Nat) (q : Nat) (E : List (Nat × StepResult)) (x : Nat) : Prop :=
  x ∈ E.map Prod.fst ↔
    (par x = q ∨ (par x, .success) ∈ E) ∧ ∀ e ∈ E, e.1 < x → ¬ e.2.Stops

section Cons

variable {par : Nat → Nat} {q i x : Nat} {c l : Forest Nat} {step r₁ : StepResult}
  {E₁ E₂ : List (Nat × StepResult)}

/-- The first root: nothing is entered before it. -/
theorem enteredBy_root (hi : par i = q) (hE₁ : ∀ e ∈ E₁, i < e.1) (hE₂ : ∀ e ∈ E₂, i < e.1) :
    EnteredBy par q ((i, step) :: (E₁ ++ E₂)) i := by
  refine ⟨fun _ => ⟨Or.inl hi, ?_⟩, fun _ => List.mem_cons_self⟩
  intro e he hlt
  rcases List.mem_cons.mp he with rfl | he
  · exact absurd hlt (Nat.lt_irrefl _)
  rcases List.mem_append.mp he with he | he
  · exact absurd hlt (Nat.lt_asymm (hE₁ e he))
  · exact absurd hlt (Nat.lt_asymm (hE₂ e he))

/-- Below the first root: what is entered there decides, if the root succeeded. -/
theorem enteredBy_below (hx : x ∈ c.preorder) (hqi : q < i) (hhead : ∀ y ∈ c.preorder, i < y)
    (hE₂ : ∀ e ∈ E₂, ∀ y ∈ c.preorder, y < e.1) (hpar : par x = i ∨ par x ∈ c.preorder)
    (hc : if step.ok then EnteredBy par i E₁ x else E₁ = []) :
    EnteredBy par q ((i, step) :: (E₁ ++ E₂)) x := by
  have hxi : i < x := hhead x hx
  -- neither `x` nor its parent is among the later entries
  have hnot₂ : x ∉ E₂.map Prod.fst := by
    intro hmem
    obtain ⟨e, he, rfl⟩ := List.mem_map.mp hmem
    exact Nat.lt_irrefl _ (hE₂ e he _ hx)
  have hparq : par x ≠ q := by
    rcases hpar with h | h
    · omega
    · have := hhead _ h
      omega
  have hpar₂ : (par x, StepResult.success) ∉ E₂ := by
    intro hmem
    rcases hpar with h | h
    · have := hE₂ _ hmem x hx
      omega
    · exact Nat.lt_irrefl _ (hE₂ _ hmem _ h)
  unfold EnteredBy at hc ⊢
  simp only [List.map_cons, List.map_append, List.mem_cons, List.mem_append]
  split at hc
  · next hok =>
      obtain rfl := StepResult.ok_iff.mp hok
      rw [or_iff_right (Nat.ne_of_gt hxi), or_iff_left hnot₂, hc]
      constructor
      · rintro ⟨hp, hnone⟩
        refine ⟨Or.inr ?_, ?_⟩
        · rcases hp with hp | hp
          · exact Or.inl (by rw [hp])
          · exact Or.inr (Or.inl hp)
        · rintro e (rfl | he | he) hlt
          · exact (by decide : ¬ StepResult.success.Stops)
          · exact hnone e he hlt
          · exact absurd hlt (Nat.lt_asymm (hE₂ e he x hx))
      · rintro ⟨hp, hnone⟩
        refine ⟨?_, fun e he hlt => hnone e (Or.inr (Or.inl he)) hlt⟩
        rcases hp with hp | hp | hp | hp
        · exact absurd hp hparq
        · exact Or.inl (Prod.mk.inj hp).1
        · exact Or.inr hp
        · exact absurd hp hpar₂
  · next hok =>
      subst hc
      constructor
      · rintro (h | h | h)
        · omega
        · cases h
        · exact absurd h hnot₂
      · rintro ⟨hp | hp | hp | hp, -⟩
        · exact absurd hp hparq
        · rw [← (Prod.mk.inj hp).2] at hok
          exact absurd rfl hok
        · cases hp
        · exact absurd hp hpar₂

/-- Among the later trees: what is entered there decides, if the first tree did
not stop the traversal. -/
theorem enteredBy_later (hx : x ∈ l.preorder)
    (hE : ∀ e ∈ (i, step) :: E₁, ∀ y ∈ l.preorder, e.1 < y)
    (hpar : par x = q ∨ par x ∈ l.preorder)
    (hl : (∃ e ∈ (i, step) :: E₁, e.2.Stops) ∧ E₂ = []
      ∨ (∀ e ∈ (i, step) :: E₁, ¬ e.2.Stops) ∧ EnteredBy par q E₂ x) :
    EnteredBy par q ((i, step) :: (E₁ ++ E₂)) x := by
  have hxi : i < x := hE _ List.mem_cons_self x hx
  -- the first tree's entries come before `x`, so a stop among them is decisive
  have hnot₁ : x ∉ E₁.map Prod.fst := by
    intro hmem
    obtain ⟨e, he, rfl⟩ := List.mem_map.mp hmem
    exact Nat.lt_irrefl _ (hE e (List.mem_cons_of_mem _ he) _ hx)
  have hpar₁ : par x = q ∨ (par x, StepResult.success) ∉ (i, step) :: E₁ := by
    refine hpar.imp_right fun h hmem => ?_
    exact Nat.lt_irrefl _ (hE _ hmem _ h)
  unfold EnteredBy at hl ⊢
  simp only [List.map_cons, List.map_append, List.mem_cons, List.mem_append]
  rw [or_iff_right (Nat.ne_of_gt hxi), or_iff_right hnot₁]
  rcases hl with ⟨⟨e, he, hstop⟩, rfl⟩ | ⟨hnone₁, hl⟩
  · constructor
    · intro h
      cases h
    · rintro ⟨-, hnone⟩
      refine absurd hstop (hnone e ?_ (hE e he x hx))
      rcases List.mem_cons.mp he with h | h
      · exact Or.inl h
      · exact Or.inr (Or.inl h)
  · rw [hl]
    constructor
    · rintro ⟨hp, hnone⟩
      refine ⟨hp.imp_right fun hp => Or.inr (Or.inr hp), ?_⟩
      rintro e (rfl | he | he) hlt
      · exact hnone₁ _ List.mem_cons_self
      · exact hnone₁ e (List.mem_cons_of_mem _ he)
      · exact hnone e he hlt
    · rintro ⟨hp, hnone⟩
      refine ⟨?_, fun e he hlt => hnone e (Or.inr (Or.inr he)) hlt⟩
      rcases hpar₁ with h | hnot
      · exact Or.inl h
      rcases hp with hp | hp | hp | hp
      · exact Or.inl hp
      · exact absurd (List.mem_cons.mpr (Or.inl hp)) hnot
      · exact absurd (List.mem_cons_of_mem _ hp) hnot
      · exact Or.inr hp

/-- The first tree's entries: one of them stops, or none does. -/
theorem Visits.first (hc : if step.ok then Visits c E₁ r₁ else E₁ = [] ∧ r₁ = step) :
    (r₁.Stops ∧ ∃ e ∈ (i, step) :: E₁, e.2.Stops)
      ∨ (¬ r₁.Stops ∧ ∀ e ∈ (i, step) :: E₁, ¬ e.2.Stops) := by
  by_cases hstop : r₁.Stops
  · have hvisits : Visits (.cons i c .nil) ((i, step) :: E₁) r₁ :=
      ⟨step, E₁, r₁, [], by simp, hc, by simp [hstop]⟩
    obtain ⟨-, E', j, hE', -⟩ := hvisits.result.resolve_left (fun h => by
      rw [h.1] at hstop
      exact absurd hstop (by decide))
    exact Or.inl ⟨hstop, (j, r₁), by simp [hE'], hstop⟩
  · have hvisits : Visits (.cons i c .nil) ((i, step) :: E₁) .success :=
      ⟨step, E₁, r₁, [], by simp, hc, by rw [if_neg hstop]; exact ⟨rfl, rfl⟩⟩
    rcases hvisits.result with h | h
    · exact Or.inr ⟨hstop, h.2⟩
    · exact absurd h.1 (by decide)

end Cons

/-- **Which nodes are entered**: those whose parent is above the forest or was
entered and succeeded, with nothing earlier that stopped the traversal. -/
theorem Visits.mem_iff {par : Nat → Nat} :
    ∀ {f : Forest Nat} {E : List (Nat × StepResult)} {r : StepResult} {q : Nat},
      Visits f E r → Forest.Parented par q f → f.preorder.Pairwise (· < ·) →
      (∀ x ∈ f.preorder, q < x) → ∀ x ∈ f.preorder, EnteredBy par q E x
  | .nil, _, _, _, _, _, _, _, x, hx => by cases hx
  | .cons i c l, E, r, q, h, hpar, hsorted, hq, x, hx => by
      obtain ⟨step, E₁, r₁, E₂, rfl, hc, hl⟩ := h
      obtain ⟨hi, hparc, hparl⟩ := hpar
      simp only [Forest.preorder_cons, List.pairwise_cons, List.pairwise_append,
        List.mem_append] at hsorted hx hq
      obtain ⟨hhead, hsc, hsl, hcl⟩ := hsorted
      have hE₁ : ∀ e ∈ E₁, e.1 ∈ c.preorder := by
        intro e he
        split at hc
        · exact hc.mem_preorder he
        · rw [hc.1] at he
          cases he
      have hE₂ : ∀ e ∈ E₂, e.1 ∈ l.preorder := by
        intro e he
        split at hl
        · rw [hl.1] at he
          cases he
        · exact hl.mem_preorder he
      rcases List.mem_cons.mp hx with rfl | hx
      · exact enteredBy_root hi (fun e he => hhead _ (Or.inl (hE₁ e he)))
          fun e he => hhead _ (Or.inr (hE₂ e he))
      rcases List.mem_append.mp hx with hx | hx
      · -- the induction is on the forest: the traversal of `c` has `i` above it
        apply enteredBy_below hx (hq i List.mem_cons_self) (fun y hy => hhead y (Or.inl hy))
          (fun e he y hy => hcl y hy _ (hE₂ e he)) (hparc.mem x hx)
        split at hc
        · next hok =>
            rw [if_pos hok]
            exact hc.mem_iff hparc hsc (fun y hy => hhead y (Or.inl hy)) x hx
        · next hok =>
            rw [if_neg hok]
            exact hc.1
      · have hE : ∀ e ∈ (i, step) :: E₁, ∀ y ∈ l.preorder, e.1 < y := by
          intro e he y hy
          rcases List.mem_cons.mp he with rfl | he
          · exact hhead y (Or.inr hy)
          · exact hcl _ (hE₁ e he) y hy
        apply enteredBy_later hx hE (hparl.mem x hx)
        -- the trees of `l` have the same `q` above them, and are traversed only after a first
        -- tree that did not stop
        rcases Visits.first hc with ⟨hstop, hex⟩ | ⟨hgo, hnone⟩
        · rw [if_pos hstop] at hl
          exact Or.inl ⟨hex, hl.1⟩
        · rw [if_neg hgo] at hl
          exact Or.inr ⟨hnone, hl.mem_iff hparl hsl (fun y hy => hq y (List.mem_cons_of_mem _
            (List.mem_append_right _ hy))) x hx⟩

end Visits

/-! ## §5. Whole runs. -/

namespace PlanShape

variable (plan : PlanShape)

/-- The nodes below the root, in order. -/
theorem below_preorder : plan.below.preorder.Pairwise (· < ·) ∧
    (∀ x ∈ plan.below.preorder, 0 < x) ∧
    ∀ x, x ∈ plan.below.preorder ↔ 0 < x ∧ x < plan.nodeCount := by
  have hsorted : (List.range plan.nodeCount).Pairwise (· < ·) := List.pairwise_lt_range
  rw [plan.range_eq, List.pairwise_cons] at hsorted
  refine ⟨hsorted.2, hsorted.1, fun x => ?_⟩
  have hmem : x ∈ List.range plan.nodeCount ↔ x ∈ 0 :: plan.below.preorder := by
    rw [plan.range_eq]
  rw [List.mem_range, List.mem_cons] at hmem
  constructor
  · intro hx
    exact ⟨hsorted.1 x hx, hmem.mpr (Or.inr hx)⟩
  · rintro ⟨hpos, hlt⟩
    exact (hmem.mp hlt).resolve_left (Nat.ne_of_gt hpos)

/-- Which nodes below the root are entered, in terms of all entries. -/
theorem enters_iff {rootStep r : StepResult} {E : List (Nat × StepResult)}
    (hbelow : if rootStep.ok then Visits plan.below E r else E = [] ∧ r = rootStep) :
    ∀ c, 0 < c → c < plan.nodeCount →
      (c ∈ ((0, rootStep) :: E).map Prod.fst ↔
        (plan.parentIndex c, .success) ∈ (0, rootStep) :: E ∧
          ∀ e ∈ (0, rootStep) :: E, e.1 < c → e.2 = .success ∨ e.2 = .abortBranch) := by
  intro c hc hcn
  obtain ⟨hsorted, hpos, hmem⟩ := plan.below_preorder
  simp only [List.map_cons, List.mem_cons, ← StepResult.not_stops_iff]
  rw [or_iff_right (Nat.ne_of_gt hc)]
  split at hbelow
  · next hok =>
      obtain rfl := StepResult.ok_iff.mp hok
      have hentered := hbelow.mem_iff plan.below_parented hsorted hpos c ((hmem c).mpr ⟨hc, hcn⟩)
      unfold EnteredBy at hentered
      rw [hentered]
      constructor
      · rintro ⟨hp, hnone⟩
        refine ⟨hp.imp_left fun h => by rw [h], ?_⟩
        rintro e (rfl | he) hlt
        · exact (by decide : ¬ StepResult.success.Stops)
        · exact hnone e he hlt
      · rintro ⟨hp, hnone⟩
        exact ⟨hp.imp_left fun h => (Prod.mk.inj h).1, fun e he => hnone e (Or.inr he)⟩
  · next hok =>
      -- a root that did not succeed is the only entry
      rw [hbelow.1]
      constructor
      · intro h
        cases h
      · rintro ⟨h | h, -⟩
        · rw [← (Prod.mk.inj h).2] at hok
          exact absurd rfl hok
        · cases h

/-- If entered nodes have parents that succeeded, nothing is entered below one
that did not. -/
theorem not_entered_below {E : List (Nat × StepResult)} {a d : Nat}
    (hparent : ∀ c, 0 < c → c < plan.nodeCount → c ∈ E.map Prod.fst →
      (plan.parentIndex c, .success) ∈ E)
    (ha : (a, StepResult.success) ∉ E) (hd : plan.IsAncestor a d) : d ∉ E.map Prod.fst := by
  induction hd with
  | single hchild =>
      intro hin
      have hsuccess := hparent _ hchild.1 hchild.2.1 hin
      rw [hchild.2.2] at hsuccess
      exact ha hsuccess
  | tail _ hchild ih =>
      intro hin
      have hsuccess := hparent _ hchild.1 hchild.2.1 hin
      rw [hchild.2.2] at hsuccess
      exact ih (List.mem_map_of_mem (f := Prod.fst) hsuccess)

end PlanShape

/-- **What a run enters and returns.**  Under either executor, for every plan
and every behaviour of its nodes: entries come in strictly increasing order; a
non-root node is entered exactly when its parent was entered and succeeded and
every node entered before it succeeded or aborted its branch; the result is the
root's own status if the root did not succeed, else that of the one node that
stopped the run, the last one entered, else success.  An aborted branch below
the root enters none of its descendants and never becomes the result. -/
theorem run_enters (plan : PlanShape) (b : NodeBehaviour σ) (s : σ) :
    ∃ r s' log,
      runNode plan b.ops 0 (s, []) = (.ret r, (s', log)) ∧
      runExplicitHeapStack plan b.ops (s, []) = (.ret r, (s', log)) ∧
      ((entries log).map Prod.fst).Pairwise (· < ·) ∧
      (∀ e ∈ entries log, e.1 < plan.nodeCount) ∧
      (∀ c, 0 < c → c < plan.nodeCount →
        (c ∈ (entries log).map Prod.fst ↔
          (plan.parentIndex c, .success) ∈ entries log ∧
            ∀ e ∈ entries log, e.1 < c → e.2 = .success ∨ e.2 = .abortBranch)) ∧
      (∃ rootStep, (0, rootStep) ∈ entries log ∧
        (rootStep ≠ .success → r = rootStep ∧ entries log = [(0, rootStep)]) ∧
        (rootStep = .success →
          (r = .success ∧ ∀ e ∈ entries log, e.2 = .success ∨ e.2 = .abortBranch) ∨
          ((r = .failure ∨ r = .retry ∨ r = .abortExecution) ∧
            ∃ E i, entries log = E ++ [(i, r)] ∧
              ∀ e ∈ E, e.2 = .success ∨ e.2 = .abortBranch))) ∧
      (∀ a, 0 < a → (a, .abortBranch) ∈ entries log →
        r ≠ .abortBranch ∧ ∀ d, plan.IsAncestor a d → d ∉ (entries log).map Prod.fst) := by
  obtain ⟨r, s', log, hrec, hheap⟩ := b.runs_return plan s 0
  refine ⟨r, s', log, hrec, hheap, ?_⟩
  -- the entries are the root's and those of the traversal below it
  rw [runNode_root] at hrec
  obtain ⟨r', s'', log', rootStep, E, hrun, hlog, hbelow⟩ :=
    dfsNode_visits b 0 (dfsChildren_visits b true plan.below) true s []
  rw [hrun, Prod.mk.injEq, Prod.mk.injEq, Exit.ret.injEq] at hrec
  obtain ⟨rfl, rfl, rfl⟩ := hrec
  replace hlog : entries log' = (0, rootStep) :: E := hlog
  obtain ⟨hsorted, hpos, hmem⟩ := plan.below_preorder
  have hsub : (E.map Prod.fst).Sublist plan.below.preorder := by
    split at hbelow
    · exact hbelow.sublist
    · rw [hbelow.1]
      exact List.nil_sublist _
  have hE : ∀ e ∈ E, e.1 ∈ plan.below.preorder := fun e he =>
    hsub.subset (List.mem_map_of_mem he)
  have hincreasing : ((entries log').map Prod.fst).Pairwise (· < ·) := by
    rw [hlog, List.map_cons, List.pairwise_cons]
    exact ⟨fun x hx => hpos x (hsub.subset hx), hsorted.sublist hsub⟩
  have henter : ∀ c, 0 < c → c < plan.nodeCount →
      (c ∈ (entries log').map Prod.fst ↔
        (plan.parentIndex c, .success) ∈ entries log' ∧
          ∀ e ∈ entries log', e.1 < c → e.2 = .success ∨ e.2 = .abortBranch) := by
    rw [hlog]
    exact plan.enters_iff hbelow
  refine ⟨hincreasing, ?_, henter, ⟨rootStep, by simp [hlog], ?_, ?_⟩, ?_⟩
  · intro e he
    rw [hlog] at he
    rcases List.mem_cons.mp he with rfl | he
    · exact plan.nodeCount_pos
    · exact ((hmem _).mp (hE e he)).2
  · intro hne
    rw [if_neg fun hok => hne (StepResult.ok_iff.mp hok)] at hbelow
    exact ⟨hbelow.2, by rw [hlog, hbelow.1]⟩
  · rintro rfl
    rw [if_pos StepResult.ok_success] at hbelow
    simp only [← StepResult.not_stops_iff, ← StepResult.stops_iff, hlog]
    have hroot : ¬ StepResult.success.Stops := by decide
    rcases hbelow.result with ⟨rfl, hnone⟩ | ⟨hstop, E', i, rfl, hnone⟩
    · refine Or.inl ⟨rfl, fun e he => ?_⟩
      rcases List.mem_cons.mp he with rfl | he
      · exact hroot
      · exact hnone e he
    · refine Or.inr ⟨hstop, (0, .success) :: E', i, rfl, fun e he => ?_⟩
      rcases List.mem_cons.mp he with rfl | he
      · exact hroot
      · exact hnone e he
  · intro a ha haE
    have haE' : (a, StepResult.abortBranch) ∈ E := by
      rw [hlog] at haE
      rcases List.mem_cons.mp haE with h | h
      · exact absurd (Prod.mk.inj h).1 (Nat.ne_of_gt ha)
      · exact h
    refine ⟨?_, fun d hd => ?_⟩
    · split at hbelow
      · rcases hbelow.result with ⟨rfl, -⟩ | ⟨hstop, -⟩
        · decide
        · rintro rfl
          exact absurd hstop (by decide)
      · rw [hbelow.1] at haE'
        cases haE'
    · -- one status an index: no descendant has a parent that succeeded
      have hunique : (a, StepResult.success) ∉ entries log' := by
        intro hsuc
        have hnodup : ((entries log').map Prod.fst).Nodup := hincreasing.imp Nat.ne_of_lt
        have := List.inj_on_of_nodup_map hnodup haE hsuc rfl
        exact absurd (Prod.mk.inj this).2 (by decide)
      exact plan.not_entered_below (fun c hc hcn hin => ((henter c hc hcn).mp hin).1) hunique hd

end YOrch
