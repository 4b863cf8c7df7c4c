/-
  YOrch.Library.Exec — computations that return, throw, or never come back.

  `Exec σ α` is a deterministic computation over a state `σ` whose exit is one
  of three: a returned value, a thrown exception, or `halted`, which stands for
  everything after which the program has no further meaning (an endless loop, a
  terminated process, undefined behaviour).  Two program logics come with it:

    • `Sim R x y S E H` — from `R`-related states, `x` and `y` exit the same
      way; a return leaves states related by `S`, an exception by `E`, and a
      run that halts by `H`,
    • `Triple P x Q E H` — the same about one computation: a return satisfies
      `Q`, an exception `E`, and a run that halts `H`.

  Both have one rule for each combinator: return, sequencing, state actions,
  `catchAll`, `noexcept`, the scope guard `onExit`, and the bounded loop
  `iterate`.  A triple is the simulation of a computation by itself, so its
  rules are the rules of `Sim` on equal states.  `Together` compares two
  computations that do the same up to a point and go their own ways after it.
  `Runs` relates a computation to the parts of it whose exceptions leave it.
  `attempts` repeats a computation while its results ask for it; such loops nest.
-/
import Mathlib.Tactic.Common

namespace YOrch.Library

/-- How a computation ends. -/
inductive Exit (α : Type) where
  | ret (a : α)
  | thrown
  | halted
  deriving Repr, DecidableEq

/-- A computation over the state `σ`. -/
def Exec (σ α : Type) : Type := σ → Exit α × σ

namespace Exec

variable {σ τ α β : Type}

/-! ## §1. Combinators. -/

instance : Monad (Exec σ) where
  pure a := fun s => (.ret a, s)
  bind x f := fun s =>
    match x s with
    | (.ret a, s') => f a s'
    | (.thrown, s') => (.thrown, s')
    | (.halted, s') => (.halted, s')

/-- Throw an exception. -/
def throw : Exec σ α := fun s => (.thrown, s)

/-- Never come back. -/
def halt : Exec σ α := fun s => (.halted, s)

/-- Act on the state and return what the action returns. -/
def act (f : σ → α × σ) : Exec σ α := fun s => (.ret (f s).1, (f s).2)

/-- Read from the state. -/
def reads (f : σ → α) : Exec σ α := act fun s => (f s, s)

/-- Update the state. -/
def modify (f : σ → σ) : Exec σ Unit := act fun s => ((), f s)

/-- A value that has to be there. -/
def ofOption : Option α → Exec σ α
  | some a => pure a
  | none => halt

/-- End the way `exit` says. -/
def ofExit : Exit α → Exec σ α
  | .ret a => pure a
  | .thrown => throw
  | .halted => halt

/-- `try { x } catch (...) { h }`. -/
def catchAll (x : Exec σ α) (h : Exec σ α) : Exec σ α := fun s =>
  match x s with
  | (.ret a, s') => (.ret a, s')
  | (.thrown, s') => h s'
  | (.halted, s') => (.halted, s')

/-- A scope no exception leaves: one that tries to ends the program. -/
def noexcept (x : Exec σ α) : Exec σ α := fun s =>
  match x s with
  | (.ret a, s') => (.ret a, s')
  | (.thrown, s') => (.halted, s')
  | (.halted, s') => (.halted, s')

/-- `x` followed by `cleanup`, on a return always and on an exception only if
the scope unwinds. -/
def onExit (unwind : Bool) (cleanup : σ → σ) (x : Exec σ α) : Exec σ α := fun s =>
  match x s with
  | (.ret a, s') => (.ret a, cleanup s')
  | (.thrown, s') => (.thrown, bif unwind then cleanup s' else s')
  | (.halted, s') => (.halted, s')

/-- The scope guard of a C++ object with a destructor that may be disarmed. -/
def guarded (armed : Bool) (cleanup : σ → σ) (x : Exec σ α) : Exec σ α :=
  onExit true (fun s => bif armed then cleanup s else s) x

/-- Run with a state of its own beside the shared one, and return what is left
of it. -/
def withLocal (m : τ) (x : Exec (τ × σ) α) : Exec σ (α × τ) := fun s =>
  match x (m, s) with
  | (.ret a, s') => (.ret (a, s'.1), s'.2)
  | (.thrown, s') => (.thrown, s'.2)
  | (.halted, s') => (.halted, s'.2)

/-- Repeat `step` until it yields a result; `halted` when the bound runs out. -/
def iterate (step : α → Exec σ (α ⊕ β)) : Nat → α → Exec σ β
  | 0, _ => halt
  | fuel + 1, a => step a >>= Sum.elim (iterate step fuel) pure

/-! ## §2. Evaluation. -/

@[simp] theorem pure_run (a : α) (s : σ) : (pure a : Exec σ α) s = (.ret a, s) := rfl

/-- A sequence goes on exactly where its first part returns. -/
theorem bind_run (x : Exec σ α) (f : α → Exec σ β) (s : σ) :
    (x >>= f) s = match x s with
      | (.ret a, s') => f a s'
      | (.thrown, s') => (.thrown, s')
      | (.halted, s') => (.halted, s') := rfl

theorem bind_ret {x : Exec σ α} {s s' : σ} {a : α} (h : x s = (.ret a, s'))
    (f : α → Exec σ β) : (x >>= f) s = f a s' := by
  rw [bind_run, h]

theorem bind_thrown {x : Exec σ α} {s s' : σ} (h : x s = (.thrown, s'))
    (f : α → Exec σ β) : (x >>= f) s = (.thrown, s') := by
  rw [bind_run, h]

theorem bind_halted {x : Exec σ α} {s s' : σ} (h : x s = (.halted, s'))
    (f : α → Exec σ β) : (x >>= f) s = (.halted, s') := by
  rw [bind_run, h]

/-- A sequence returns exactly if both parts do. -/
theorem bind_eq_ret {x : Exec σ α} {f : α → Exec σ β} {s s' : σ} {b : β} :
    (x >>= f) s = (.ret b, s') ↔ ∃ a s₁, x s = (.ret a, s₁) ∧ f a s₁ = (.ret b, s') := by
  rw [bind_run]
  rcases x s with ⟨a | _ | _, s₁⟩ <;> simp

@[simp] theorem pure_bind_run (a : α) (f : α → Exec σ β) (s : σ) :
    ((pure a : Exec σ α) >>= f) s = f a s := rfl

@[simp] theorem throw_run (s : σ) : (throw : Exec σ α) s = (.thrown, s) := rfl
@[simp] theorem halt_run (s : σ) : (halt : Exec σ α) s = (.halted, s) := rfl
@[simp] theorem act_run (f : σ → α × σ) (s : σ) : act f s = (.ret (f s).1, (f s).2) := rfl
@[simp] theorem reads_run (f : σ → α) (s : σ) : reads f s = (.ret (f s), s) := rfl
@[simp] theorem modify_run (f : σ → σ) (s : σ) : modify f s = (.ret (), f s) := rfl
@[simp] theorem ofOption_some (a : α) : (ofOption (some a) : Exec σ α) = pure a := rfl
@[simp] theorem ofOption_none : (ofOption none : Exec σ α) = halt := rfl

theorem bind_pure_left (a : α) (f : α → Exec σ β) : ((pure a : Exec σ α) >>= f) = f a := rfl

/-- Nesting of sequences does not matter. -/
theorem bind_assoc {γ : Type} (x : Exec σ α) (f : α → Exec σ β) (g : β → Exec σ γ) :
    (x >>= f) >>= g = x >>= fun a => f a >>= g := by
  funext s
  simp only [bind_run]
  rcases x s with ⟨_ | _ | _, s'⟩ <;> rfl

/-- A scope that is left by a return is cleaned up. -/
theorem onExit_ret {x : Exec σ α} {s s' : σ} {a : α} (h : x s = (.ret a, s'))
    (unwind : Bool) (cleanup : σ → σ) :
    onExit unwind cleanup x s = (.ret a, cleanup s') := by
  rw [onExit, h]

@[simp] theorem guarded_false (cleanup : σ → σ) (x : Exec σ α) :
    guarded false cleanup x = x := by
  funext s
  simp only [guarded, onExit, cond_false, cond_true]
  rcases x s with ⟨_ | _ | _, s'⟩ <;> rfl

/-- Returning what was returned adds nothing. -/
theorem bind_pure_right (x : Exec σ α) : x >>= pure = x := by
  funext s
  rw [bind_run]
  rcases x s with ⟨_ | _ | _, s'⟩ <;> rfl

/-- Without unwinding, a cleanup only follows a return. -/
theorem onExit_false (cleanup : σ → σ) (x : Exec σ α) :
    onExit false cleanup x = x >>= fun a => modify cleanup >>= fun _ => pure a := by
  funext s
  rw [bind_run, onExit]
  rcases x s with ⟨_ | _ | _, s'⟩ <;> rfl

/-- A scope that leaves nothing to do. -/
theorem onExit_id (unwind : Bool) (x : Exec σ α) : onExit unwind id x = x := by
  funext s
  unfold onExit
  rcases x s with ⟨_ | _ | _, s'⟩
  · rfl
  · cases unwind with
    | true => rfl
    | false => rfl
  · rfl

/-- One iteration of a loop, and the rest of it. -/
theorem iterate_succ (step : α → Exec σ (α ⊕ β)) (fuel : Nat) (a : α) :
    iterate step (fuel + 1) a = step a >>= Sum.elim (iterate step fuel) pure := rfl

/-! ## §3. Simulations. -/

/-- Two exits of the same kind, with related states. -/
inductive Match (S : α → σ → τ → Prop) (E H : σ → τ → Prop) :
    Exit α × σ → Exit α × τ → Prop where
  | ret {a : α} {s : σ} {t : τ} (h : S a s t) : Match S E H (.ret a, s) (.ret a, t)
  | thrown {s : σ} {t : τ} (h : E s t) : Match S E H (.thrown, s) (.thrown, t)
  | halted {s : σ} {t : τ} (h : H s t) : Match S E H (.halted, s) (.halted, t)

/-- Where every exit leaves one relation, the exits are the same. -/
theorem Match.same {Q : σ → τ → Prop} {p : Exit α × σ} {q : Exit α × τ}
    (h : Match (fun _ => Q) Q Q p q) : p.1 = q.1 ∧ Q p.2 q.2 := by
  cases h with
  | ret h => exact ⟨rfl, h⟩
  | thrown h => exact ⟨rfl, h⟩
  | halted h => exact ⟨rfl, h⟩

/-- From `R`-related states, `x` and `y` exit the same way; the states are
related by `S` after a return, by `E` after an exception, by `H` otherwise. -/
def Sim (R : σ → τ → Prop) (x : Exec σ α) (y : Exec τ α)
    (S : α → σ → τ → Prop) (E H : σ → τ → Prop) : Prop :=
  ∀ s t, R s t → Match S E H (x s) (y t)

namespace Sim

variable {R R' : σ → τ → Prop} {S S' : α → σ → τ → Prop} {E E' H H' : σ → τ → Prop}
  {x : Exec σ α} {y : Exec τ α}

/-- A simulation from stronger to weaker relations. -/
theorem conseq (h : Sim R x y S E H) (hR : ∀ s t, R' s t → R s t)
    (hS : ∀ a s t, S a s t → S' a s t) (hE : ∀ s t, E s t → E' s t)
    (hH : ∀ s t, H s t → H' s t) : Sim R' x y S' E' H' := by
  intro s t hst
  have h := h s t (hR s t hst)
  generalize x s = p at h ⊢
  generalize y t = q at h ⊢
  cases h with
  | ret h => exact .ret (hS _ _ _ h)
  | thrown h => exact .thrown (hE _ _ h)
  | halted h => exact .halted (hH _ _ h)

theorem pre (h : Sim R x y S E H) (hR : ∀ s t, R' s t → R s t) : Sim R' x y S E H :=
  h.conseq hR (fun _ _ _ => id) (fun _ _ => id) (fun _ _ => id)

theorem post (h : Sim R x y S E H) (hS : ∀ a s t, S a s t → S' a s t) : Sim R x y S' E H :=
  h.conseq (fun _ _ => id) hS (fun _ _ => id) (fun _ _ => id)

theorem pure {a : α} (h : ∀ s t, R s t → S a s t) :
    Sim R (pure a) (pure a) S E H :=
  fun s t hst => .ret (h s t hst)

/-- Simulations compose in sequence. -/
theorem bind {f : α → Exec σ β} {g : α → Exec τ β} {T : β → σ → τ → Prop}
    (hx : Sim R x y S E H) (hf : ∀ a, Sim (S a) (f a) (g a) T E H) :
    Sim R (x >>= f) (y >>= g) T E H := by
  intro s t hst
  have h := hx s t hst
  rw [bind_run, bind_run]
  generalize x s = p at h ⊢
  generalize y t = q at h ⊢
  cases h with
  | ret h => exact hf _ _ _ h
  | thrown h => exact .thrown h
  | halted h => exact .halted h

theorem throw (h : ∀ s t, R s t → E s t) :
    Sim R (throw : Exec σ α) (throw : Exec τ α) S E H :=
  fun s t hst => .thrown (h s t hst)

theorem halt (h : ∀ s t, R s t → H s t) :
    Sim R (halt : Exec σ α) (halt : Exec τ α) S E H :=
  fun s t hst => .halted (h s t hst)

/-- Two actions that answer alike. -/
theorem act {f : σ → α × σ} {g : τ → α × τ}
    (h : ∀ s t, R s t → (f s).1 = (g t).1 ∧ S (f s).1 (f s).2 (g t).2) :
    Sim R (act f) (act g) S E H := by
  intro s t hst
  obtain ⟨hvalue, hstate⟩ := h s t hst
  rw [act_run, act_run, ← hvalue]
  exact .ret hstate

theorem reads {f : σ → α} {g : τ → α} (h : ∀ s t, R s t → f s = g t ∧ S (f s) s t) :
    Sim R (reads f) (reads g) S E H :=
  act h

theorem modify {f : σ → σ} {g : τ → τ} {S : Unit → σ → τ → Prop}
    (h : ∀ s t, R s t → S () (f s) (g t)) : Sim R (modify f) (modify g) S E H :=
  act fun s t hst => ⟨rfl, h s t hst⟩

/-- On both sides, what is missing halts. -/
theorem ofOption {o : Option α} (hsome : ∀ a, o = some a → ∀ s t, R s t → S a s t)
    (hnone : o = none → ∀ s t, R s t → H s t) :
    Sim R (ofOption o) (ofOption o) S E H := by
  cases o with
  | none => exact halt (hnone rfl)
  | some a => exact pure (hsome a rfl)

/-- Two computations that leave the same way. -/
theorem ofExit {exit : Exit α} (hS : ∀ a s t, R s t → S a s t) (hE : ∀ s t, R s t → E s t)
    (hH : ∀ s t, R s t → H s t) : Sim R (ofExit exit) (ofExit exit) S E H := by
  cases exit with
  | ret a => exact pure (hS a)
  | thrown => exact throw hE
  | halted => exact halt hH

/-- Handlers are simulated from the states the exceptions leave. -/
theorem catchAll {h : Exec σ α} {k : Exec τ α} (hx : Sim R x y S E' H)
    (hh : Sim E' h k S E H) : Sim R (catchAll x h) (catchAll y k) S E H := by
  intro s t hst
  have hm := hx s t hst
  rw [Exec.catchAll, Exec.catchAll]
  generalize x s = p at hm ⊢
  generalize y t = q at hm ⊢
  cases hm with
  | ret h => exact .ret h
  | thrown h => exact hh _ _ h
  | halted h => exact .halted h

/-- An exception halts on both sides, so its states must be allowed to halt in. -/
theorem noexcept (hx : Sim R x y S E' H) (hH : ∀ s t, E' s t → H s t) :
    Sim R (noexcept x) (noexcept y) S E H := by
  intro s t hst
  have hm := hx s t hst
  rw [Exec.noexcept, Exec.noexcept]
  generalize x s = p at hm ⊢
  generalize y t = q at hm ⊢
  cases hm with
  | ret h => exact .ret h
  | thrown h => exact .halted (hH _ _ h)
  | halted h => exact .halted h

/-- Cleanups run on both sides of an exit, or on neither. -/
theorem onExit {unwind : Bool} {c : σ → σ} {d : τ → τ} (hx : Sim R x y S E' H)
    (hS : ∀ a s t, S a s t → S' a (c s) (d t))
    (hE : ∀ s t, E' s t → E (bif unwind then c s else s) (bif unwind then d t else t)) :
    Sim R (onExit unwind c x) (onExit unwind d y) S' E H := by
  intro s t hst
  have hm := hx s t hst
  rw [Exec.onExit, Exec.onExit]
  generalize x s = p at hm ⊢
  generalize y t = q at hm ⊢
  cases hm with
  | ret h => exact .ret (hS _ _ _ h)
  | thrown h => exact .thrown (hE _ _ h)
  | halted h => exact .halted h

/-- A scope only the second computation has. -/
theorem onExit_right {unwind : Bool} {d : τ → τ} (hx : Sim R x y S E' H)
    (hS : ∀ a s t, S a s t → S' a s (d t))
    (hE : ∀ s t, E' s t → E s (bif unwind then d t else t)) :
    Sim R x (Exec.onExit unwind d y) S' E H := by
  rw [← onExit_id unwind x]
  apply hx.onExit hS
  intro s t hst
  have h := hE s t hst
  cases unwind with
  | true => exact h
  | false => exact h

/-- What the first computation does with a state of its own, the second may do
with the shared one. -/
theorem withLocal_bind {υ : Type} {m : υ} {x : Exec (υ × σ) α} {R' : υ × σ → τ → Prop}
    {S : α → υ × σ → τ → Prop} {f : α × υ → Exec σ β} {g : α → Exec τ β}
    {T : β → σ → τ → Prop} (hx : Sim R' x y S (fun s => E s.2) (fun s => H s.2))
    (hR : ∀ s t, R s t → R' (m, s) t)
    (hf : ∀ a m', Sim (fun s => S a (m', s)) (f (a, m')) (g a) T E H) :
    Sim R (withLocal m x >>= f) (y >>= g) T E H := by
  intro s t hst
  have h := hx (m, s) t (hR s t hst)
  rw [bind_run, bind_run, withLocal]
  generalize x (m, s) = p at h ⊢
  generalize y t = q at h ⊢
  cases h with
  | ret h => exact hf _ _ _ _ h
  | thrown h => exact .thrown h
  | halted h => exact .halted h

/-- Loops whose steps simulate each other do so throughout. -/
theorem iterate {f : α → Exec σ (α ⊕ β)} {g : α → Exec τ (α ⊕ β)}
    {I : α → σ → τ → Prop} {T : β → σ → τ → Prop}
    (hstep : ∀ a, Sim (I a) (f a) (g a) (Sum.elim I T) E H)
    (hH : ∀ a s t, I a s t → H s t) :
    ∀ (fuel : Nat) (a : α), Sim (I a) (iterate f fuel a) (iterate g fuel a) T E H
  | 0, a => halt (hH a)
  | fuel + 1, a => bind (hstep a) (by
      intro r
      cases r with
      | inl a' => exact iterate hstep hH fuel a'
      | inr b => exact pure (fun _ _ h => h))

end Sim

/-! ## §4. Triples. -/

/-- `P` on two equal states. -/
def Diag (P : σ → Prop) (s t : σ) : Prop := s = t ∧ P s

/-- Started in `P`, the computation returns in `Q`, throws in `E`, or halts in
`H`. -/
def Triple (P : σ → Prop) (x : Exec σ α) (Q : α → σ → Prop) (E H : σ → Prop) : Prop :=
  Sim (Diag P) x x (fun a => Diag (Q a)) (Diag E) (Diag H)

/-- What the exit of a run satisfies. -/
def Ends (Q : α → σ → Prop) (E H : σ → Prop) : Exit α × σ → Prop
  | (.ret a, s) => Q a s
  | (.thrown, s) => E s
  | (.halted, s) => H s

namespace Triple

variable {P P' : σ → Prop} {Q Q' : α → σ → Prop} {E E' H H' : σ → Prop} {x : Exec σ α}

/-- A triple is what it says about each run. -/
theorem of_ends (h : ∀ s, P s → Ends Q E H (x s)) : Triple P x Q E H := by
  intro s t hst
  obtain ⟨rfl, hP⟩ := hst
  have h := h s hP
  revert h
  rcases x s with ⟨a | _ | _, s'⟩
  · exact fun h => .ret ⟨rfl, h⟩
  · exact fun h => .thrown ⟨rfl, h⟩
  · exact fun h => .halted ⟨rfl, h⟩

/-- What a triple says about a run. -/
theorem ends (h : Triple P x Q E H) {s : σ} (hs : P s) : Ends Q E H (x s) := by
  have h := h s s ⟨rfl, hs⟩
  generalize hx : x s = r at h
  cases h with
  | ret h => exact h.2
  | thrown h => exact h.2
  | halted h => exact h.2

/-- A precondition that names something of the state. -/
theorem exists_pre {ι : Type} {P : ι → σ → Prop} (h : ∀ i, Triple (P i) x Q E H) :
    Triple (fun s => ∃ i, P i s) x Q E H := by
  apply of_ends
  rintro s ⟨i, hs⟩
  exact (h i).ends hs

/-- What holds at every exit holds of the state the run leaves. -/
theorem after {I : σ → Prop} (h : Triple P x (fun _ => I) I I) {s : σ} (hs : P s) : I (x s).2 := by
  have hends := h.ends hs
  revert hends
  rcases x s with ⟨a | _ | _, s'⟩
  · exact id
  · exact id
  · exact id

/-- The rule of consequence. -/
theorem conseq (h : Triple P x Q E H) (hP : ∀ s, P' s → P s)
    (hQ : ∀ a s, Q a s → Q' a s) (hE : ∀ s, E s → E' s) (hH : ∀ s, H s → H' s) :
    Triple P' x Q' E' H' :=
  Sim.conseq h (fun _ _ hs => ⟨hs.1, hP _ hs.2⟩) (fun _ _ _ hs => ⟨hs.1, hQ _ _ hs.2⟩)
    (fun _ _ hs => ⟨hs.1, hE _ hs.2⟩) (fun _ _ hs => ⟨hs.1, hH _ hs.2⟩)

theorem pre (h : Triple P x Q E H) (hP : ∀ s, P' s → P s) : Triple P' x Q E H :=
  h.conseq hP (fun _ _ => id) (fun _ => id) (fun _ => id)

theorem post (h : Triple P x Q E H) (hQ : ∀ a s, Q a s → Q' a s) : Triple P x Q' E H :=
  h.conseq (fun _ => id) hQ (fun _ => id) (fun _ => id)

/-- A precondition that is not about the state. -/
theorem given {p : Prop} (h : p → Triple P x Q E H) : Triple (fun s => P s ∧ p) x Q E H :=
  of_ends fun _ hs => (h hs.2).ends hs.1

theorem pure {a : α} (h : ∀ s, P s → Q a s) : Triple P (pure a) Q E H :=
  Sim.pure fun _ _ hs => ⟨hs.1, h _ hs.2⟩

/-- The rule of sequences: the second part starts where the first one returned. -/
theorem bind {f : α → Exec σ β} {S : β → σ → Prop}
    (hx : Triple P x Q E H) (hf : ∀ a, Triple (Q a) (f a) S E H) :
    Triple P (x >>= f) S E H :=
  Sim.bind hx hf

theorem throw (h : ∀ s, P s → E s) : Triple P (throw : Exec σ α) Q E H :=
  Sim.throw fun _ _ hs => ⟨hs.1, h _ hs.2⟩

theorem halt (h : ∀ s, P s → H s) : Triple P (halt : Exec σ α) Q E H :=
  Sim.halt fun _ _ hs => ⟨hs.1, h _ hs.2⟩

/-- An action is checked at the state it reads. -/
theorem act {f : σ → α × σ} (h : ∀ s, P s → Q (f s).1 (f s).2) : Triple P (act f) Q E H :=
  of_ends h

theorem reads {f : σ → α} (h : ∀ s, P s → Q (f s) s) : Triple P (reads f) Q E H :=
  act h

theorem modify {f : σ → σ} {Q : Unit → σ → Prop} (h : ∀ s, P s → Q () (f s)) :
    Triple P (modify f) Q E H :=
  act h

theorem ofOption {o : Option α} (hsome : ∀ a, o = some a → ∀ s, P s → Q a s)
    (hnone : o = none → ∀ s, P s → H s) : Triple P (ofOption o) Q E H :=
  Sim.ofOption (fun a ho _ _ hs => ⟨hs.1, hsome a ho _ hs.2⟩)
    (fun ho _ _ hs => ⟨hs.1, hnone ho _ hs.2⟩)

/-- The handler starts from what holds where an exception left. -/
theorem catchAll {h : Exec σ α} (hx : Triple P x Q E' H) (hh : Triple E' h Q E H) :
    Triple P (catchAll x h) Q E H :=
  Sim.catchAll hx hh

/-- What holds at an exception has to be enough to halt with. -/
theorem noexcept (hx : Triple P x Q E' H) (hH : ∀ s, E' s → H s) :
    Triple P (noexcept x) Q E H :=
  Sim.noexcept hx fun _ _ hs => ⟨hs.1, hH _ hs.2⟩

/-- The cleanup is checked at each kind of exit. -/
theorem onExit {unwind : Bool} {cleanup : σ → σ} (hx : Triple P x Q E' H)
    (hQ : ∀ a s, Q a s → Q' a (cleanup s))
    (hE : ∀ s, E' s → E (bif unwind then cleanup s else s)) :
    Triple P (onExit unwind cleanup x) Q' E H :=
  Sim.onExit hx (fun _ _ _ hs => ⟨congrArg cleanup hs.1, hQ _ _ hs.2⟩)
    fun _ _ hs => ⟨congrArg (fun s => bif unwind then cleanup s else s) hs.1, hE _ hs.2⟩

/-- What a triple says of one side of a simulation. -/
theorem and_right {τ : Type} {R : τ → σ → Prop} {y : Exec τ α} {S : α → τ → σ → Prop}
    {E₀ H₀ : τ → σ → Prop} (h : Triple P x Q E H) (hsim : Sim R y x S E₀ H₀) :
    Sim (fun s t => R s t ∧ P t) y x (fun a s t => S a s t ∧ Q a t)
      (fun s t => E₀ s t ∧ E t) (fun s t => H₀ s t ∧ H t) := by
  intro s t hst
  have hm := hsim s t hst.1
  have hends := h.ends hst.2
  generalize y s = p at hm ⊢
  generalize x t = q at hm hends ⊢
  cases hm with
  | ret hS => exact .ret ⟨hS, hends⟩
  | thrown hE => exact .thrown ⟨hE, hends⟩
  | halted hH => exact .halted ⟨hH, hends⟩

/-- What a triple says of the other side of a simulation. -/
theorem pull {τ : Type} {R : τ → σ → Prop} {y : Exec τ α} {S : α → τ → σ → Prop}
    {E₀ H₀ : τ → σ → Prop} (h : Triple P x Q E H) (hsim : Sim R y x S E₀ H₀) :
    Triple (fun s => ∃ t, R s t ∧ P t) y (fun a s => ∃ t, S a s t ∧ Q a t)
      (fun s => ∃ t, E₀ s t ∧ E t) (fun s => ∃ t, H₀ s t ∧ H t) := by
  apply of_ends
  intro s hs
  obtain ⟨t, hst⟩ := hs
  have hm := h.and_right hsim s t hst
  generalize y s = p at hm ⊢
  generalize x t = q at hm
  cases hm with
  | ret hret => exact ⟨_, hret⟩
  | thrown hthrown => exact ⟨_, hthrown⟩
  | halted hhalted => exact ⟨_, hhalted⟩

/-- What a triple says of the first side, seen from the second. -/
theorem push {τ : Type} {R : τ → σ → Prop} {P : τ → Prop} {y : Exec τ α} {Q : α → τ → Prop}
    {E H : τ → Prop} {S : α → τ → σ → Prop} {E₀ H₀ : τ → σ → Prop} (h : Triple P y Q E H)
    (hsim : Sim R y x S E₀ H₀) :
    Triple (fun t => ∃ s, R s t ∧ P s) x (fun a t => ∃ s, S a s t ∧ Q a s)
      (fun t => ∃ s, E₀ s t ∧ E s) (fun t => ∃ s, H₀ s t ∧ H s) := by
  apply of_ends
  intro t ht
  obtain ⟨s, hst, hs⟩ := ht
  have hm := hsim s t hst
  have hends := h.ends hs
  generalize y s = p at hm hends
  generalize x t = q at hm ⊢
  cases hm with
  | ret hS => exact ⟨_, hS, hends⟩
  | thrown hE => exact ⟨_, hE, hends⟩
  | halted hH => exact ⟨_, hH, hends⟩

/-- Both of two triples. -/
theorem and {P₂ : σ → Prop} {Q₂ : α → σ → Prop} {E₂ H₂ : σ → Prop} (h : Triple P x Q E H)
    (h₂ : Triple P₂ x Q₂ E₂ H₂) :
    Triple (fun s => P s ∧ P₂ s) x (fun a s => Q a s ∧ Q₂ a s) (fun s => E s ∧ E₂ s)
      (fun s => H s ∧ H₂ s) := by
  apply of_ends
  intro s hs
  have hends := h.ends hs.1
  have hends₂ := h₂.ends hs.2
  revert hends hends₂
  rcases x s with ⟨a | _ | _, s'⟩
  · exact fun h h₂ => ⟨h, h₂⟩
  · exact fun h h₂ => ⟨h, h₂⟩
  · exact fun h h₂ => ⟨h, h₂⟩

/-- What a simulation says of its second side alone. -/
theorem of_sim {τ : Type} {R : τ → σ → Prop} {y : Exec τ α} {S : α → τ → σ → Prop}
    {E₀ H₀ : τ → σ → Prop} (hsim : Sim R y x S E₀ H₀) :
    Triple (fun t => ∃ s, R s t) x (fun a t => ∃ s, S a s t) (fun t => ∃ s, E₀ s t)
      (fun t => ∃ s, H₀ s t) := by
  apply of_ends
  intro t ht
  obtain ⟨s, hst⟩ := ht
  have hm := hsim s t hst
  generalize y s = p at hm
  generalize x t = q at hm ⊢
  cases hm with
  | ret hS => exact ⟨_, hS⟩
  | thrown hE => exact ⟨_, hE⟩
  | halted hH => exact ⟨_, hH⟩

/-- A loop whose every step keeps `I` does so throughout. -/
theorem iterate {step : α → Exec σ (α ⊕ β)} {I : α → σ → Prop} {S : β → σ → Prop}
    (hstep : ∀ a, Triple (I a) (step a) (Sum.elim I S) E H)
    (hH : ∀ a s, I a s → H s) :
    ∀ (fuel : Nat) (a : α), Triple (I a) (iterate step fuel a) S E H
  | 0, a => halt (hH a)
  | fuel + 1, a => bind (hstep a) (by
      intro r
      cases r with
      | inl a' => exact iterate hstep hH fuel a'
      | inr b => exact pure (fun _ h => h))

/-- A loop whose every further step lowers a rank ends before its bound runs
out. -/
theorem iterate_ranked {step : α → Exec σ (α ⊕ β)} {I : α → σ → Prop} {S : β → σ → Prop}
    {rank : α → Nat}
    (hstep : ∀ a, Triple (I a) (step a)
      (Sum.elim (fun a' s => I a' s ∧ rank a' < rank a) S) E H) :
    ∀ (fuel : Nat) (a : α), rank a < fuel → Triple (I a) (Exec.iterate step fuel a) S E H
  | 0, _, hrank => absurd hrank (Nat.not_lt_zero _)
  | fuel + 1, a, hrank => bind (hstep a) (by
      intro r
      cases r with
      | inl a' =>
          apply of_ends
          intro s hs
          have hnext : rank a' < fuel := Nat.lt_of_lt_of_le hs.2 (Nat.le_of_lt_succ hrank)
          exact (iterate_ranked hstep fuel a' hnext).ends hs.1
      | inr b => exact pure (fun _ h => h))

end Triple

/-! ## §5. Computations that never throw. -/

/-- No run of `x` ends with an exception. -/
def NeverThrows (x : Exec σ α) : Prop := ∀ s, (x s).1 ≠ .thrown

namespace NeverThrows

variable {x : Exec σ α}

theorem act (f : σ → α × σ) : NeverThrows (act f) := fun _ => nofun

theorem pure (a : α) : NeverThrows (pure a : Exec σ α) := fun _ => nofun

theorem halt : NeverThrows (halt : Exec σ α) := fun _ => nofun

/-- An exception that is not let out. -/
theorem noexcept (x : Exec σ α) : NeverThrows (noexcept x) := by
  intro s
  unfold Exec.noexcept
  rcases x s with ⟨_ | _ | _, s'⟩ <;> exact nofun

/-- A sequence of parts that do not throw. -/
theorem bind (hx : NeverThrows x) {f : α → Exec σ β} (hf : ∀ a, NeverThrows (f a)) :
    NeverThrows (x >>= f) := by
  intro s
  have h := hx s
  rw [bind_run]
  revert h
  rcases x s with ⟨a | _ | _, s'⟩ <;> intro h
  · exact hf a s'
  · exact absurd rfl h
  · exact nofun

/-- What follows an action may depend on the state. -/
theorem act_bind {f : σ → α × σ} {g : α → Exec σ β} (h : ∀ s, (g (f s).1 (f s).2).1 ≠ .thrown) :
    NeverThrows (Exec.act f >>= g) := h

/-- Leaving a scope throws nothing new. -/
theorem onExit (hx : NeverThrows x) (unwind : Bool) (cleanup : σ → σ) :
    NeverThrows (onExit unwind cleanup x) := by
  intro s
  have h := hx s
  unfold Exec.onExit
  revert h
  rcases x s with ⟨a | _ | _, s'⟩ <;> intro h
  · exact nofun
  · exact absurd rfl h
  · exact nofun

end NeverThrows

/-! ## §6. Computations that do the same until they part. -/

/-- `x` moves the state up. -/
def Grows (le : σ → σ → Prop) (x : Exec σ α) : Prop := ∀ s, le s (x s).2

/-- From every state, `x` and `y` do the same or end apart. -/
def Together (Apart : σ → σ → Prop) (x y : Exec σ α) : Prop :=
  ∀ s, x s = y s ∨ Apart (x s).2 (y s).2

/-- States that have parted stay apart however they grow. -/
structure Parting (le Apart : σ → σ → Prop) : Prop where
  refl : ∀ s, le s s
  trans : ∀ {s t u}, le s t → le t u → le s u
  symm : ∀ {s t}, Apart s t → Apart t s
  keep : ∀ {s s' t t'}, le s s' → le t t' → Apart s t → Apart s' t'

namespace Parting

variable {le Apart : σ → σ → Prop} (h : Parting le Apart) {x y : Exec σ α}

include h

theorem grows_pure (a : α) : Grows le (pure a : Exec σ α) := fun s => h.refl s

/-- What keeps every lower bound of the state grows. -/
theorem grows_of_triple
    (hx : ∀ s₀, Triple (le s₀) x (fun _ => le s₀) (le s₀) (le s₀)) : Grows le x :=
  fun s => (hx s).after (h.refl s)

/-- What follows a computation only moves the state up. -/
theorem le_bind {f : α → Exec σ β} (hf : ∀ a, Grows le (f a)) (x : Exec σ α) (s : σ) :
    le (x s).2 ((x >>= f) s).2 := by
  rw [bind_run]
  rcases x s with ⟨a | _ | _, s'⟩
  · exact hf a s'
  · exact h.refl s'
  · exact h.refl s'

/-- A cleanup that moves the state up keeps what the scope reached. -/
theorem le_onExit {cleanup : σ → σ} (hcleanup : ∀ s, le s (cleanup s)) (unwind : Bool)
    (x : Exec σ α) (s : σ) : le (x s).2 (onExit unwind cleanup x s).2 := by
  unfold onExit
  rcases x s with ⟨a | _ | _, s'⟩
  · exact hcleanup s'
  · cases unwind with
    | true => exact hcleanup s'
    | false => exact h.refl s'
  · exact h.refl s'

/-- Growth, part by part. -/
theorem grows_bind (hx : Grows le x) {f : α → Exec σ β} (hf : ∀ a, Grows le (f a)) :
    Grows le (x >>= f) :=
  fun s => h.trans (hx s) (h.le_bind hf x s)

theorem grows_onExit (hx : Grows le x) (unwind : Bool) {cleanup : σ → σ}
    (hcleanup : ∀ s, le s (cleanup s)) : Grows le (onExit unwind cleanup x) :=
  fun s => h.trans (hx s) (h.le_onExit hcleanup unwind x s)

theorem together_symm (hx : Together Apart x y) : Together Apart y x := by
  intro s
  rcases hx s with heq | hapart
  · exact Or.inl heq.symm
  · exact Or.inr (h.symm hapart)

/-- Computations that did the same go on together, and those that parted stay apart. -/
theorem together_bind (hx : Together Apart x y) {f g : α → Exec σ β}
    (hfg : ∀ a, Together Apart (f a) (g a)) (hf : ∀ a, Grows le (f a))
    (hg : ∀ a, Grows le (g a)) : Together Apart (x >>= f) (y >>= g) := by
  intro s
  -- what follows either does the same from the same state, or keeps them apart
  rcases hx s with heq | hapart
  · rw [bind_run, bind_run, heq]
    rcases y s with ⟨a | _ | _, s'⟩
    · exact hfg a s'
    · exact Or.inl rfl
    · exact Or.inl rfl
  · exact Or.inr (h.keep (h.le_bind hf x s) (h.le_bind hg y s) hapart)

/-- Cleanups do not bring states together again. -/
theorem together_onExit (hx : Together Apart x y) (unwind : Bool) {cleanup : σ → σ}
    (hcleanup : ∀ s, le s (cleanup s)) :
    Together Apart (onExit unwind cleanup x) (onExit unwind cleanup y) := by
  intro s
  rcases hx s with heq | hapart
  · unfold onExit
    rw [heq]
    exact Or.inl rfl
  · exact Or.inr (h.keep (h.le_onExit hcleanup unwind x s) (h.le_onExit hcleanup unwind y s)
      hapart)

end Parting

/-! ## §7. Where an exception comes from. -/

/-- Running `x` from `s` runs `y` from `t`, and nothing between them handles an
exception. -/
inductive Runs : {α β : Type} → Exec σ α → σ → Exec σ β → σ → Prop where
  | self {α : Type} (x : Exec σ α) (s : σ) : Runs x s x s
  | first {α β γ : Type} {x : Exec σ α} {y : Exec σ γ} {s t : σ} (f : α → Exec σ β)
      (h : Runs x s y t) : Runs (x >>= f) s y t
  | next {α β γ : Type} {x : Exec σ α} {f : α → Exec σ β} {y : Exec σ γ} {s s' t : σ} {a : α}
      (hx : x s = (.ret a, s')) (h : Runs (f a) s' y t) : Runs (x >>= f) s y t
  | scope {α γ : Type} {x : Exec σ α} {y : Exec σ γ} {s t : σ} (unwind : Bool) (cleanup : σ → σ)
      (h : Runs x s y t) : Runs (onExit unwind cleanup x) s y t

namespace Runs

/-- What a part runs, the whole runs. -/
theorem trans {γ : Type} {x : Exec σ α} {y : Exec σ β} {z : Exec σ γ} {s t u : σ}
    (hxy : Runs x s y t) (hyz : Runs y t z u) : Runs x s z u := by
  induction hxy with
  | self => exact hyz
  | first f _ ih => exact first f (ih hyz)
  | next hx _ ih => exact next hx (ih hyz)
  | scope unwind cleanup _ ih => exact scope unwind cleanup (ih hyz)

/-- The exception leaves. -/
theorem thrown {x : Exec σ α} {y : Exec σ β} {s t : σ} (h : Runs x s y t)
    (hthrown : (y t).1 = .thrown) : (x s).1 = .thrown := by
  induction h with
  | self => exact hthrown
  | @first α β γ x y s t f h ih =>
      have hx := ih hthrown
      rw [bind_run]
      revert hx
      rcases x s with ⟨_ | _ | _, s'⟩
      · nofun
      · exact fun _ => rfl
      · nofun
  | next hx h ih =>
      rw [bind_ret hx]
      exact ih hthrown
  | @scope α γ x y s t unwind cleanup h ih =>
      have hx := ih hthrown
      unfold onExit
      revert hx
      rcases x s with ⟨_ | _ | _, s'⟩
      · nofun
      · exact fun _ => rfl
      · nofun

end Runs

/-- A sequence that throws does so in one of its parts. -/
theorem bind_eq_thrown {x : Exec σ α} {f : α → Exec σ β} {s s' : σ} :
    (x >>= f) s = (.thrown, s') ↔ x s = (.thrown, s')
      ∨ ∃ a s₁, x s = (.ret a, s₁) ∧ f a s₁ = (.thrown, s') := by
  rw [bind_run]
  rcases x s with ⟨a | _ | _, s₁⟩ <;> simp

/-- An exception that leaves a scope. -/
theorem onExit_eq_thrown {unwind : Bool} {cleanup : σ → σ} {x : Exec σ α} {s s' : σ}
    (h : onExit unwind cleanup x s = (.thrown, s')) :
    ∃ s₁, x s = (.thrown, s₁) ∧ s' = bif unwind then cleanup s₁ else s₁ := by
  unfold onExit at h
  revert h
  rcases x s with ⟨a | _ | _, s₁⟩
  · nofun
  · exact fun h => ⟨s₁, rfl, (Prod.mk.inj h).2.symm⟩
  · nofun

/-! ## §8. Handlers. -/

/-- There is nothing to handle. -/
theorem catchAll_neverThrows {x : Exec σ α} (h : NeverThrows x) (k : Exec σ α) :
    catchAll x k = x := by
  funext s
  have hs := h s
  unfold catchAll
  revert hs
  rcases x s with ⟨_ | _ | _, s'⟩
  · exact fun _ => rfl
  · exact fun hs => absurd rfl hs
  · exact fun _ => rfl

/-- A handler around a sequence is one around its first part, if only that part
throws. -/
theorem catchAll_bind {x k : Exec σ α} {f : α → Exec σ β} {k' : Exec σ β}
    (hf : ∀ a, NeverThrows (f a)) (hk : k >>= f = k') :
    catchAll (x >>= f) k' = catchAll x k >>= f := by
  subst hk
  funext s
  rw [bind_run, catchAll, catchAll, bind_run]
  rcases x s with ⟨a | _ | _, s'⟩
  · have ha := hf a s'
    dsimp only
    revert ha
    rcases f a s' with ⟨_ | _ | _, s''⟩
    · exact fun _ => rfl
    · exact fun ha => absurd rfl ha
    · exact fun _ => rfl
  · rfl
  · rfl

/-- A handler around a loop is one around its every iteration, which then ends
it. -/
theorem catchAll_iterate (step : α → Exec σ (α ⊕ β)) (k : Exec σ β) :
    ∀ (fuel : Nat) (a : α), catchAll (iterate step fuel a) k
      = iterate (fun a => catchAll (step a) (k >>= fun b => pure (.inr b))) fuel a
  | 0, _ => rfl
  | fuel + 1, a => by
      funext s
      rw [iterate_succ, iterate_succ, catchAll, bind_run, bind_run, catchAll]
      rcases step a s with ⟨(a' | b) | _ | _, s'⟩
      · exact congrFun (catchAll_iterate step k fuel a') s'
      · rfl
      · -- the handler's result is the loop's
        show k s' = _
        dsimp only
        rw [bind_run]
        rcases k s' with ⟨_ | _ | _, s''⟩
        · rfl
        · rfl
        · rfl
      · rfl

/-- A loop whose steps do not throw. -/
theorem NeverThrows.iterate {step : α → Exec σ (α ⊕ β)} (h : ∀ a, NeverThrows (step a)) :
    ∀ (fuel : Nat) (a : α), NeverThrows (iterate step fuel a)
  | 0, _ => .halt
  | fuel + 1, a => (h a).bind fun
      | .inl a' => NeverThrows.iterate h fuel a'
      | .inr b => .pure b

/-- Whatever is handled, only the handler can throw. -/
theorem NeverThrows.catchAll {k : Exec σ α} (h : NeverThrows k) (x : Exec σ α) :
    NeverThrows (catchAll x k) := by
  intro s
  unfold Exec.catchAll
  rcases x s with ⟨_ | _ | _, s'⟩
  · nofun
  · exact h s'
  · nofun

/-! ## §9. Repeated attempts. -/

/-- Run `x`, and up to `n` further times while its results ask for it.  A result
that asks once more than that goes to `last`. -/
def attempts (asks : α → Bool) (between : Exec σ Unit) (x : Exec σ α) (last : α → Exec σ α) :
    Nat → Exec σ α
  | 0 => x >>= fun a => if asks a then last a else pure a
  | n + 1 => x >>= fun a =>
      if asks a then between >>= fun _ => attempts asks between x last n else pure a

section Attempts

variable (asks : α → Bool) (between : Exec σ Unit) (x : Exec σ α)

/-- What follows, if the last attempt still asks, may be done at the end. -/
theorem attempts_bind (last : α → Exec σ α) : ∀ n : Nat,
    (attempts asks between x pure n >>= fun a => if asks a then last a else pure a)
      = attempts asks between x last n
  | 0 => by
      rw [attempts, attempts, bind_assoc]
      congr 1
      funext a
      cases hasks : asks a with
      | true => rw [if_pos rfl, if_pos rfl, bind_pure_left, hasks, if_pos rfl]
      | false =>
          rw [if_neg Bool.false_ne_true, if_neg Bool.false_ne_true, bind_pure_left, hasks,
            if_neg Bool.false_ne_true]
  | n + 1 => by
      rw [attempts, attempts, bind_assoc]
      congr 1
      funext a
      cases hasks : asks a with
      | true =>
          rw [if_pos rfl, if_pos rfl, bind_assoc]
          congr 1
          funext _
          exact attempts_bind last n
      | false =>
          rw [if_neg Bool.false_ne_true, if_neg Bool.false_ne_true, bind_pure_left, hasks,
            if_neg Bool.false_ne_true]

/-- Attempts after attempts. -/
theorem attempts_add (last : α → Exec σ α) (n : Nat) : ∀ m : Nat,
    attempts asks between x (fun _ => between >>= fun _ => attempts asks between x last n) m
      = attempts asks between x last (m + n + 1)
  | 0 => by
      rw [Nat.zero_add]
      rfl
  | m + 1 => by
      rw [show m + 1 + n + 1 = m + n + 1 + 1 by omega, attempts, attempts, attempts_add last n m]

/-- **Nested attempts.**  Loops that pass on what asks for more multiply. -/
theorem attempts_attempts (last : α → Exec σ α) (m : Nat) : ∀ n : Nat,
    attempts asks between (attempts asks between x pure m) last n
      = attempts asks between x last ((n + 1) * (m + 1) - 1)
  | 0 => by
      rw [attempts, attempts_bind, Nat.zero_add, Nat.one_mul, Nat.add_sub_cancel]
  | n + 1 => by
      have hsum : (n + 1 + 1) * (m + 1) - 1 = m + ((n + 1) * (m + 1) - 1) + 1 := by
        have hmul : (n + 1 + 1) * (m + 1) = (n + 1) * (m + 1) + (m + 1) := Nat.succ_mul _ _
        have hpos : 0 < (n + 1) * (m + 1) := Nat.mul_pos (Nat.succ_pos n) (Nat.succ_pos m)
        omega
      rw [attempts, attempts_attempts last m n, attempts_bind, attempts_add, hsum]

end Attempts

end Exec

end YOrch.Library
