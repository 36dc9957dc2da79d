/-
Actions: steps that change a state, give notice of what they do, and may fail.

A failed action keeps the state that it had come to and the notices that it had given, and nothing
after it is done.  Actions form a lawful monad.

* `run_bind_ok`, `run_bind_error`: how a sequence goes on, and how it ends at a failure.
-/
import Roster.Notice

namespace Roster

/-- How an action ends: with a result or an error, in a state, after some notices. -/
structure Outcome (σ ε α : Type) where
  result : Except ε α
  state : σ
  log : List Notice

/-- A step on a state of type `σ` that may fail with an error of type `ε`. -/
def Action (σ ε α : Type) : Type := σ → Outcome σ ε α

namespace Action

variable {σ τ ε δ α β : Type}

def run (x : Action σ ε α) (s : σ) : Outcome σ ε α := x s

/-- Goes on after an action that ended well. -/
def andThen (x : Action σ ε α) (f : α → Action σ ε β) : Action σ ε β := fun s =>
  match x s with
  | ⟨.ok a, s, log⟩ => ⟨(f a s).result, (f a s).state, log ++ (f a s).log⟩
  | ⟨.error e, s, log⟩ => ⟨.error e, s, log⟩

instance : Monad (Action σ ε) where
  pure a := fun s => ⟨.ok a, s, []⟩
  bind := andThen

theorem run_pure (a : α) (s : σ) : run (pure a : Action σ ε α) s = ⟨.ok a, s, []⟩ := rfl

theorem run_bind_ok {x : Action σ ε α} {f : α → Action σ ε β} {s t : σ} {a : α}
    {log : List Notice} (h : run x s = ⟨.ok a, t, log⟩) :
    run (x >>= f) s = ⟨(run (f a) t).result, (run (f a) t).state, log ++ (run (f a) t).log⟩ := by
  have h' : x s = ⟨.ok a, t, log⟩ := h
  show andThen x f s = _
  simp only [andThen, h', run]

theorem run_bind_error {x : Action σ ε α} {f : α → Action σ ε β} {s t : σ} {e : ε}
    {log : List Notice} (h : run x s = ⟨.error e, t, log⟩) :
    run (x >>= f) s = ⟨.error e, t, log⟩ := by
  have h' : x s = ⟨.error e, t, log⟩ := h
  show andThen x f s = _
  simp only [andThen, h']

theorem ext {x y : Action σ ε α} (h : ∀ s, run x s = run y s) : x = y := funext h

theorem andThen_pure (x : Action σ ε α) : andThen x (fun a => pure (id a)) = x := ext fun s => by
  show andThen x _ s = x s
  unfold andThen
  rcases x s with ⟨_ | _, _, _⟩ <;> simp [pure]

theorem pure_andThen (a : α) (f : α → Action σ ε β) : andThen (pure a) f = f a := ext fun s => by
  show andThen (pure a) f s = f a s
  simp [andThen, pure]

theorem andThen_assoc {γ : Type} (x : Action σ ε α) (f : α → Action σ ε β) (g : β → Action σ ε γ) :
    andThen (andThen x f) g = andThen x fun a => andThen (f a) g := ext fun s => by
  show andThen (andThen x f) g s = andThen x (fun a => andThen (f a) g) s
  unfold andThen
  rcases x s with ⟨_ | a, t, _⟩
  · rfl
  · dsimp only
    rcases f a t with ⟨_ | _, _, _⟩ <;> simp

instance : LawfulMonad (Action σ ε) :=
  LawfulMonad.mk' (Action σ ε) andThen_pure pure_andThen andThen_assoc

def fail (e : ε) : Action σ ε α := fun s => ⟨.error e, s, []⟩

def note (log : List Notice) : Action σ ε Unit := fun s => ⟨.ok (), s, log⟩

/-- Ends with the result of an action as a value, so that a failure can be looked at. -/
def attempt (x : Action σ ε α) : Action σ ε (Except ε α) := fun s =>
  let o := x s
  ⟨.ok o.result, o.state, o.log⟩

end Action

end Roster
