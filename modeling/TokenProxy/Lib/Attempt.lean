import Mathlib.Data.List.Basic

/-!
# Programs that throw

An `Attempt` reads and writes a store and may throw. Unlike a transaction it is not undone: what it
did up to the throw stays. `Triple` says what holds after it, whether it returned or threw, and has
one rule for each way to build a program.
-/

namespace TokenProxy.Lib

universe u v w

/-- A program over the store `σ` that returns an `α` or throws an `ε`. -/
def Attempt (σ : Type u) (ε : Type v) (α : Type w) := σ → σ × Except ε α

namespace Attempt

variable {σ : Type u} {ε : Type v} {α β : Type w}

/-- Run `x`, then `f` of its result, unless `x` throws. -/
def andThen (x : Attempt σ ε α) (f : α → Attempt σ ε β) : Attempt σ ε β := fun s =>
  match x s with
  | (s', .ok a) => f a s'
  | (s', .error e) => (s', .error e)

instance : Monad (Attempt σ ε) where
  pure a := fun s => (s, .ok a)
  bind := andThen

def raise (e : ε) : Attempt σ ε α := fun s => (s, .error e)

/-- `Q` of the result and the new state, or `E` of what was thrown and the new state. -/
def After (Q : α → σ → Prop) (E : ε → σ → Prop) : σ × Except ε α → Prop
  | (s, .ok a) => Q a s
  | (s, .error e) => E e s

/-- From a state that satisfies `P`, `x` returns with `Q` or throws with `E`. -/
def Triple (P : σ → Prop) (x : Attempt σ ε α) (Q : α → σ → Prop) (E : ε → σ → Prop) : Prop :=
  ∀ s, P s → After Q E (x s)

variable {P P' : σ → Prop} {Q Q' : α → σ → Prop} {E E' : ε → σ → Prop}

theorem triple_pure {a : α} (h : ∀ s, P s → Q a s) : Triple P (pure a : Attempt σ ε α) Q E := h

/-- **Sequence.** -/
theorem triple_bind {x : Attempt σ ε α} {f : α → Attempt σ ε β} {R : β → σ → Prop}
    (hx : Triple P x Q E) (hf : ∀ a, Triple (Q a) (f a) R E) : Triple P (x >>= f) R E := by
  intro s hs
  have h := hx s hs
  change After R E (andThen x f s)
  unfold andThen
  rcases hxs : x s with ⟨s', e | a⟩
  · rw [hxs] at h
    exact h
  · rw [hxs] at h
    exact hf a s' h

/-- **Consequence.** -/
theorem Triple.mono {x : Attempt σ ε α} (h : Triple P x Q E) (hP : ∀ s, P' s → P s)
    (hQ : ∀ a s, Q a s → Q' a s) (hE : ∀ e s, E e s → E' e s) : Triple P' x Q' E' := by
  intro s hs
  have hx := h s (hP s hs)
  rcases hxs : x s with ⟨s', e | a⟩
  · rw [hxs] at hx
    exact hE e s' hx
  · rw [hxs] at hx
    exact hQ a s' hx

end Attempt

end TokenProxy.Lib
