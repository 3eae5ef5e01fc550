import Mathlib.Data.List.Basic

/-!
# Functions that emit events

A function of a streaming program changes its state and pushes events for its reader. `Emits P f Q`
is its rule of pre- and postconditions: over the state and everything emitted so far.

* `Emits.seq`, `Emits.ite` and `Emits.each`: sequences, branches and loops;
* a stream of inputs is a loop over them, so `Emits.each` is also the invariant rule of a whole run.
-/

namespace TokenProxy.Lib

universe u v w

abbrev Emitter (σ : Type u) (ε : Type v) := σ → σ × List ε

variable {σ : Type u} {ε : Type v} {α : Type w}

namespace Emitter

def skip : Emitter σ ε := fun s => (s, [])

def seq (f g : Emitter σ ε) : Emitter σ ε := fun s => ((g (f s).1).1, (f s).2 ++ (g (f s).1).2)

def modify (f : σ → σ) : Emitter σ ε := fun s => (f s, [])

def each (f : α → Emitter σ ε) : List α → Emitter σ ε
  | [] => skip
  | a :: as => (f a).seq (each f as)

@[simp] theorem skip_apply (s : σ) : (skip : Emitter σ ε) s = (s, []) := rfl

theorem seq_apply (f g : Emitter σ ε) (s : σ) : f.seq g s = ((g (f s).1).1, (f s).2 ++ (g (f s).1).2) := rfl

@[simp] theorem each_nil (f : α → Emitter σ ε) : each f [] = skip := rfl

@[simp] theorem each_cons (f : α → Emitter σ ε) (a : α)
    (as : List α) : each f (a :: as) = (f a).seq (each f as) := rfl

theorem seq_assoc (f g h : Emitter σ ε) : (f.seq g).seq h = f.seq (g.seq h) := by
  funext s
  simp [seq_apply]

theorem each_append (f : α → Emitter σ ε) (as bs : List α) :
    each f (as ++ bs) = (each f as).seq (each f bs) := by
  induction as with
  | nil => rfl
  | cons a as ih => rw [List.cons_append, each_cons, each_cons, ih, seq_assoc]

theorem each_keeps {F : σ → Prop} {f : α → Emitter σ ε} (h : ∀ a s, F s → F (f a s).1) (as : List α)
    {s : σ} (hs : F s) :
    F (each f as s).1 := by
  induction as generalizing s with
  | nil => exact hs
  | cons a as ih => exact ih (h a s hs)

end Emitter

/-- From a state and a history that meet `P`, the function leaves ones that meet `Q`. -/
def Emits (P : σ → List ε → Prop) (f : Emitter σ ε) (Q : σ → List ε → Prop) : Prop :=
  ∀ s es, P s es → Q (f s).1 (es ++ (f s).2)

namespace Emits

variable {P P' Q Q' R : σ → List ε → Prop} {f g : Emitter σ ε}

theorem skip : Emits P Emitter.skip P := by
  intro s es h
  simpa using h

theorem modify {k : σ → σ} (h : ∀ s es, P s es → Q (k s) es) : Emits P (Emitter.modify k) Q := by
  intro s es hp
  simpa [Emitter.modify] using h s es hp

theorem seq (hf : Emits P f Q) (hg : Emits Q g R) : Emits P (f.seq g) R := by
  intro s es h
  have hq := hg _ _ (hf s es h)
  rwa [List.append_assoc] at hq

theorem mono (h : Emits P f Q) (hp : ∀ s es, P' s es → P s es)
    (hq : ∀ s es, Q s es → Q' s es) : Emits P' f Q' :=
  fun s es h' => hq _ _ (h s es (hp s es h'))

/-- **Frame rule**, for what the function leaves alone. -/
theorem frame {F : σ → Prop} (h : Emits P f Q) (hF : ∀ s, F s → F (f s).1) :
    Emits (fun s es => P s es ∧ F s) f (fun s es => Q s es ∧ F s) :=
  fun s es hp => ⟨h s es hp.1, hF s hp.2⟩

theorem behind (pre : List ε) (h : Emits P f Q) :
    Emits (fun s es => ∃ body, es = pre ++ body ∧ P s body) f (fun s es => ∃ body, es = pre ++ body ∧ Q s body) := by
  rintro s es ⟨body, rfl, hp⟩
  exact ⟨body ++ (f s).2, by rw [List.append_assoc], h s body hp⟩

theorem ite {c : σ → Prop} [DecidablePred c] (ht : Emits (fun s es => P s es ∧ c s) f Q)
    (hf : Emits (fun s es => P s es ∧ ¬ c s) g Q) :
    Emits P (fun s => if c s then f s else g s) Q := by
  intro s es h
  by_cases hc : c s
  · simpa only [if_pos hc] using ht s es ⟨h, hc⟩
  · simpa only [if_neg hc] using hf s es ⟨h, hc⟩

/-- **Loop rule**, for an invariant that may speak of the rounds to come. -/
theorem each {f : α → Emitter σ ε} {I : List α → σ → List ε → Prop}
    (h : ∀ a as, Emits (I (a :: as)) (f a) (I as))
    (as : List α) : Emits (I as) (Emitter.each f as) (I []) := by
  induction as with
  | nil => exact skip
  | cons a as ih => exact (h a as).seq ih

end Emits

end TokenProxy.Lib
