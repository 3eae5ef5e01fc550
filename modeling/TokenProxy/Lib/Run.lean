import Mathlib.Data.List.Basic

/-!
# Runs of a step function

A system is a step function `step : σ → ι → σ`: an input is one operation together with everything
its environment decides (the time, which call fails, which party moves next). A run is a list of
inputs, so a statement about every run is a statement about every interleaving of every party.

* `run_inv`: an invariant that each step keeps holds in every reachable state;
* `Meets` and `run_inv_of_meets`: the same for runs whose every step meets a condition;
* `run_keeps`: once a stable fact holds, it holds ever after.
-/

namespace TokenProxy.Lib

universe u v

variable {σ : Type u} {ι : Type v} (step : σ → ι → σ)

/-- The state after the inputs `ops`, one step each. -/
def run (s : σ) (ops : List ι) : σ := ops.foldl step s

@[simp] theorem run_nil (s : σ) : run step s [] = s := rfl

@[simp] theorem run_cons (s : σ) (o : ι) (ops : List ι) : run step s (o :: ops) = run step (step s o) ops := rfl

theorem run_append (s : σ) (xs ys : List ι) : run step s (xs ++ ys) = run step (run step s xs) ys :=
  List.foldl_append

theorem run_snoc (s : σ) (xs : List ι) (o : ι) : run step s (xs ++ [o]) = step (run step s xs) o :=
  run_append step s xs [o]

/-- Every step of the run meets `ok`, in the state it starts from. -/
def Meets (ok : σ → ι → Prop) (s : σ) : List ι → Prop
  | [] => True
  | o :: ops => ok s o ∧ Meets ok (step s o) ops

@[simp] theorem meets_nil (ok : σ → ι → Prop) (s : σ) : Meets step ok s [] := trivial

@[simp] theorem meets_cons (ok : σ → ι → Prop) (s : σ) (o : ι) (ops : List ι) :
    Meets step ok s (o :: ops) ↔ ok s o ∧ Meets step ok (step s o) ops := Iff.rfl

instance (ok : σ → ι → Prop) [∀ s o, Decidable (ok s o)] (s : σ) (ops : List ι) :
    Decidable (Meets step ok s ops) := by
  induction ops generalizing s with
  | nil => exact isTrue trivial
  | cons o ops ih => exact @instDecidableAnd _ _ _ (ih (step s o))

variable {step} {ok ok' : σ → ι → Prop} {I : σ → Prop} {s : σ} {ops : List ι}

theorem Meets.append_left {xs ys : List ι} (h : Meets step ok s (xs ++ ys)) :
    Meets step ok s xs := by
  induction xs generalizing s with
  | nil => trivial
  | cons o xs ih => exact ⟨h.1, ih h.2⟩

theorem Meets.append_right {xs ys : List ι} (h : Meets step ok s (xs ++ ys)) :
    Meets step ok (run step s xs) ys := by
  induction xs generalizing s with
  | nil => exact h
  | cons o xs ih => exact ih h.2

theorem Meets.last {xs : List ι} {o : ι} (h : Meets step ok s (xs ++ [o])) : ok (run step s xs) o :=
  (h.append_right).1

theorem Meets.mono (himp : ∀ s o, ok s o → ok' s o)
    (h : Meets step ok s ops) : Meets step ok' s ops := by
  induction ops generalizing s with
  | nil => trivial
  | cons o ops ih => exact ⟨himp _ _ h.1, ih h.2⟩

/-- **Invariant rule.** What every step meeting `ok` keeps holds after every run meeting `ok`. -/
theorem run_inv_of_meets (hstep : ∀ s o, ok s o → I s → I (step s o)) (hm : Meets step ok s ops)
    (h : I s) : I (run step s ops) := by
  induction ops generalizing s with
  | nil => exact h
  | cons o ops ih => exact ih hm.2 (hstep s o hm.1 h)

/-- **Invariant rule**, for steps that keep the invariant unconditionally. -/
theorem run_inv (hstep : ∀ s o, I s → I (step s o)) (h : I s) : I (run step s ops) := by
  induction ops generalizing s with
  | nil => exact h
  | cons o ops ih => exact ih (hstep s o h)

/-- Under an invariant that every step keeps, two conditions that agree on
each step agree on every run. -/
theorem meets_congr_of_inv (hinv : ∀ s o, I s → I (step s o))
    (hok : ∀ s o, I s → (ok s o ↔ ok' s o)) (h : I s) :
    Meets step ok s ops ↔ Meets step ok' s ops := by
  induction ops generalizing s with
  | nil => exact Iff.rfl
  | cons o ops ih => exact and_congr (hok s o h) (ih (hinv s o h))

/-- **Stability rule.** A fact that every step keeps under an invariant, once true at some point of
a run, is true at its end. -/
theorem run_keeps {P : σ → Prop} (hinv : ∀ s o, I s → I (step s o))
    (hkeep : ∀ s o, I s → P s → P (step s o)) (h : I s) (xs ys : List ι) (hP : P (run step s xs)) :
    P (run step s (xs ++ ys)) := by
  rw [run_append]
  have hx : I (run step s xs) := run_inv hinv h
  exact (run_inv (I := fun s => I s ∧ P s) (fun s o hs => ⟨hinv s o hs.1, hkeep s o hs.1 hs.2⟩) ⟨hx, hP⟩).2

end TokenProxy.Lib
