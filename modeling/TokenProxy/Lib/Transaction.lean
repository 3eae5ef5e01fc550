import Mathlib.Data.List.Basic

/-!
# Transactions

A transaction body reads and writes a store and may throw; a commit may fail too. Either way the
store is what it was. `transaction_error` and `transaction_ok` are all a caller needs to know about
it.
-/

namespace TokenProxy.Lib

universe u v w

variable {σ : Type u} {ε : Type v} {α : Type w}

theorem bind_ok {β : Type w} {x : Except ε α} {f : α → Except ε β} {b : β} (h : (x >>= f) = .ok b) :
    ∃ a, x = .ok a ∧ f a = .ok b := by
  cases x with
  | error e => cases h
  | ok a => exact ⟨a, rfl, h⟩

/-- Run `body` on the store; `commit` is the error of a commit that fails. -/
def transaction (body : σ → Except ε (σ × α)) (commit : Option ε) (s : σ) : σ × Except ε α :=
  match body s, commit with
  | .error e, _ => (s, .error e)
  | .ok _, some e => (s, .error e)
  | .ok (s', a), none => (s', .ok a)

variable {body : σ → Except ε (σ × α)} {commit : Option ε} {s : σ}

/-- **Rollback**: a transaction that throws leaves the store as it was. -/
theorem transaction_error {e : ε} (h : (transaction body commit s).2 = .error e) :
    (transaction body commit s).1 = s := by
  unfold transaction at h ⊢
  split
  · rfl
  · rfl
  · rename_i s' a hb
    rw [hb] at h
    cases h

/-- **Commit**: a transaction that returns did what its body did. -/
theorem transaction_ok {a : α} (h : (transaction body commit s).2 = .ok a) :
    body s = .ok ((transaction body commit s).1, a) := by
  unfold transaction at h ⊢
  split
  · rename_i hb
    rw [hb] at h
    cases h
  · rename_i hb
    rw [hb] at h
    cases h
  · rename_i s' a' hb
    rw [hb] at h
    cases h
    exact hb

theorem transaction_cases (body : σ → Except ε (σ × α)) (commit : Option ε) (s : σ) :
    (∃ e, transaction body commit s = (s, .error e)) ∨
      ∃ s' a, body s = .ok (s', a) ∧ transaction body commit s = (s', .ok a) := by
  rcases h : transaction body commit s with ⟨s', e | a⟩
  · have hs : (transaction body commit s).1 = s := transaction_error (congrArg Prod.snd h)
    rw [h] at hs
    exact Or.inl ⟨e, by rw [← hs]⟩
  · have hb := @transaction_ok _ _ _ body commit s _ (congrArg Prod.snd h)
    rw [h] at hb
    exact Or.inr ⟨s', a, hb, rfl⟩

theorem transaction_inv {I : σ → Prop} (hbody : ∀ s' a, body s = .ok (s', a) → I s') (h : I s) :
    I (transaction body commit s).1 := by
  unfold transaction
  split
  · exact h
  · exact h
  · rename_i s' a hb
    exact hbody s' a hb

end TokenProxy.Lib
