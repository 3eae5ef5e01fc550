import Mathlib.Data.List.Basic
import Mathlib.Data.List.GetD
import Mathlib.Algebra.Ring.Nat

/-!
# How long two lists agree

`commonLength` counts the elements that two lists begin with together. Where only the blocks of a
list are compared, lists whose first blocks agree agree up to the end of these blocks
(`take_eq_of_blocks`).
-/

namespace TokenProxy.Lib

variable {α : Type*} [DecidableEq α]

def commonLength : List α → List α → ℕ
  | x :: xs, y :: ys => if x = y then commonLength xs ys + 1 else 0
  | _, _ => 0

theorem commonLength_le_left (xs ys : List α) : commonLength xs ys ≤ xs.length := by
  induction xs generalizing ys with
  | nil => simp [commonLength]
  | cons x xs ih =>
    cases ys with
    | nil => simp [commonLength]
    | cons y ys =>
      have := ih ys
      simp only [commonLength, List.length_cons]
      split <;> omega

theorem take_commonLength (xs ys : List α) :
    xs.take (commonLength xs ys) = ys.take (commonLength xs ys) := by
  induction xs generalizing ys with
  | nil => simp [commonLength]
  | cons x xs ih =>
    cases ys with
    | nil => simp [commonLength]
    | cons y ys =>
      by_cases h : x = y
      · simp [commonLength, h, ih ys]
      · simp [commonLength, h]

theorem le_commonLength {xs ys : List α} {n : ℕ} (hn : n ≤ xs.length)
    (h : xs.take n = ys.take n) : n ≤ commonLength xs ys := by
  induction n generalizing xs ys with
  | zero => omega
  | succ n ih =>
    cases xs with
    | nil => simp at hn
    | cons x xs =>
      cases ys with
      | nil => simp at h
      | cons y ys =>
        simp only [List.take_succ_cons, List.cons.injEq] at h
        have := ih (by simpa using hn) h.2
        rw [commonLength, if_pos h.1]
        omega

/-! ### Blocks -/

/-- The `i`-th block of `size` elements. -/
def blockAt (size : ℕ) (xs : List α) (i : ℕ) : List α := (xs.drop (i * size)).take size

omit [DecidableEq α] in
theorem take_eq_of_blocks {size n : ℕ} {xs ys : List α}
    (h : ∀ i < n, blockAt size xs i = blockAt size ys i) :
    xs.take (n * size) = ys.take (n * size) := by
  induction n with
  | zero => simp
  | succ n ih =>
    have hn := h n (by omega)
    unfold blockAt at hn
    rw [Nat.succ_mul, List.take_add, List.take_add, ih fun i hi => h i (by omega), hn]

omit [DecidableEq α] in
theorem take_add_eq {m n : ℕ} {xs ys : List α} (h : xs.take m = ys.take m)
    (h' : (xs.drop m).take n = (ys.drop m).take n) :
    xs.take (m + n) = ys.take (m + n) := by
  rw [List.take_add, List.take_add, h, h']

end TokenProxy.Lib
