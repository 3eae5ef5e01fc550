import Mathlib.Data.List.Chain
import Mathlib.Data.List.Dedup

/-!
# Choosing in turn

From candidates in the order of time, each that comes at least `gap` after the one chosen before it.
What is chosen after a chosen one does not depend on what came before (`greedy_resume`).
-/

namespace TokenProxy.Lib

universe u v

variable {α : Type u} {β : Type v} (time : α → ℤ) (gap : ℤ)

/-- `ready` is the time before which nothing is chosen. -/
def greedy (ready : Option ℤ) : List α → List α
  | [] => []
  | x :: xs => if ready.any (time x < ·) then greedy ready xs else x :: greedy (some (time x + gap)) xs

-- Lean derives the equations of a recursive definition at the first proof that unfolds it.
-- The proofs of a module are elaborated side by side; asked for once, here, the equations
-- are the same for all of them.
section
attribute [local simp] greedy
end

@[simp] theorem greedy_nil (ready : Option ℤ) : greedy time gap ready [] = [] := rfl

theorem greedy_skip {ready : Option ℤ} {x : α} (h : ready.any (time x < ·) = true) (xs : List α) :
    greedy time gap ready (x :: xs) = greedy time gap ready xs := by
  rw [greedy, if_pos h]

theorem greedy_take {ready : Option ℤ} {x : α} (h : ¬ ready.any (time x < ·) = true) (xs : List α) :
    greedy time gap ready (x :: xs) = x :: greedy time gap (some (time x + gap)) xs := by
  rw [greedy, if_neg h]

theorem greedy_sublist (ready : Option ℤ) (xs : List α) :
    (greedy time gap ready xs).Sublist xs := by
  induction xs generalizing ready with
  | nil => exact List.Sublist.refl _
  | cons x xs ih =>
    rw [greedy]
    split
    · exact (ih ready).cons x
    · exact (ih _).cons_cons x

variable {time gap}

theorem ready_le_greedy (hgap : 0 ≤ gap) {ready : ℤ} {xs : List α} {y : α}
    (hy : y ∈ greedy time gap (some ready) xs) : ready ≤ time y := by
  induction xs generalizing ready with
  | nil => simp at hy
  | cons x xs ih =>
    by_cases hx : (some ready).any (time x < ·) = true
    · rw [greedy_skip time gap hx] at hy
      exact ih hy
    · rw [greedy_take time gap hx] at hy
      have hle : ready ≤ time x := by simpa using hx
      rcases List.mem_cons.1 hy with rfl | hy
      · exact hle
      · have := ih hy
        omega

theorem greedy_spaced (hgap : 0 ≤ gap) (ready : Option ℤ) (xs : List α) :
    (greedy time gap ready xs).Pairwise fun a b => time a + gap ≤ time b := by
  induction xs generalizing ready with
  | nil => exact List.Pairwise.nil
  | cons x xs ih =>
    by_cases hx : ready.any (time x < ·) = true
    · rw [greedy_skip time gap hx]
      exact ih ready
    · rw [greedy_take time gap hx]
      exact List.pairwise_cons.2 ⟨fun y hy => ready_le_greedy hgap hy, ih _⟩

theorem greedy_resume (hgap : 0 < gap) {ready : Option ℤ} {xs : List α}
    (hxs : xs.Pairwise fun a b => time a ≤ time b) {y : α} (hy : y ∈ greedy time gap ready xs) :
    greedy time gap (some (time y + gap)) xs = (greedy time gap ready xs).filter (time y < time ·) := by
  induction xs generalizing ready with
  | nil => simp at hy
  | cons x xs ih =>
    obtain ⟨hle, hxs⟩ := List.pairwise_cons.1 hxs
    -- Whatever is not after `y` is skipped.
    have hskip : time x ≤ time y → greedy time gap (some (time y + gap)) (x :: xs) = greedy time gap (some (time y + gap)) xs := by
      intro hxy
      refine greedy_skip time gap ?_ xs
      simp only [Option.any_some, decide_eq_true_eq]
      omega
    by_cases hx : ready.any (time x < ·) = true
    · rw [greedy_skip time gap hx] at hy ⊢
      rw [hskip (hle y ((greedy_sublist time gap ready xs).subset hy))]
      exact ih hxs hy
    · rw [greedy_take time gap hx] at hy ⊢
      rcases List.mem_cons.1 hy with rfl | hy
      · rw [hskip (Int.le_refl _), List.filter_cons, if_neg (by simp)]
        symm
        refine List.filter_eq_self.2 fun z hz => ?_
        have := ready_le_greedy (Int.le_of_lt hgap) hz
        simp only [decide_eq_true_eq]
        omega
      · have hxy := hle y ((greedy_sublist time gap _ xs).subset hy)
        rw [hskip hxy, List.filter_cons, if_neg (by simpa using hxy)]
        exact ih hxs hy

theorem greedy_map (time : α → ℤ) (f : β → α) (ready : Option ℤ) (xs : List β) :
    (greedy (fun x => time (f x)) gap ready xs).map f = greedy time gap ready (xs.map f) := by
  induction xs generalizing ready with
  | nil => rfl
  | cons x xs ih =>
    rw [List.map_cons, greedy, greedy]
    split
    · exact ih ready
    · rw [List.map_cons, ih]

theorem greedy_dedup (hgap : 0 < gap) {ready : Option ℤ} {times : List ℤ}
    (hsorted : times.Pairwise (· ≤ ·)) :
    greedy id gap ready times.dedup = greedy id gap ready times := by
  induction times generalizing ready with
  | nil => rfl
  | cons x times ih =>
    obtain ⟨hle, htimes⟩ := List.pairwise_cons.1 hsorted
    by_cases hmem : x ∈ times
    · rw [List.dedup_cons_of_mem hmem, ih htimes]
      cases times with
      | nil => simp at hmem
      | cons y times =>
        -- Its next occurrence comes at once.
        have hxy : y = x := by
          have hyx := hle y (List.mem_cons_self ..)
          rcases List.mem_cons.1 hmem with rfl | hmem
          · rfl
          · have := (List.pairwise_cons.1 htimes).1 x hmem
            omega
        subst hxy
        by_cases hready : ready.any (id y < ·) = true
        · rw [greedy_skip id gap hready (y :: times)]
        · have hagain : (some (id y + gap)).any (id y < ·) = true := by
            rw [Option.any_some, decide_eq_true_eq]
            omega
          rw [greedy_take id gap hready, greedy_take id gap hready, greedy_skip id gap hagain]
    · rw [List.dedup_cons_of_notMem hmem]
      by_cases hready : ready.any (id x < ·) = true
      · rw [greedy_skip id gap hready, greedy_skip id gap hready, ih htimes]
      · rw [greedy_take id gap hready, greedy_take id gap hready, ih htimes]

theorem greedy_congr (hgap : 0 < gap) {ready : Option ℤ} {times times' : List ℤ}
    (hsorted : times.Pairwise (· ≤ ·))
    (hsorted' : times'.Pairwise (· ≤ ·)) (hmem : ∀ t, t ∈ times ↔ t ∈ times') :
    greedy id gap ready times = greedy id gap ready times' := by
  rw [← greedy_dedup hgap hsorted, ← greedy_dedup hgap hsorted']
  have hperm : times.dedup.Perm times'.dedup := by
    rw [List.perm_ext_iff_of_nodup (List.nodup_dedup _) (List.nodup_dedup _)]
    intro t
    rw [List.mem_dedup, List.mem_dedup, hmem]
  have heq : times.dedup = times'.dedup :=
    hperm.eq_of_pairwise (fun a b _ _ (hab : a ≤ b) (hba : b ≤ a) => Int.le_antisymm hab hba) (hsorted.sublist (List.dedup_sublist _))
      (hsorted'.sublist (List.dedup_sublist _))
  rw [heq]

end TokenProxy.Lib
