import Mathlib.Data.List.Basic

/-!
# Batches

A sequence that comes in batches, each of a kind. Two batches of one kind that stand side by side
are as good as one, and an empty batch is as good as none: `merge` is the normal form, and
`merge_eq_iff` says that it forgets nothing else.
-/

namespace TokenProxy.Lib.Batches

variable {κ α : Type*}

def flat (batches : List (κ × List α)) : List (κ × α) := batches.flatMap fun batch => batch.2.map (batch.1, ·)

@[simp] theorem flat_nil : flat ([] : List (κ × List α)) = [] := rfl

@[simp] theorem flat_cons (batch : κ × List α) (batches : List (κ × List α)) :
    flat (batch :: batches) = batch.2.map (batch.1, ·) ++ flat batches := rfl

@[simp] theorem flat_append (xs ys : List (κ × List α)) : flat (xs ++ ys) = flat xs ++ flat ys := List.flatMap_append

variable [DecidableEq κ]

def join (kind : κ) (xs : List α) : List (κ × List α) → List (κ × List α)
  | [] => [(kind, xs)]
  | batch :: batches => if kind = batch.1 then (kind, xs ++ batch.2) :: batches else (kind, xs) :: batch :: batches

def merge : List (κ × List α) → List (κ × List α)
  | [] => []
  | (kind, xs) :: batches => if xs.isEmpty then merge batches else join kind xs (merge batches)

theorem flat_join (kind : κ) (xs : List α) (batches : List (κ × List α)) :
    flat (join kind xs batches) = xs.map (kind, ·) ++ flat batches := by
  cases batches with
  | nil => simp [join]
  | cons batch batches =>
    by_cases h : kind = batch.1
    · simp [join, ← h]
    · simp [join, h]

theorem flat_merge (batches : List (κ × List α)) : flat (merge batches) = flat batches := by
  induction batches with
  | nil => rfl
  | cons batch batches ih =>
    obtain ⟨kind, xs⟩ := batch
    rw [merge, flat_cons]
    split
    · rename_i h
      simp [List.isEmpty_iff.1 h, ih]
    · rw [flat_join, ih]

def regroup (elements : List (κ × α)) : List (κ × List α) := elements.foldr (fun element batches => join element.1 [element.2] batches) []

theorem join_append (kind : κ) (x : α) (xs : List α) (batches : List (κ × List α)) :
    join kind [x] (join kind xs batches) = join kind (x :: xs) batches := by
  cases batches with
  | nil => simp [join]
  | cons batch batches =>
    by_cases hkind : kind = batch.1
    · simp [join, hkind]
    · simp [join, hkind]

theorem regroup_append (kind : κ) {xs : List α} (h : xs ≠ []) (elements : List (κ × α)) :
    regroup (xs.map (kind, ·) ++ elements) = join kind xs (regroup elements) := by
  induction xs with
  | nil => exact absurd rfl h
  | cons x xs ih =>
    by_cases hxs : xs = []
    · subst hxs
      rfl
    · rw [← join_append kind x xs, ← ih hxs]
      rfl

theorem merge_eq_regroup (batches : List (κ × List α)) :
    merge batches = regroup (flat batches) := by
  induction batches with
  | nil => rfl
  | cons batch batches ih =>
    obtain ⟨kind, xs⟩ := batch
    rw [merge, flat_cons]
    split
    · rename_i h
      simp [List.isEmpty_iff.1 h, ih]
    · rename_i h
      rw [regroup_append kind (fun hxs => h (List.isEmpty_iff.2 hxs)), ih]

/-- **Merged batches are equal just if the sequences are.** -/
theorem merge_eq_iff (xs ys : List (κ × List α)) : merge xs = merge ys ↔ flat xs = flat ys := by
  constructor
  · intro h
    rw [← flat_merge xs, h, flat_merge]
  · intro h
    rw [merge_eq_regroup, h, ← merge_eq_regroup]

end TokenProxy.Lib.Batches
