import Mathlib.Data.List.Basic

/-!
# Positions in a list

An element with what stands before and after it. A loop over a list that keeps what it has read is a
loop over its positions.
-/

namespace TokenProxy.Lib

universe u

variable {α : Type u}

structure Position (α : Type u) where
  before : List α
  item : α
  after : List α

def positionsFrom (before : List α) : List α → List (Position α)
  | [] => []
  | x :: xs => { before, item := x, after := xs } :: positionsFrom (before ++ [x]) xs

def positions (xs : List α) : List (Position α) := positionsFrom [] xs

theorem mem_positionsFrom {before xs : List α} {p : Position α} :
    p ∈ positionsFrom before xs ↔ ∃ read, p.before = before ++ read ∧ xs = read ++ p.item :: p.after := by
  induction xs generalizing before with
  | nil => simp [positionsFrom]
  | cons x xs ih =>
    rw [positionsFrom, List.mem_cons, ih]
    constructor
    · rintro (rfl | ⟨read, hbefore, hxs⟩)
      · exact ⟨[], by simp, rfl⟩
      · exact ⟨x :: read, by simpa using hbefore, by rw [hxs, List.cons_append]⟩
    · rintro ⟨read, hbefore, hxs⟩
      cases read with
      | nil =>
        obtain ⟨rfl, rfl⟩ := List.cons.inj hxs
        refine Or.inl ?_
        rw [List.append_nil] at hbefore
        rw [← hbefore]
      | cons y read =>
        obtain ⟨rfl, rfl⟩ := List.cons.inj hxs
        exact Or.inr ⟨read, by simpa using hbefore, rfl⟩

theorem mem_positions {xs : List α} {p : Position α} :
    p ∈ positions xs ↔ xs = p.before ++ p.item :: p.after := by
  rw [positions, mem_positionsFrom]
  constructor
  · rintro ⟨read, hbefore, hxs⟩
    rw [hbefore, List.nil_append, hxs]
  · exact fun hxs => ⟨p.before, rfl, hxs⟩

theorem map_item_positionsFrom (before xs : List α) :
    (positionsFrom before xs).map Position.item = xs := by
  induction xs generalizing before with
  | nil => rfl
  | cons x xs ih => rw [positionsFrom, List.map_cons, ih]

theorem map_item_positions (xs : List α) : (positions xs).map Position.item = xs := map_item_positionsFrom [] xs

end TokenProxy.Lib
