import Mathlib.Data.List.Perm.Subperm
import Mathlib.Data.List.FinRange

/-!
# Moving pairs of neighbours

Two neighbours of a list go to the place of two others. While the places are apart from each other
and each of them is taken once, the result has the same entries (`perm`), and all of it is known by
position: `getElem?_slot`, `getElem?_slot_succ`, `getElem?_untouched`.
-/

namespace TokenProxy.Lib

universe u v

variable {α : Type u} {β : Type v}

/-- The entries at `source` and behind it go to `slot`. -/
structure PairMove where
  slot : ℕ
  source : ℕ
  deriving DecidableEq

namespace PairMove

def apply (items out : List α) (move : PairMove) : List α :=
  match items[move.source]?, items[move.source + 1]? with
  | some first, some second => (out.set move.slot first).set (move.slot + 1) second
  | _, _ => out

def applyAll (items : List α) (moves : List PairMove) : List α := moves.foldl (apply items) items

def Touches (move : PairMove) (i : ℕ) : Prop := i = move.slot ∨ i = move.slot + 1

instance (move : PairMove) (i : ℕ) : Decidable (move.Touches i) := inferInstanceAs (Decidable (_ ∨ _))

theorem length_apply (items out : List α) (move : PairMove) :
    (apply items out move).length = out.length := by
  unfold apply
  split
  · rw [List.length_set, List.length_set]
  · rfl

theorem length_foldl (items out : List α) (moves : List PairMove) :
    (moves.foldl (apply items) out).length = out.length := by
  induction moves generalizing out with
  | nil => rfl
  | cons move moves ih => rw [List.foldl_cons, ih, length_apply]

theorem getElem?_apply_of_not (items out : List α) {move : PairMove} {i : ℕ}
    (h : ¬ move.Touches i) : (apply items out move)[i]? = out[i]? := by
  simp only [Touches, not_or] at h
  unfold apply
  split
  · rw [List.getElem?_set_ne (Ne.symm h.2), List.getElem?_set_ne (Ne.symm h.1)]
  · rfl

theorem getElem?_foldl_of_not (items out : List α) {moves : List PairMove} {i : ℕ}
    (h : ∀ move ∈ moves, ¬ move.Touches i) :
    (moves.foldl (apply items) out)[i]? = out[i]? := by
  induction moves generalizing out with
  | nil => rfl
  | cons move moves ih =>
    rw [List.foldl_cons, ih _ fun m hm => h m (List.mem_cons_of_mem _ hm), getElem?_apply_of_not items out (h move List.mem_cons_self)]

theorem getElem?_apply (items out : List α) {move : PairMove}
    (hsource : move.source + 1 < items.length) (hslot : move.slot + 1 < out.length) :
    (apply items out move)[move.slot]? = items[move.source]? ∧ (apply items out move)[move.slot + 1]? = items[move.source + 1]? := by
  have hfirst : items[move.source]? = some items[move.source] := List.getElem?_eq_getElem (by omega)
  have hsecond : items[move.source + 1]? = some items[move.source + 1] := List.getElem?_eq_getElem hsource
  rw [apply, hfirst, hsecond]
  simp only
  constructor
  · rw [List.getElem?_set_ne (by omega), List.getElem?_set_self (by omega)]
  · rw [List.getElem?_set_self (by rw [List.length_set]; exact hslot)]

theorem apply_map (f : α → β) (items out : List α) (move : PairMove) :
    apply (items.map f) (out.map f) move = (apply items out move).map f := by
  unfold apply
  rw [List.getElem?_map, List.getElem?_map]
  cases items[move.source]? with
  | none => rfl
  | some first =>
    cases items[move.source + 1]? with
    | none => rfl
    | some second => simp only [Option.map_some, List.map_set]

theorem applyAll_map (f : α → β) (items : List α)
    (moves : List PairMove) : applyAll (items.map f) moves = (applyAll items moves).map f := by
  have hfold : ∀ out : List α, moves.foldl (apply (items.map f)) (out.map f) = (moves.foldl (apply items) out).map f := by
    intro out
    induction moves generalizing out with
    | nil => rfl
    | cons move moves ih => rw [List.foldl_cons, List.foldl_cons, apply_map, ih]
  exact hfold items

end PairMove

def Apart (i j : ℕ) : Prop := i + 2 ≤ j ∨ j + 2 ≤ i

structure Rearranges (length : ℕ) (moves : List PairMove) : Prop where
  apart : (moves.map PairMove.slot).Pairwise Apart
  sources : (moves.map PairMove.source).Perm (moves.map PairMove.slot)
  bounded : ∀ move ∈ moves, move.slot + 2 ≤ length

namespace Rearranges

open PairMove

variable {items : List α} {moves : List PairMove}

theorem mono {lower upper : ℕ} (h : Rearranges lower moves)
    (hle : lower ≤ upper) : Rearranges upper moves :=
  ⟨h.apart, h.sources, fun move hmem => le_trans (h.bounded move hmem) hle⟩

theorem source_bounded {length : ℕ} (h : Rearranges length moves) {move : PairMove}
    (hmem : move ∈ moves) : move.source + 2 ≤ length := by
  obtain ⟨other, hother, heq⟩ := List.mem_map.mp (h.sources.subset (List.mem_map_of_mem hmem))
  rw [← heq]
  exact h.bounded other hother

theorem getElem?_slots_of_pairwise {out : List α} (hpair : (moves.map PairMove.slot).Pairwise Apart)
    (hsource : ∀ move ∈ moves, move.source + 1 < items.length) (hslot : ∀ move ∈ moves, move.slot + 1 < out.length) {move : PairMove}
    (hmem : move ∈ moves) :
    (moves.foldl (apply items) out)[move.slot]? = items[move.source]? ∧
      (moves.foldl (apply items) out)[move.slot + 1]? = items[move.source + 1]? := by
  induction moves generalizing out with
  | nil => cases hmem
  | cons first rest ih =>
    rw [List.map_cons, List.pairwise_cons] at hpair
    rw [List.foldl_cons]
    rcases List.mem_cons.mp hmem with rfl | hrest
    · have hnot : ∀ m ∈ rest, ¬ m.Touches move.slot ∧ ¬ m.Touches (move.slot + 1) := by
        intro m hm
        have := hpair.1 m.slot (List.mem_map_of_mem hm)
        unfold Apart at this
        unfold Touches
        omega
      rw [getElem?_foldl_of_not items _ fun m hm => (hnot m hm).1, getElem?_foldl_of_not items _ fun m hm => (hnot m hm).2]
      exact getElem?_apply items out (hsource move hmem) (hslot move hmem)
    · refine ih hpair.2 (fun m hm => hsource m (List.mem_cons_of_mem _ hm)) (fun m hm => ?_) hrest
      rw [length_apply]
      exact hslot m (List.mem_cons_of_mem _ hm)

theorem getElem?_slots (h : Rearranges items.length moves) {move : PairMove} (hmem : move ∈ moves) :
    (applyAll items moves)[move.slot]? = items[move.source]? ∧ (applyAll items moves)[move.slot + 1]? = items[move.source + 1]? :=
  getElem?_slots_of_pairwise h.apart (fun _ hm => Nat.lt_of_succ_le (h.source_bounded hm)) (fun _ hm => Nat.lt_of_succ_le (h.bounded _ hm)) hmem

theorem getElem?_untouched {i : ℕ} (hi : ∀ move ∈ moves, ¬ move.Touches i) :
    (applyAll items moves)[i]? = items[i]? :=
  getElem?_foldl_of_not items items hi

theorem subset (h : Rearranges items.length moves) : items ⊆ applyAll items moves := by
  intro x hx
  obtain ⟨i, hi⟩ := List.mem_iff_getElem?.mp hx
  by_cases hsource : ∃ move ∈ moves, i = move.source ∨ i = move.source + 1
  · obtain ⟨move, hmem, rfl | rfl⟩ := hsource
    · exact List.mem_of_getElem? ((h.getElem?_slots hmem).1.trans hi)
    · exact List.mem_of_getElem? ((h.getElem?_slots hmem).2.trans hi)
  · have huntouched : ∀ move ∈ moves, ¬ move.Touches i := by
      intro move hmem htouch
      obtain ⟨other, hother, heq⟩ := List.mem_map.mp (h.sources.symm.subset (List.mem_map_of_mem hmem))
      exact hsource ⟨other, hother, by rw [heq]; exact htouch⟩
    exact List.mem_of_getElem? ((getElem?_untouched huntouched).trans hi)

/-- **Nothing is lost, and nothing is there twice.** -/
theorem perm (h : Rearranges items.length moves) : (applyAll items moves).Perm items := by
  have hpositions : Rearranges (List.finRange items.length).length moves := by rwa [List.length_finRange]
  have hlength : (applyAll (List.finRange items.length) moves).length = (List.finRange items.length).length := length_foldl _ _ _
  have hperm := ((List.nodup_finRange items.length).subperm hpositions.subset).perm_of_length_le (le_of_eq hlength)
  have hitems : (List.finRange items.length).map items.get = items := List.map_get_finRange items
  have hmap := (hperm.map items.get).symm
  rwa [← applyAll_map, hitems] at hmap

end Rearranges

end TokenProxy.Lib
