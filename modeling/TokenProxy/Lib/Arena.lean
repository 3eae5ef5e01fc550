import Mathlib.Data.List.Basic

/-!
# Arenas

A list whose items are made at its end and never removed: an item is known by its place.
`Extends R New l l'` says what became of an arena: each item is still there as `R` lets it change,
and any other is `New`.
-/

namespace TokenProxy.Lib

universe u

variable {α : Type u}

structure Extends (R : α → α → Prop) (New : α → Prop) (l l' : List α) : Prop where
  kept : ∀ (i : Nat) x, l[i]? = some x → ∃ x', l'[i]? = some x' ∧ R x x'
  back : ∀ (i : Nat) x', l'[i]? = some x' → (∃ x, l[i]? = some x ∧ R x x') ∨ (l[i]? = none ∧ New x')

namespace Extends

variable {R : α → α → Prop} {New : α → Prop} {l l' l'' : List α}

theorem refl (hR : ∀ x, R x x) (l : List α) : Extends R New l l where
  kept _ x h := ⟨x, h, hR x⟩
  back _ x h := Or.inl ⟨x, h, hR x⟩

theorem snoc (hR : ∀ x, R x x) (l : List α) {x : α} (hx : New x) : Extends R New l (l ++ [x]) where
  kept i y h := ⟨y, by rw [List.getElem?_append_left (List.getElem?_eq_some_iff.1 h).1, h], hR y⟩
  back i y h := by
    by_cases hi : i < l.length
    · rw [List.getElem?_append_left hi] at h
      exact Or.inl ⟨y, h, hR y⟩
    · rw [List.getElem?_append_right (Nat.le_of_not_lt hi)] at h
      obtain rfl : y = x := List.mem_singleton.1 (List.mem_of_getElem? h)
      exact Or.inr ⟨List.getElem?_eq_none (Nat.le_of_not_lt hi), hx⟩

theorem set (hR : ∀ x, R x x) {i : Nat} {x x' : α} (hx : l[i]? = some x)
    (hRx : R x x') : Extends R New l (l.set i x') where
  kept j y h := by
    rw [List.getElem?_set]
    by_cases hij : i = j
    · subst hij
      obtain rfl : x = y := Option.some.inj (hx.symm.trans h)
      exact ⟨x', by rw [if_pos rfl, if_pos (List.getElem?_eq_some_iff.1 hx).1], hRx⟩
    · exact ⟨y, by rw [if_neg hij, h], hR y⟩
  back j y h := by
    rw [List.getElem?_set] at h
    split at h
    · rename_i hij
      subst hij
      split at h
      · cases h
        exact Or.inl ⟨x, hx, hRx⟩
      · cases h
    · exact Or.inl ⟨y, h, hR y⟩

theorem trans (hR : ∀ x y z, R x y → R y z → R x z) (hnew : ∀ x y, New x → R x y → New y)
    (h : Extends R New l l') (h' : Extends R New l' l'') : Extends R New l l'' where
  kept i x hx := by
    obtain ⟨y, hy, hxy⟩ := h.kept i x hx
    obtain ⟨z, hz, hyz⟩ := h'.kept i y hy
    exact ⟨z, hz, hR x y z hxy hyz⟩
  back i z hz := by
    obtain ⟨y, hy, hyz⟩ | ⟨hnone, hz⟩ := h'.back i z hz
    · obtain ⟨x, hx, hxy⟩ | ⟨hnone, hy⟩ := h.back i y hy
      · exact Or.inl ⟨x, hx, hR x y z hxy hyz⟩
      · exact Or.inr ⟨hnone, hnew y z hy hyz⟩
    · refine Or.inr ⟨?_, hz⟩
      by_contra hsome
      obtain ⟨x, hx⟩ := Option.ne_none_iff_exists'.1 hsome
      obtain ⟨y, hy, -⟩ := h.kept i x hx
      rw [hnone] at hy
      cases hy

theorem mono {New' : α → Prop} (h : Extends R New l l')
    (hnew : ∀ x, New x → New' x) : Extends R New' l l' where
  kept := h.kept
  back i x hx := (h.back i x hx).imp_right fun ⟨hnone, hx⟩ => ⟨hnone, hnew x hx⟩

end Extends

section Items

variable {l : List α} {P : Nat → α → Prop}

theorem getElem?_set_of_some {i : Nat} {x x' : α}
    (hx : l[i]? = some x) : (l.set i x')[i]? = some x' := by
  rw [List.getElem?_set, if_pos rfl, if_pos (List.getElem?_eq_some_iff.1 hx).1]

theorem getElem?_set_cases {i j : Nat} {x' y : α}
    (h : (l.set i x')[j]? = some y) : j = i ∧ y = x' ∨ j ≠ i ∧ l[j]? = some y := by
  rw [List.getElem?_set] at h
  split at h
  · rename_i hij
    split at h
    · cases h
      exact Or.inl ⟨hij.symm, rfl⟩
    · cases h
  · rename_i hij
    exact Or.inr ⟨Ne.symm hij, h⟩

theorem getElem?_set_ne {i j : Nat} {x' : α} (h : j ≠ i) : (l.set i x')[j]? = l[j]? := by
  rw [List.getElem?_set, if_neg (Ne.symm h)]

theorem getElem?_snoc {x y : α} {j : Nat} :
    (l ++ [x])[j]? = some y ↔ l[j]? = some y ∨ (j = l.length ∧ y = x) := by
  rcases Nat.lt_trichotomy j l.length with hlt | rfl | hgt
  · rw [List.getElem?_append_left hlt]
    simp [Nat.ne_of_lt hlt]
  · rw [List.getElem?_append_right (Nat.le_refl _)]
    simp [eq_comm]
  · rw [List.getElem?_eq_none (by simp; omega), List.getElem?_eq_none (by omega)]
    simp [Nat.ne_of_gt hgt]

theorem countP_set_of_some {p : α → Bool} {i : Nat} {x x' : α} (hx : l[i]? = some x) :
    (l.set i x').countP p + (p x).toNat = l.countP p + (p x').toNat := by
  obtain ⟨hi, rfl⟩ := List.getElem?_eq_some_iff.1 hx
  have hle : (p l[i]).toNat ≤ l.countP p := by
    cases hp : p l[i] with
    | false => exact Nat.zero_le _
    | true => exact List.countP_pos_iff.2 ⟨l[i], List.getElem_mem hi, hp⟩
  rw [List.countP_set hi]
  cases hp : p l[i] <;> cases hp' : p x' <;> rw [hp] at hle <;> simp only [Bool.toNat_true, Bool.toNat_false] at hle ⊢ <;> simp <;> omega

theorem items_set (h : ∀ (i : Nat) x, l[i]? = some x → P i x) {i : Nat} {x' : α} (hx' : P i x') :
    ∀ (j : Nat) x, (l.set i x')[j]? = some x → P j x := by
  intro j x hx
  rw [List.getElem?_set] at hx
  split at hx
  · rename_i hij
    subst hij
    split at hx
    · cases hx
      exact hx'
    · cases hx
  · exact h j x hx

theorem items_snoc (h : ∀ (i : Nat) x, l[i]? = some x → P i x) {x' : α} (hx' : P l.length x') :
    ∀ (j : Nat) x, (l ++ [x'])[j]? = some x → P j x := by
  intro j x hx
  rcases getElem?_snoc.mp hx with hx | ⟨rfl, rfl⟩
  · exact h j x hx
  · exact hx'

end Items

end TokenProxy.Lib
