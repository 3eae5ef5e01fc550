import Mathlib.Data.List.Basic

/-!
# Lists cut at an element

What follows from `before ++ u :: after` being another list that is made of parts.
-/

namespace TokenProxy.Lib

theorem eq_of_append_cons_eq {α : Type*} {c : α} {s t s' t' : List α} (hs : c ∉ s) (ht : c ∉ t)
    (h : s ++ c :: s' = t ++ c :: t') : s = t ∧ s' = t' := by
  induction s generalizing t with
  | nil =>
    cases t with
    | nil => simpa using h
    | cons d t =>
      rw [List.nil_append, List.cons_append, List.cons.injEq] at h
      exact absurd (by simp [h.1]) ht
  | cons d s ih =>
    cases t with
    | nil =>
      rw [List.nil_append, List.cons_append, List.cons.injEq] at h
      exact absurd (by simp [h.1]) hs
    | cons e t =>
      rw [List.cons_append, List.cons_append, List.cons.injEq] at h
      rw [List.mem_cons, not_or] at hs ht
      obtain ⟨hst, hrest⟩ := ih hs.2 ht.2 h.2
      exact ⟨by rw [h.1, hst], hrest⟩

theorem append_cons_eq_append_cons {α : Type*} {xs ys before after : List α} {x u : α}
    (h : xs ++ x :: ys = before ++ u :: after) (hu : u ∉ xs) :
    (before = xs ∧ u = x ∧ after = ys) ∨ ∃ between, before = xs ++ x :: between ∧ ys = between ++ u :: after := by
  rcases List.append_eq_append_iff.1 h with ⟨t, rfl, ht⟩ | ⟨t, rfl, ht⟩
  · cases t with
    | nil =>
      obtain ⟨rfl, rfl⟩ := List.cons.inj ht
      exact .inl ⟨List.append_nil _, rfl, rfl⟩
    | cons y between =>
      obtain ⟨rfl, rfl⟩ := List.cons.inj ht
      exact .inr ⟨between, rfl, rfl⟩
  · cases t with
    | nil =>
      obtain ⟨rfl, rfl⟩ := List.cons.inj ht
      exact .inl ⟨(List.append_nil _).symm, rfl, rfl⟩
    | cons y between =>
      obtain ⟨rfl, -⟩ := List.cons.inj ht
      exact absurd (by simp) hu

theorem snoc_eq_append_cons_iff {α : Type*} {xs before after : List α} {x u : α} :
    xs ++ [x] = before ++ u :: after ↔ (after = [] ∧ xs = before ∧ x = u) ∨ ∃ rest, after = rest ++ [x] ∧ xs = before ++ u :: rest := by
  rcases List.eq_nil_or_concat' after with rfl | ⟨rest, y, rfl⟩
  · constructor
    · intro h
      obtain ⟨hxs, hx⟩ := List.append_inj' h rfl
      exact .inl ⟨rfl, hxs, List.singleton_inj.1 hx⟩
    · rintro (⟨-, rfl, rfl⟩ | ⟨rest, hrest, -⟩)
      · rfl
      · simp at hrest
  · have hsplit : before ++ u :: (rest ++ [y]) = before ++ u :: rest ++ [y] := by simp
    rw [hsplit]
    constructor
    · intro h
      obtain ⟨hxs, hx⟩ := List.append_inj' h rfl
      exact .inr ⟨rest, by rw [List.singleton_inj.1 hx], hxs⟩
    · rintro (⟨hnil, -⟩ | ⟨rest', hrest, hxs⟩)
      · simp at hnil
      · obtain ⟨rfl, hy⟩ := List.append_inj' hrest rfl
        rw [hxs, List.singleton_inj.1 hy]

end TokenProxy.Lib
