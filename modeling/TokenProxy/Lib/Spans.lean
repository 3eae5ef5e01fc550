import TokenProxy.Lib.Table
import Mathlib.Order.Bounds.Basic
import Mathlib.Order.Lattice

/-!
# Boundaries that no pair straddles

Keys occur at places of a list, and the span of a key reaches from its first place to its last one.
A boundary is closed when no span has places on both sides of it. `widen` moves a boundary behind
the spans that straddle it until none is left: it ends at the least closed boundary that is not
before the first one. `pullAll` moves it back in one pass, over spans in the order of their ends.

* `spansOf_closed_iff`: closed for the spans is closed for the occurrences.
* `widen_isLeast`: where enough rounds lead to.
* `pullAll_isGreatest`: where the pass leads to.
-/

namespace TokenProxy.Lib

structure Span where
  first : ℕ
  last : ℕ
  deriving DecidableEq

namespace Span

def Straddles (s : Span) (b : ℕ) : Prop := s.first < b ∧ b ≤ s.last

instance (s : Span) (b : ℕ) : Decidable (s.Straddles b) := inferInstanceAs (Decidable (_ ∧ _))

/-- The span that also has a place `i`. -/
def extend (s : Span) (i : ℕ) : Span := ⟨if i < s.first then i else s.first, if s.last < i then i else s.last⟩

def Closed (spans : List Span) (b : ℕ) : Prop := ∀ s ∈ spans, ¬ s.Straddles b

instance (spans : List Span) (b : ℕ) : Decidable (Closed spans b) := inferInstanceAs (Decidable (∀ s ∈ spans, ¬ s.Straddles b))

/-! ### Widening -/

def push (b : ℕ) (s : Span) : ℕ := if s.Straddles b then s.last + 1 else b

def pass (spans : List Span) (b : ℕ) : ℕ := spans.foldl push b

/-- Passes over the spans until one moves nothing, or the rounds are used up. -/
def widen (spans : List Span) : ℕ → ℕ → ℕ
  | 0, b => b
  | rounds + 1, b => if pass spans b = b then b else widen spans rounds (pass spans b)

theorem le_push (b : ℕ) (s : Span) : b ≤ push b s := by
  unfold push
  split
  · rename_i h
    have := h.2
    omega
  · exact le_rfl

theorem le_pass (spans : List Span) (b : ℕ) : b ≤ pass spans b := by
  induction spans generalizing b with
  | nil => exact le_rfl
  | cons s spans ih => exact (le_push b s).trans (ih (push b s))

theorem pass_eq_self_iff {spans : List Span} {b : ℕ} : pass spans b = b ↔ Closed spans b := by
  induction spans with
  | nil => simp [pass, Closed]
  | cons s spans ih =>
    have hpass : pass (s :: spans) b = pass spans (push b s) := rfl
    by_cases h : s.Straddles b
    · have hpush : push b s = s.last + 1 := if_pos h
      have hle := le_pass spans (push b s)
      have := h.2
      refine iff_of_false (by omega) fun hc => hc s (by simp) h
    · have hpush : push b s = b := if_neg h
      rw [hpass, hpush, ih]
      simp [Closed, h]

theorem push_le_of_not_straddles {s : Span} {b c : ℕ} (hb : b ≤ c)
    (hc : ¬ s.Straddles c) : push b s ≤ c := by
  unfold push
  split
  · rename_i h
    by_contra hlt
    exact hc ⟨by have := h.1; omega, by omega⟩
  · exact hb

theorem pass_le_of_closed {spans : List Span} {b c : ℕ} (hb : b ≤ c)
    (hc : Closed spans c) : pass spans b ≤ c := by
  induction spans generalizing b with
  | nil => exact hb
  | cons s spans ih => exact ih (push_le_of_not_straddles hb (hc s (by simp))) fun t ht => hc t (by simp [ht])

theorem push_le_of_last {s : Span} {b size : ℕ} (hb : b ≤ size)
    (hs : s.last < size) : push b s ≤ size := by
  unfold push
  split <;> omega

theorem pass_le_of_last {spans : List Span} {b size : ℕ} (hb : b ≤ size)
    (hs : ∀ s ∈ spans, s.last < size) : pass spans b ≤ size := by
  induction spans generalizing b with
  | nil => exact hb
  | cons s spans ih => exact ih (push_le_of_last hb (hs s (by simp))) fun t ht => hs t (by simp [ht])

theorem le_widen (spans : List Span) (rounds b : ℕ) : b ≤ widen spans rounds b := by
  induction rounds generalizing b with
  | zero => exact le_rfl
  | succ rounds ih =>
    unfold widen
    split
    · exact le_rfl
    · exact (le_pass spans b).trans (ih _)

theorem widen_closed {spans : List Span} {rounds b size : ℕ} (hb : b ≤ size)
    (hs : ∀ s ∈ spans, s.last < size) (hr : size < b + rounds) :
    Closed spans (widen spans rounds b) := by
  induction rounds generalizing b with
  | zero => omega
  | succ rounds ih =>
    unfold widen
    split
    · rename_i h
      exact pass_eq_self_iff.mp h
    · have := le_pass spans b
      exact ih (pass_le_of_last hb hs) (by omega)

theorem widen_le_of_closed {spans : List Span} {rounds b c : ℕ} (hb : b ≤ c)
    (hc : Closed spans c) : widen spans rounds b ≤ c := by
  induction rounds generalizing b with
  | zero => exact hb
  | succ rounds ih =>
    unfold widen
    split
    · exact hb
    · exact ih (pass_le_of_closed hb hc)

theorem widen_isLeast {spans : List Span} {rounds b size : ℕ} (hb : b ≤ size)
    (hs : ∀ s ∈ spans, s.last < size) (hr : size < b + rounds) :
    IsLeast {c | b ≤ c ∧ Closed spans c} (widen spans rounds b) :=
  ⟨⟨le_widen spans rounds b, widen_closed hb hs hr⟩, fun _ hc => widen_le_of_closed hc.1 hc.2⟩

/-! ### Pulling back -/

def pull (s : Span) (b : ℕ) : ℕ := if s.Straddles b then s.first else b

def pullAll (spans : List Span) (b : ℕ) : ℕ := spans.foldr pull b

theorem pull_le (s : Span) (b : ℕ) : pull s b ≤ b := by
  unfold pull
  split
  · rename_i h
    exact h.1.le
  · exact le_rfl

theorem pullAll_le (spans : List Span) (b : ℕ) : pullAll spans b ≤ b := by
  induction spans with
  | nil => exact le_rfl
  | cons s spans ih => exact (pull_le s _).trans ih

theorem not_straddles_pull {s t : Span} {b : ℕ} (hlast : s.last ≤ t.last)
    (h : ¬ t.Straddles b) : ¬ t.Straddles (pull s b) := by
  unfold pull
  split
  · rename_i hs
    rintro ⟨hfirst, -⟩
    have hb := hs.1
    exact h ⟨hfirst.trans hs.1, hs.2.trans hlast⟩
  · exact h

theorem pullAll_closed {spans : List Span} (h : spans.Pairwise fun s t => s.last ≤ t.last)
    (b : ℕ) : Closed spans (pullAll spans b) := by
  induction spans with
  | nil => simp [Closed]
  | cons s spans ih =>
    obtain ⟨hs, hspans⟩ := List.pairwise_cons.1 h
    intro t ht
    rcases List.mem_cons.1 ht with rfl | ht
    · show ¬ t.Straddles (pull t (pullAll spans b))
      unfold pull
      split
      · exact fun hstr => absurd hstr.1 (lt_irrefl _)
      · assumption
    · exact not_straddles_pull (hs t ht) (ih hspans t ht)

theorem le_pullAll_of_closed {spans : List Span} {b c : ℕ} (hb : c ≤ b)
    (hc : Closed spans c) : c ≤ pullAll spans b := by
  induction spans with
  | nil => exact hb
  | cons s spans ih =>
    have hle := ih fun t ht => hc t (List.mem_cons_of_mem s ht)
    show c ≤ pull s (pullAll spans b)
    unfold pull
    split
    · rename_i hs
      by_contra hlt
      exact hc s List.mem_cons_self ⟨by omega, hle.trans hs.2⟩
    · exact hle

/-- **The pass ends at the last closed boundary.** -/
theorem pullAll_isGreatest {spans : List Span} (h : spans.Pairwise fun s t => s.last ≤ t.last)
    (b : ℕ) :
    IsGreatest {c | c ≤ b ∧ Closed spans c} (pullAll spans b) :=
  ⟨⟨pullAll_le spans b, pullAll_closed h b⟩, fun _ hc => le_pullAll_of_closed hc.1 hc.2⟩

/-! ### Spans of keys -/

section Keys

variable {κ : Type*} [DecidableEq κ]

def note (spans : Dict κ Span) (occurrence : κ × ℕ) : Dict κ Span :=
  match spans.lookup occurrence.1 with
  | some s => spans.put (occurrence.1, s.extend occurrence.2)
  | none => spans.put (occurrence.1, ⟨occurrence.2, occurrence.2⟩)

def spansOf (occurrences : List (κ × ℕ)) : Dict κ Span := occurrences.foldl note Table.empty

/-- What the spans are of some occurrences: each reaches from an occurrence of its key to
another, and over all of them. -/
def Spanning (occurrences : List (κ × ℕ)) (spans : Dict κ Span) : Prop :=
  (∀ k s, spans.lookup k = some s → (k, s.first) ∈ occurrences ∧ (k, s.last) ∈ occurrences) ∧
    ∀ k i, (k, i) ∈ occurrences → ∃ s, spans.lookup k = some s ∧ s.first ≤ i ∧ i ≤ s.last

theorem spanning_note {occurrences : List (κ × ℕ)} {spans : Dict κ Span}
    (h : Spanning occurrences spans) (occurrence : κ × ℕ) :
    Spanning (occurrences ++ [occurrence]) (note spans occurrence) := by
  obtain ⟨key, place⟩ := occurrence
  obtain ⟨hin, hall⟩ := h
  have hsome : ∀ s, spans.lookup key = some s → note spans (key, place) = spans.put (key, s.extend place) := by
    intro s hs
    simp [note, hs]
  have hnone : spans.lookup key = none → note spans (key, place) = spans.put (key, ⟨place, place⟩) := by
    intro hs
    simp [note, hs]
  constructor
  · intro k s hs
    cases hl : spans.lookup key with
    | some t =>
      rw [hsome t hl, Table.lookup_put] at hs
      split at hs
      · rename_i hk
        subst hk
        simp only [Option.some.injEq] at hs
        subst hs
        obtain ⟨h1, h2⟩ := hin _ t hl
        refine ⟨?_, ?_⟩
        · simp only [extend]
          split <;> simp [h1]
        · simp only [extend]
          split <;> simp [h2]
      · obtain ⟨h1, h2⟩ := hin k s hs
        exact ⟨by simp [h1], by simp [h2]⟩
    | none =>
      rw [hnone hl, Table.lookup_put] at hs
      split at hs
      · rename_i hk
        subst hk
        simp only [Option.some.injEq] at hs
        subst hs
        simp
      · obtain ⟨h1, h2⟩ := hin k s hs
        exact ⟨by simp [h1], by simp [h2]⟩
  · intro k i hi
    cases hl : spans.lookup key with
    | some t =>
      rw [hsome t hl]
      by_cases hk : k = key
      · subst hk
        refine ⟨t.extend place, by rw [Table.lookup_put, if_pos rfl], ?_⟩
        have hti : i = place ∨ t.first ≤ i ∧ i ≤ t.last := by
          simp only [List.mem_append, List.mem_singleton, Prod.mk.injEq, true_and] at hi
          rcases hi with hi | hi
          · obtain ⟨s, hs, h1, h2⟩ := hall k i hi
            rw [hl, Option.some.injEq] at hs
            subst hs
            exact Or.inr ⟨h1, h2⟩
          · exact Or.inl hi
        simp only [extend]
        split <;> split <;> omega
      · have hold : (k, i) ∈ occurrences := by simpa [hk] using hi
        obtain ⟨s, hs, h⟩ := hall k i hold
        exact ⟨s, by rw [Table.lookup_put, if_neg (fun he => hk (by simpa using he)), hs], h⟩
    | none =>
      rw [hnone hl]
      by_cases hk : k = key
      · subst hk
        have hi : i = place := by
          simp only [List.mem_append, List.mem_singleton, Prod.mk.injEq, true_and] at hi
          rcases hi with hi | hi
          · obtain ⟨s, hs, -⟩ := hall k i hi
            rw [hl] at hs
            exact absurd hs (by simp)
          · exact hi
        exact ⟨⟨place, place⟩, by rw [Table.lookup_put, if_pos rfl], by simp [hi]⟩
      · have hold : (k, i) ∈ occurrences := by simpa [hk] using hi
        obtain ⟨s, hs, h⟩ := hall k i hold
        exact ⟨s, by rw [Table.lookup_put, if_neg (fun he => hk (by simpa using he)), hs], h⟩

theorem spanning_spansOf (occurrences : List (κ × ℕ)) :
    Spanning occurrences (spansOf occurrences) := by
  have hrun : ∀ (more seen : List (κ × ℕ)) (spans : Dict κ Span), Spanning seen spans → Spanning (seen ++ more) (more.foldl note spans) := by
    intro more
    induction more with
    | nil =>
      intro seen spans h
      simpa using h
    | cons occurrence more ih =>
      intro seen spans h
      have hnext := ih (seen ++ [occurrence]) _ (spanning_note h occurrence)
      simpa using hnext
  have hempty : Spanning ([] : List (κ × ℕ)) Table.empty := ⟨fun k s hs => by simp [Table.lookup, Table.get?, Table.empty] at hs, fun k i hi => by simp at hi⟩
  simpa [spansOf] using hrun occurrences [] Table.empty hempty

theorem spansOf_closed_iff (occurrences : List (κ × ℕ)) (b : ℕ) :
    Closed ((spansOf occurrences).rows.map Prod.snd) b ↔ ∀ k i j, (k, i) ∈ occurrences → (k, j) ∈ occurrences → ¬ (i < b ∧ b ≤ j) := by
  obtain ⟨hin, hall⟩ := spanning_spansOf occurrences
  constructor
  · intro hc k i j hi hj hij
    obtain ⟨s, hs, h1, h2⟩ := hall k i hi
    obtain ⟨t, ht, h3, h4⟩ := hall k j hj
    rw [hs, Option.some.injEq] at ht
    subst ht
    have hrow : s ∈ (spansOf occurrences).rows.map Prod.snd := by
      obtain ⟨r, hr, rfl⟩ := Option.map_eq_some_iff.mp hs
      exact List.mem_map.mpr ⟨r, Table.get?_mem hr, rfl⟩
    exact hc s hrow ⟨by omega, by omega⟩
  · intro h s hs hst
    obtain ⟨⟨k, t⟩, hr, rfl⟩ := List.mem_map.mp hs
    have hl : (spansOf occurrences).lookup k = some t := by
      have := Table.get?_of_mem hr
      simp [Table.lookup, this]
    obtain ⟨h1, h2⟩ := hin k t hl
    exact h k t.first t.last h1 h2 hst

theorem spansOf_last {occurrences : List (κ × ℕ)} {size : ℕ} (h : ∀ o ∈ occurrences, o.2 < size) :
    ∀ s ∈ (spansOf occurrences).rows.map Prod.snd, s.last < size := by
  intro s hs
  obtain ⟨⟨k, t⟩, hr, rfl⟩ := List.mem_map.mp hs
  have hl : (spansOf occurrences).lookup k = some t := by
    have := Table.get?_of_mem hr
    simp [Table.lookup, this]
  exact h _ ((spanning_spansOf occurrences).1 k t hl).2

end Keys

end Span

end TokenProxy.Lib
