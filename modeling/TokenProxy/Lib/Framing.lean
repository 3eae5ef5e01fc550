import Mathlib.Data.List.Induction
import Mathlib.Tactic.Tauto

/-!
# Framed streams

Streams whose events open a block, extend it or close it. In a framed stream a block is opened at
most once, and is extended and closed only between its opening and its closing; if every opened
block is closed too, it is closed exactly once.
-/

namespace TokenProxy.Lib

universe u

variable {κ : Type u}

/-- What an event does to the block `k`. -/
inductive Mark (κ : Type u) where
  | opens (k : κ)
  | within (k : κ)
  | closes (k : κ)
  deriving DecidableEq

namespace Mark

def Live (ms : List (Mark κ)) (k : κ) : Prop := opens k ∈ ms ∧ closes k ∉ ms

/-- What may follow the marks `ms`. -/
def Allowed (ms : List (Mark κ)) : Mark κ → Prop
  | opens k => opens k ∉ ms ∧ closes k ∉ ms
  | within k => Live ms k
  | closes k => Live ms k

def Framed (ms : List (Mark κ)) : Prop := ∀ before m after, ms = before ++ m :: after → Allowed before m

def opened (ms : List (Mark κ)) : List κ :=
  ms.filterMap fun m => match m with
    | opens k => some k
    | _ => none

variable {ms : List (Mark κ)} {m : Mark κ} {k j : κ}

theorem framed_nil : Framed ([] : List (Mark κ)) := by
  intro before m after h
  simp at h

theorem framed_snoc : Framed (ms ++ [m]) ↔ Framed ms ∧ Allowed ms m := by
  constructor
  · intro h
    refine ⟨fun before x after hms => h before x (after ++ [m]) (by simp [hms]), h ms m [] rfl⟩
  · rintro ⟨hf, hm⟩ before x after h
    cases after using List.reverseRecOn with
    | nil =>
      obtain ⟨rfl, hx⟩ := List.append_inj' h rfl
      obtain rfl : m = x := by simpa using hx
      exact hm
    | append_singleton after y =>
      rw [← List.cons_append, ← List.append_assoc] at h
      exact hf before x after (List.append_inj' h rfl).1

theorem mem_opened : k ∈ opened ms ↔ opens k ∈ ms := by
  simp only [opened, List.mem_filterMap]
  constructor
  · rintro ⟨m, hm, h⟩
    cases m <;> simp_all
  · exact fun h => ⟨_, h, rfl⟩

@[simp] theorem opened_nil : opened ([] : List (Mark κ)) = [] := rfl

@[simp] theorem opened_opens : opened (ms ++ [opens k]) = opened ms ++ [k] := by simp [opened]

@[simp] theorem opened_within : opened (ms ++ [within k]) = opened ms := by simp [opened]

@[simp] theorem opened_closes : opened (ms ++ [closes k]) = opened ms := by simp [opened]

@[simp] theorem not_live_nil : ¬ Live [] k := by simp [Live]

theorem live_opens (h : closes k ∉ ms) : Live (ms ++ [opens k]) j ↔ Live ms j ∨ j = k := by
  by_cases hj : j = k
  · subst hj
    simp [Live, h]
  · simp [Live, hj]

@[simp] theorem live_within : Live (ms ++ [within k]) j ↔ Live ms j := by simp [Live]

@[simp] theorem live_closes : Live (ms ++ [closes k]) j ↔ Live ms j ∧ j ≠ k := by
  simp only [Live, List.mem_append, List.mem_singleton, reduceCtorEq, or_false, closes.injEq]
  tauto

theorem Framed.opens_of_closes (h : Framed ms) (hc : closes k ∈ ms) : opens k ∈ ms := by
  obtain ⟨before, after, rfl⟩ := List.append_of_mem hc
  have hlive : Live before k := h before _ after rfl
  exact List.mem_append_left _ hlive.1

theorem Framed.count_closes [DecidableEq κ] (h : Framed ms) (k : κ) : ms.count (closes k) ≤ 1 := by
  induction ms using List.reverseRecOn with
  | nil => simp
  | append_singleton ms m ih =>
    obtain ⟨hf, hm⟩ := framed_snoc.1 h
    rw [List.count_append]
    by_cases hk : m = closes k
    · subst hk
      have hnone : ms.count (closes k) = 0 := List.count_eq_zero.2 hm.2
      simp [hnone]
    · simpa [List.count_singleton, hk] using ih hf

theorem Framed.count_closes_eq_one [DecidableEq κ] (h : Framed ms) (ho : opens k ∈ ms)
    (hl : ¬ Live ms k) :
    ms.count (closes k) = 1 := by
  have hc : closes k ∈ ms := by
    by_contra hc
    exact hl ⟨ho, hc⟩
  exact Nat.le_antisymm (h.count_closes k) (List.count_pos_iff.2 hc)

end Mark

end TokenProxy.Lib
