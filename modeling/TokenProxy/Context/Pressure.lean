import Mathlib.Tactic.FieldSimp
import Mathlib.Tactic.Linarith
import Mathlib.Tactic.NormNum
import TokenProxy.Context.Budget

/-!
# When pruning relieves the pressure

The characters that fit a budget are a number of their own (`charsThatFit`). A prune by the deficit
brings every request down to them exactly if the target, in characters, lies below the next one.
-/

namespace TokenProxy.Context

open Lib (Json JsonItems JsonFields)

/-- What the pressure of any body promises: the target is within the budget and the budget within
the window, and a body with so many characters less is not over budget. -/
def Relieves (contextWindow : Option ℚ) (settings : Settings) (calibration : Option ℚ) : Prop :=
  ∀ body : Json,
    let p := measureContextPressure body contextWindow settings calibration
    p.target ≤ p.budget ∧ p.budget ≤ p.limit ∧
      (p.isOver = true → ∀ later : Json, (requestChars later : ℤ) + p.deficitChars ≤ requestChars body →
        (measureContextPressure later contextWindow settings calibration).isOver = false)

def charsThatFit (budget : ℤ) (cal : ℚ) : ℤ := ⌊charsPerToken * (⌊(budget : ℚ) / cal⌋ : ℤ)⌋

/-- The window has at least two tokens, and the target, in characters, is less than the first number
of them that does not fit. -/
def Covered (contextWindow : Option ℚ) (settings : Settings) (calibration : Option ℚ) : Prop :=
  let b := resolveContextBudget contextWindow settings
  let cal := calibrationFactor calibration
  2 ≤ b.limit ∧ charsPerToken * b.target / cal < charsThatFit b.budget cal + 1

/-! ### The budget -/

variable (contextWindow : Option ℚ) (settings : Settings) (calibration : Option ℚ)

theorem fraction_nonneg (value : Option ℚ) {fallback : ℚ}
    (h : 0 ≤ fallback) : 0 ≤ fraction value fallback := by
  unfold fraction
  cases value with
  | none => exact h
  | some n =>
    by_cases hn : 0 ≤ n ∧ n < 1 / 2
    · rw [Option.filter_some, if_pos (by simpa using hn)]
      exact hn.1
    · rw [Option.filter_some, if_neg (by simpa using hn)]
      exact h

theorem budget_nonneg : 0 ≤ (resolveContextBudget contextWindow settings).budget :=
  (Int.natCast_nonneg _).trans (le_max_left _ _)

theorem budget_le_limit : (resolveContextBudget contextWindow settings).budget ≤ (resolveContextBudget contextWindow settings).limit := by
  refine max_le ?_ ?_
  · exact_mod_cast Nat.div_le_self _ _
  · have := Int.natCast_nonneg (resolveContextBudget contextWindow settings).reserve
    show ((resolveContextBudget contextWindow settings).limit : ℤ) - (resolveContextBudget contextWindow settings).reserve ≤ _
    omega

theorem one_le_target : 1 ≤ (resolveContextBudget contextWindow settings).target := le_max_left _ _

theorem one_le_budget_iff : 1 ≤ (resolveContextBudget contextWindow settings).budget ↔ 2 ≤ (resolveContextBudget contextWindow settings).limit := by
  have hreserve : minReserveTokens ≤ (resolveContextBudget contextWindow settings).reserve := le_max_left _ _
  have hbudget : (resolveContextBudget contextWindow settings).budget =
      max (((resolveContextBudget contextWindow settings).limit / 2 : ℕ) : ℤ)
        ((resolveContextBudget contextWindow settings).limit - (resolveContextBudget contextWindow settings).reserve) := rfl
  rw [hbudget]
  unfold minReserveTokens at hreserve
  omega

theorem floor_relieved_le :
    ⌊((resolveContextBudget contextWindow settings).budget : ℚ) *
      (1 - fraction settings.memoryContextReliefFraction defaultReliefFraction)⌋ ≤ (resolveContextBudget contextWindow settings).budget := by
  have hrelief := fraction_nonneg settings.memoryContextReliefFraction (show (0 : ℚ) ≤ defaultReliefFraction by norm_num [defaultReliefFraction])
  have hbudget : (0 : ℚ) ≤ (resolveContextBudget contextWindow settings).budget := by exact_mod_cast budget_nonneg contextWindow settings
  have hle : ((resolveContextBudget contextWindow settings).budget : ℚ) *
      (1 - fraction settings.memoryContextReliefFraction defaultReliefFraction) ≤ (resolveContextBudget contextWindow settings).budget :=
    mul_le_of_le_one_right hbudget (by linarith)
  exact Int.floor_le_iff.2 (hle.trans_lt (lt_add_one _))

theorem target_le_budget_iff :
    (resolveContextBudget contextWindow settings).target ≤ (resolveContextBudget contextWindow settings).budget ↔
      2 ≤ (resolveContextBudget contextWindow settings).limit := by
  rw [← one_le_budget_iff]
  constructor
  · exact (one_le_target contextWindow settings).trans
  · intro hone
    exact max_le hone (floor_relieved_le contextWindow settings)

theorem calibrationFactor_pos : 0 < calibrationFactor calibration := by
  unfold calibrationFactor
  cases calibration with
  | none => exact one_pos
  | some n =>
    simp only
    split
    · exact lt_min (by norm_num) (lt_max_of_lt_left (by norm_num))
    · exact one_pos

/-! ### Characters and tokens -/

theorem charsPerToken_pos : 0 < charsPerToken := by norm_num [charsPerToken]

theorem over_eq_false_iff (body : Json) :
    (measureContextPressure body contextWindow settings calibration).isOver = false ↔
      (requestChars body : ℤ) ≤
        charsThatFit (resolveContextBudget contextWindow settings).budget (calibrationFactor calibration) := by
  have hcal := calibrationFactor_pos calibration
  have hover : (measureContextPressure body contextWindow settings calibration).isOver =
      decide ((resolveContextBudget contextWindow settings).budget < ⌈(estimateRequestTokens body : ℚ) * calibrationFactor calibration⌉) := rfl
  rw [hover, decide_eq_false_iff_not, not_lt, Int.ceil_le, ← le_div_iff₀ hcal, charsThatFit, Int.le_floor]
  have hfloor : (estimateRequestTokens body : ℚ) ≤ (resolveContextBudget contextWindow settings).budget / calibrationFactor calibration ↔
      ((estimateRequestTokens body : ℕ) : ℤ) ≤ ⌊((resolveContextBudget contextWindow settings).budget : ℚ) / calibrationFactor calibration⌋ := by
    rw [Int.le_floor]
    push_cast
    rfl
  have hnonneg : 0 ≤ ⌊((resolveContextBudget contextWindow settings).budget : ℚ) / calibrationFactor calibration⌋ := by
    refine Int.floor_nonneg.2 (div_nonneg ?_ hcal.le)
    exact_mod_cast budget_nonneg contextWindow settings
  obtain ⟨n, hn⟩ := Int.eq_ofNat_of_zero_le hnonneg
  rw [hfloor, hn]
  push_cast
  rw [Nat.cast_le, estimateRequestTokens, Nat.ceil_le, div_le_iff₀ charsPerToken_pos, mul_comm]

theorem le_deficitChars {body : Json} (hover : (measureContextPressure body contextWindow settings calibration).isOver = true) :
    (requestChars body : ℚ) - charsPerToken * (resolveContextBudget contextWindow settings).target / calibrationFactor calibration ≤
      (measureContextPressure body contextWindow settings calibration).deficitChars := by
  have hcal := calibrationFactor_pos calibration
  have hdeficit : (measureContextPressure body contextWindow settings calibration).deficitChars =
      ⌈((if (measureContextPressure body contextWindow settings calibration).isOver then
          ⌈(estimateRequestTokens body : ℚ) * calibrationFactor calibration⌉ - (resolveContextBudget contextWindow settings).target
        else 0 : ℤ) : ℚ) * (charsPerToken / calibrationFactor calibration)⌉ := rfl
  rw [hdeficit, if_pos hover]
  refine le_trans ?_ (Int.le_ceil _)
  have htokens : (requestChars body : ℚ) / charsPerToken ≤ estimateRequestTokens body := Nat.le_ceil _
  have hprojected : (estimateRequestTokens body : ℚ) * calibrationFactor calibration ≤
      (⌈(estimateRequestTokens body : ℚ) * calibrationFactor calibration⌉ : ℤ) := Int.le_ceil _
  have hrate : 0 < charsPerToken / calibrationFactor calibration := div_pos charsPerToken_pos hcal
  have hchars : (requestChars body : ℚ) ≤
      (⌈(estimateRequestTokens body : ℚ) * calibrationFactor calibration⌉ : ℤ) * (charsPerToken / calibrationFactor calibration) := by
    calc (requestChars body : ℚ) = (requestChars body : ℚ) / charsPerToken * calibrationFactor calibration *
          (charsPerToken / calibrationFactor calibration) := by
            have := charsPerToken_pos.ne'
            have := hcal.ne'
            field_simp
      _ ≤ (estimateRequestTokens body : ℚ) * calibrationFactor calibration * (charsPerToken / calibrationFactor calibration) :=
            mul_le_mul_of_nonneg_right (mul_le_mul_of_nonneg_right htokens hcal.le) hrate.le
      _ ≤ _ := mul_le_mul_of_nonneg_right hprojected hrate.le
  push_cast
  have hsplit : ∀ x : ℚ, (x - (resolveContextBudget contextWindow settings).target) * (charsPerToken / calibrationFactor calibration) =
      x * (charsPerToken / calibrationFactor calibration) -
        charsPerToken * (resolveContextBudget contextWindow settings).target / calibrationFactor calibration := by
    intro x
    ring
  rw [hsplit]
  linarith

theorem relieves_of_covered (h : Covered contextWindow settings calibration) :
    Relieves contextWindow settings calibration := by
  obtain ⟨hlimit, hcovered⟩ := h
  intro body
  refine ⟨(target_le_budget_iff contextWindow settings).2 hlimit, budget_le_limit contextWindow settings, fun hover later hlater => ?_⟩
  rw [over_eq_false_iff]
  have hdeficit := le_deficitChars contextWindow settings calibration hover
  have hlaterQ : (requestChars later : ℚ) + (measureContextPressure body contextWindow settings calibration).deficitChars ≤ requestChars body := by
    exact_mod_cast hlater
  have hlt : (requestChars later : ℚ) <
      charsThatFit (resolveContextBudget contextWindow settings).budget (calibrationFactor calibration) + 1 := by linarith
  have hltZ : (requestChars later : ℤ) <
      charsThatFit (resolveContextBudget contextWindow settings).budget (calibrationFactor calibration) + 1 := by exact_mod_cast hlt
  omega

/-! ### Bodies of any length -/

/-- A body that holds one text of `n` characters. -/
def textBody (n : ℕ) : Json :=
  .object (.cons "messages" (.array (.cons (.string (String.ofList (List.replicate n 'x'))) .nil)) .nil)

theorem requestChars_textBody (n : ℕ) : requestChars (textBody n) = n := by
  have hlength : Capacity.jsLength (String.ofList (List.replicate n 'x')) = n := by
    simp [Capacity.jsLength]
  have hconversation : conversationOf (textBody n) =
      some (.array (.cons (.string (String.ofList (List.replicate n 'x'))) .nil)) := rfl
  have hnone : ∀ key, key ≠ "messages" → (textBody n).field key = none := by
    intro key hkey
    show (if "messages" = key then _ else _) = _
    rw [if_neg hkey.symm]
    rfl
  unfold requestChars
  rw [hconversation, hnone "system" (by decide), hnone "instructions" (by decide), hnone "tools" (by decide),
    hnone "systemInstruction" (by decide)]
  simp [charsOf, estimateChars, itemChars, hlength]

/-- Among the bodies whose characters come out even in tokens, the deficit leaves as many
characters as the target has. -/
theorem covered_of_relieves (h : Relieves contextWindow settings calibration) :
    Covered contextWindow settings calibration := by
  have hcal := calibrationFactor_pos calibration
  have hlimit := (target_le_budget_iff contextWindow settings).1 (h (.null)).1
  refine ⟨hlimit, ?_⟩
  set cal := calibrationFactor calibration with hcaldef
  set b := resolveContextBudget contextWindow settings with hb
  set fit := charsThatFit b.budget cal with hfit
  have htarget : (1 : ℚ) ≤ b.target := by exact_mod_cast one_le_target contextWindow settings
  have hpositive : 0 ≤ charsPerToken * b.target / cal := by
    have := charsPerToken_pos
    positivity
  -- A body that does not fit, with a whole number of calibrated tokens.
  obtain ⟨m, hm⟩ : ∃ m : ℕ, fit < (m : ℤ) := ⟨fit.toNat + 1, by omega⟩
  set n := 16 * cal.den * m with hn
  have hchars : requestChars (textBody n) = n := requestChars_textBody n
  have hover : (measureContextPressure (textBody n) contextWindow settings calibration).isOver = true := by
    rw [← Bool.not_eq_false, over_eq_false_iff, hchars, ← hb, ← hcaldef, ← hfit]
    have hden := cal.den_pos
    have : m ≤ n := by
      rw [hn]
      exact Nat.le_mul_of_pos_left _ (by omega)
    omega
  have htokens : estimateRequestTokens (textBody n) = 5 * cal.den * m := by
    unfold estimateRequestTokens
    rw [hchars, hn]
    have : ((16 * cal.den * m : ℕ) : ℚ) / charsPerToken = ((5 * cal.den * m : ℕ) : ℚ) := by
      unfold charsPerToken
      push_cast
      ring
    rw [this, Nat.ceil_natCast]
  have hprojected : (estimateRequestTokens (textBody n) : ℚ) * cal = ((5 * cal.num * m : ℤ) : ℚ) := by
    rw [htokens]
    have hnum : (cal.den : ℚ) * cal = cal.num := by rw [mul_comm, Rat.mul_den_eq_num]
    push_cast
    rw [← hnum]
    ring
  have hdeficit : (measureContextPressure (textBody n) contextWindow settings calibration).deficitChars =
      n - ⌊charsPerToken * b.target / cal⌋ := by
    have hunfold : (measureContextPressure (textBody n) contextWindow settings calibration).deficitChars =
        ⌈((if (measureContextPressure (textBody n) contextWindow settings calibration).isOver then
            ⌈(estimateRequestTokens (textBody n) : ℚ) * cal⌉ - b.target else 0 : ℤ) : ℚ) * (charsPerToken / cal)⌉ := rfl
    rw [hunfold, if_pos hover, hprojected, Int.ceil_intCast]
    have hexact : ((5 * cal.num * m - b.target : ℤ) : ℚ) * (charsPerToken / cal) = ((n : ℤ) : ℚ) + -(charsPerToken * b.target / cal) := by
      have hnum : (cal.num : ℚ) = cal * cal.den := (Rat.mul_den_eq_num cal).symm
      push_cast
      rw [hnum, hn]
      unfold charsPerToken
      have := hcal.ne'
      push_cast
      field_simp
      ring
    rw [hexact, Int.ceil_intCast_add, Int.ceil_neg]
    ring
  have hrelieved := (h (textBody n)).2.2 hover (textBody ⌊charsPerToken * b.target / cal⌋.toNat) (by
    rw [hdeficit, hchars, requestChars_textBody, Int.toNat_of_nonneg (Int.floor_nonneg.2 hpositive)]
    omega)
  rw [over_eq_false_iff, requestChars_textBody, Int.toNat_of_nonneg (Int.floor_nonneg.2 hpositive)] at hrelieved
  have := Int.lt_floor_add_one (charsPerToken * b.target / cal)
  have hcast : ((⌊charsPerToken * b.target / cal⌋ : ℤ) : ℚ) ≤ fit := by exact_mod_cast hrelieved
  linarith

/-- **Context pressure.** The pressure of every body is relieved by its deficit if and
only if the target is covered. -/
theorem contextPressure_iff : Relieves contextWindow settings calibration ↔ Covered contextWindow settings calibration :=
  ⟨covered_of_relieves contextWindow settings calibration, relieves_of_covered contextWindow settings calibration⟩

/-- An operator asks for no relief below the trigger, and the provider counts three
times the estimate: a request of 202672 characters is over budget, and still is without
the 6 characters of its deficit. -/
theorem noRelief_staysOver :
    ¬ ∀ contextWindow settings calibration, Relieves contextWindow settings calibration := by
  intro h
  have hcovered := covered_of_relieves _ _ _ (h (some 200000) { memoryContextReliefFraction := some 0 } (some 3))
  have hfloor : ⌊(200000 : ℚ)⌋₊ = 200000 := by norm_num
  have hbudget : resolveContextBudget (some 200000) { memoryContextReliefFraction := some 0 } =
      { limit := 200000, reserve := 10000, budget := 190000, target := 190000 } := by decide +kernel
  have hcal : calibrationFactor (some 3) = 3 := by decide +kernel
  unfold Covered at hcovered
  rw [hbudget, hcal] at hcovered
  have hfit : charsThatFit 190000 3 = 202665 := by decide +kernel
  simp only [hfit] at hcovered
  norm_num [charsPerToken] at hcovered

end TokenProxy.Context
