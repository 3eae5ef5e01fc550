import Mathlib.Algebra.Order.Floor.Ring
import Mathlib.Data.Int.Log
import Mathlib.Data.Rat.Floor
import Mathlib.Tactic.FieldSimp
import Mathlib.Tactic.Linarith
import Mathlib.Tactic.Positivity

/-!
# Numbers of double precision

What becomes of a positive number when it is stored with 53 binary digits. The numbers that occur
are far from the limits of the exponent, which has none here.
-/

namespace TokenProxy.Lib

def roundEven (x : ℚ) : ℤ :=
  let n := ⌊x⌋
  if 1 / 2 < x - n ∨ (x - n = 1 / 2 ∧ n % 2 = 1) then n + 1 else n

def toDouble (x : ℚ) : ℚ :=
  let unit := (2 : ℚ) ^ (Int.log 2 x - 52)
  roundEven (x / unit) * unit

theorem abs_roundEven_sub_le (x : ℚ) : |(roundEven x : ℚ) - x| ≤ 1 / 2 := by
  have hle := Int.floor_le x
  have hlt := Int.lt_floor_add_one x
  unfold roundEven
  dsimp only
  rw [abs_le]
  split
  · rename_i h
    have hhalf : 1 / 2 ≤ x - ⌊x⌋ := h.elim le_of_lt fun h => h.1.ge
    push_cast
    constructor <;> linarith
  · rename_i h
    rw [not_or, not_lt] at h
    constructor <;> linarith [h.1]

theorem abs_toDouble_sub_le {x : ℚ} (hx : 0 ≤ x) : |toDouble x - x| ≤ x / 2 ^ 53 := by
  rcases hx.eq_or_lt with rfl | hpos
  · simp [toDouble, roundEven]
  have hlog : (2 : ℚ) ^ Int.log 2 x ≤ x := by exact_mod_cast Int.zpow_log_le_self (by norm_num) hpos
  unfold toDouble
  dsimp only
  generalize hunit : (2 : ℚ) ^ (Int.log 2 x - 52) = unit
  have hunitpos : 0 < unit := hunit ▸ zpow_pos two_pos _
  have hsmall : unit * 2 ^ 52 ≤ x := by
    rw [← hunit, zpow_sub₀ (by norm_num)]
    have : (2 : ℚ) ^ (52 : ℤ) = 2 ^ 52 := by norm_cast
    rw [this, div_mul_cancel₀ _ (pow_ne_zero 52 two_ne_zero)]
    exact hlog
  have hround := abs_roundEven_sub_le (x / unit)
  have hscale : (roundEven (x / unit) : ℚ) * unit - x = (roundEven (x / unit) - x / unit) * unit := by
    field_simp
  rw [hscale, abs_mul, abs_of_pos hunitpos]
  calc |(roundEven (x / unit) : ℚ) - x / unit| * unit ≤ 1 / 2 * unit := by gcongr
    _ ≤ x / 2 ^ 53 := by
      rw [le_div_iff₀ (by positivity)]
      linarith

theorem toDouble_le {x : ℚ} (hx : 0 ≤ x) : toDouble x ≤ x + x / 2 ^ 53 := by
  linarith [(abs_le.1 (abs_toDouble_sub_le hx)).2]

theorem le_toDouble {x : ℚ} (hx : 0 ≤ x) : x - x / 2 ^ 53 ≤ toDouble x := by
  linarith [(abs_le.1 (abs_toDouble_sub_le hx)).1]

/-- A product with a fraction, `Math.floor(n * fraction)`. -/
def floorTimes (n : ℕ) (fraction : ℚ) : ℕ := ⌊toDouble (n * toDouble fraction)⌋₊

/-- A fraction that no double equals falls short: `Math.floor(90 * 0.7)` is 62. -/
example : floorTimes 90 (7 / 10) = 62 := by decide +kernel

end TokenProxy.Lib
