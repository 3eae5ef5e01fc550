import Mathlib.Algebra.Order.Group.Nat
import Mathlib.Algebra.Order.Ring.Nat
import Mathlib.Data.Nat.Basic

/-!
# Blocks of addresses

The addresses of a block are the numbers of `width` bits whose first `bits` bits are those of its
base. A mask compares just these (`and_mask_eq_iff`), and a block of a wide number is a block of its
upper or of its lower half.
-/

namespace TokenProxy.Lib

def InPrefix (width base bits v : ℕ) : Prop := v / 2 ^ (width - bits) = base / 2 ^ (width - bits)

instance (width base bits v : ℕ) : Decidable (InPrefix width base bits v) := inferInstanceAs (Decidable (_ = _))

theorem and_mask {w : ℕ} (x : BitVec w) (k : ℕ) :
    x &&& (BitVec.allOnes w <<< k) = (x >>> k) <<< k := by
  ext i hi
  simp only [BitVec.getElem_and, BitVec.getElem_shiftLeft, BitVec.getElem_allOnes]
  by_cases h : i < k
  · simp [h]
  · have : k + (i - k) = i := by omega
    simp [h, this, BitVec.getLsbD_eq_getElem hi]

theorem shiftLeft_ushiftRight_cancel {w : ℕ} (x : BitVec w)
    (k : ℕ) : ((x >>> k) <<< k) >>> k = x >>> k := by
  ext i hi
  simp only [BitVec.getElem_ushiftRight, BitVec.getLsbD_shiftLeft, BitVec.getLsbD_ushiftRight]
  by_cases h : k + i < w
  · simp [h]
  · simp [h, BitVec.getLsbD_of_ge x (k + i) (by omega)]

theorem and_mask_eq_iff {w : ℕ} (x y : BitVec w) (k : ℕ) :
    x &&& (BitVec.allOnes w <<< k) = y &&& (BitVec.allOnes w <<< k) ↔ x.toNat / 2 ^ k = y.toNat / 2 ^ k := by
  rw [and_mask, and_mask]
  constructor
  · intro h
    have h := congrArg (fun z : BitVec w => (z >>> k).toNat) h
    simpa only [shiftLeft_ushiftRight_cancel, BitVec.toNat_ushiftRight, Nat.shiftRight_eq_div_pow] using h
  · intro h
    have h : x >>> k = y >>> k := BitVec.eq_of_toNat_eq (by simpa only [BitVec.toNat_ushiftRight, Nat.shiftRight_eq_div_pow] using h)
    rw [h]

theorem InPrefix.lt {width base bits v : ℕ} (hb : base < 2 ^ width)
    (h : InPrefix width base bits v) : v < 2 ^ width := by
  unfold InPrefix at h
  have hp : 2 ^ width = 2 ^ (width - (width - bits)) * 2 ^ (width - bits) := by
    rw [← Nat.pow_add]
    congr 1
    omega
  rw [hp] at hb ⊢
  rw [← Nat.div_lt_iff_lt_mul (Nat.two_pow_pos _), h]
  exact (Nat.div_lt_iff_lt_mul (Nat.two_pow_pos _)).mpr hb

theorem inPrefix_high {m n bits base high low : ℕ} (hb : bits ≤ m) (hl : low < 2 ^ n) :
    InPrefix (m + n) (base * 2 ^ n) bits (high * 2 ^ n + low) ↔ InPrefix m base bits high := by
  unfold InPrefix
  have hp : 2 ^ (m + n - bits) = 2 ^ n * 2 ^ (m - bits) := by
    rw [← Nat.pow_add]
    congr 1
    omega
  have hh : (high * 2 ^ n + low) / 2 ^ n = high := by
    rw [Nat.add_comm, Nat.add_mul_div_right _ _ (Nat.two_pow_pos n), Nat.div_eq_of_lt hl, Nat.zero_add]
  rw [hp, ← Nat.div_div_eq_div_mul, ← Nat.div_div_eq_div_mul, hh, Nat.mul_div_cancel _ (Nat.two_pow_pos n)]

theorem inPrefix_low {m n bits upper base high low : ℕ} (hb : bits ≤ n) (hl : low < 2 ^ n)
    (hbase : base < 2 ^ n) :
    InPrefix (m + n) (upper * 2 ^ n + base) (m + bits) (high * 2 ^ n + low) ↔ high = upper ∧ InPrefix n base bits low := by
  unfold InPrefix
  have hk : m + n - (m + bits) = n - bits := by omega
  have hp : 2 ^ n = 2 ^ bits * 2 ^ (n - bits) := by
    rw [← Nat.pow_add]
    congr 1
    omega
  have hpos := Nat.two_pow_pos (n - bits)
  have hdiv : ∀ x y : ℕ, (x * 2 ^ n + y) / 2 ^ (n - bits) = x * 2 ^ bits + y / 2 ^ (n - bits) := by
    intro x y
    rw [hp, ← Nat.mul_assoc, Nat.add_comm, Nat.add_mul_div_right _ _ hpos, Nat.add_comm]
  have hsmall : ∀ y < 2 ^ n, y / 2 ^ (n - bits) < 2 ^ bits := by
    intro y hy
    rw [Nat.div_lt_iff_lt_mul hpos, ← hp]
    exact hy
  rw [hk, hdiv, hdiv]
  have h1 := hsmall low hl
  have h2 := hsmall base hbase
  constructor
  · intro h
    have hh : high = upper := by
      have hq := congrArg (· / 2 ^ bits) h
      simp only [Nat.add_comm (_ * 2 ^ bits), Nat.add_mul_div_right _ _ (Nat.two_pow_pos bits), Nat.div_eq_of_lt h1,
        Nat.div_eq_of_lt h2, Nat.zero_add] at hq
      exact hq
    subst hh
    exact ⟨rfl, by omega⟩
  · rintro ⟨rfl, h⟩
    rw [h]

end TokenProxy.Lib
