import Mathlib.Algebra.BigOperators.Group.List.Basic
import Mathlib.Algebra.Order.Group.Int
import Mathlib.Tactic.Ring
import Mathlib.Algebra.Ring.Divisibility.Basic

/-!
# Buckets of one width

Instants are put into buckets of one width, each named by its first instant. `steps` is the loop
that names the buckets of a stretch, and `deposit` puts something into the bucket of a name.

* `mem_steps`: the names that the loop reaches.
* `sum_deposits`: what the buckets hold together is what was put in.
-/

namespace TokenProxy.Lib.Buckets

/-- The loop from `start` to `stop`. -/
def steps (width : ℤ) (hwidth : 0 < width) (start stop : ℤ) : List ℤ :=
  if start ≤ stop then start :: steps width hwidth (start + width) stop else []
  termination_by (stop + 1 - start).toNat

def floorTo (width t : ℤ) : ℤ := t / width * width

theorem floorTo_spec {width : ℤ} (hwidth : 0 < width)
    (t : ℤ) : floorTo width t ≤ t ∧ t < floorTo width t + width := by
  have hdiv := Int.emod_add_mul_ediv t width
  have hnonneg := Int.emod_nonneg t hwidth.ne'
  have hlt := Int.emod_lt_of_pos t hwidth
  have hcomm : t / width * width = width * (t / width) := Int.mul_comm _ _
  unfold floorTo
  omega

theorem width_dvd_floorTo (width t : ℤ) : width ∣ floorTo width t := Dvd.intro_left _ rfl

theorem eq_of_dvd {width s s' : ℤ} (hdvd : width ∣ s - s') (hlt : s < s' + width)
    (hgt : s' < s + width) : s = s' := by
  have habs : |s - s'| < width := abs_lt.2 ⟨by omega, by omega⟩
  have := Int.eq_zero_of_abs_lt_dvd hdvd habs
  omega

theorem floorTo_unique {width s t : ℤ} (hwidth : 0 < width) (hdvd : width ∣ s) (hle : s ≤ t)
    (hlt : t < s + width) : s = floorTo width t := by
  obtain ⟨hle', hlt'⟩ := floorTo_spec hwidth t
  refine eq_of_dvd (dvd_sub hdvd (width_dvd_floorTo width t)) ?_ ?_ <;> omega

theorem floorTo_mono {width s t : ℤ} (hwidth : 0 < width)
    (h : s ≤ t) : floorTo width s ≤ floorTo width t :=
  Int.mul_le_mul_of_nonneg_right (Int.ediv_le_ediv hwidth h) hwidth.le

/-- **The names that the loop reaches.** -/
theorem mem_steps {width : ℤ} (hwidth : 0 < width) {start stop s : ℤ} :
    s ∈ steps width hwidth start stop ↔ start ≤ s ∧ s ≤ stop ∧ width ∣ s - start := by
  induction start using steps.induct width hwidth stop with
  | case1 start hle ih =>
    rw [steps, if_pos hle, List.mem_cons, ih]
    constructor
    · rintro (rfl | ⟨hstart, hstop, hdvd⟩)
      · exact ⟨le_rfl, hle, by simp⟩
      · refine ⟨by omega, hstop, ?_⟩
        have := dvd_add hdvd (dvd_refl width)
        rwa [show s - (start + width) + width = s - start by ring] at this
    · rintro ⟨hstart, hstop, hdvd⟩
      by_cases heq : s = start
      · exact .inl heq
      · refine .inr ⟨?_, hstop, ?_⟩
        · by_contra hlt
          exact heq (eq_of_dvd hdvd (by omega) (by omega))
        · have := dvd_sub hdvd (dvd_refl width)
          rwa [show s - start - width = s - (start + width) by ring] at this
  | case2 start hgt =>
    rw [steps, if_neg hgt]
    constructor
    · simp
    · rintro ⟨hstart, hstop, -⟩
      omega

theorem steps_nodup {width : ℤ} (hwidth : 0 < width)
    (start stop : ℤ) : (steps width hwidth start stop).Nodup := by
  induction start using steps.induct width hwidth stop with
  | case1 start hle ih =>
    rw [steps, if_pos hle, List.nodup_cons, mem_steps]
    refine ⟨?_, ih⟩
    rintro ⟨hlt, -, -⟩
    omega
  | case2 start hgt =>
    rw [steps, if_neg hgt]
    exact List.nodup_nil

section Deposits

variable {κ β α M : Type*} [DecidableEq κ] [AddCommMonoid M]

def deposit (key : κ) (change : β → β) (buckets : List (κ × β)) : List (κ × β) :=
  buckets.map fun bucket => if bucket.1 = key then (bucket.1, change bucket.2) else bucket

@[simp] theorem keys_deposit (key : κ) (change : β → β) (buckets : List (κ × β)) :
    (deposit key change buckets).map Prod.fst = buckets.map Prod.fst := by
  rw [deposit, List.map_map]
  refine List.map_congr_left fun bucket _ => ?_
  simp only [Function.comp_apply]
  split <;> rfl

theorem deposit_of_notMem {key : κ} {buckets : List (κ × β)} (h : key ∉ buckets.map Prod.fst)
    (change : β → β) :
    deposit key change buckets = buckets := by
  conv_rhs => rw [← List.map_id buckets]
  refine List.map_congr_left fun bucket hbucket => if_neg ?_
  rintro rfl
  exact h (List.mem_map_of_mem hbucket)

def total (measure : β → M) (buckets : List (κ × β)) : M := (buckets.map fun bucket => measure bucket.2).sum

theorem total_deposit {key : κ} {buckets : List (κ × β)} (hnodup : (buckets.map Prod.fst).Nodup)
    (hmem : key ∈ buckets.map Prod.fst)
    {change : β → β} {measure : β → M} {amount : M} (hchange : ∀ b, measure (change b) = measure b + amount) :
    total measure (deposit key change buckets) = total measure buckets + amount := by
  induction buckets with
  | nil => simp at hmem
  | cons bucket buckets ih =>
    rw [List.map_cons, List.nodup_cons] at hnodup
    by_cases hkey : bucket.1 = key
    · have hrest := deposit_of_notMem (hkey ▸ hnodup.1) change
      rw [deposit] at hrest
      simp only [total, deposit, List.map_cons, hkey, if_true, List.sum_cons, hchange]
      rw [hrest]
      exact add_right_comm _ _ _
    · have hrest := ih hnodup.2 (by simpa [Ne.symm hkey] using hmem)
      rw [deposit] at hrest
      simp only [total, deposit, List.map_cons, hkey, if_false, List.sum_cons, add_assoc] at hrest ⊢
      rw [hrest]

/-- **What the buckets hold together is what was put in.** -/
theorem total_deposits {keyOf : α → κ} {change : α → β → β} {measure : β → M} {amount : α → M}
    (hchange : ∀ x b, measure (change x b) = measure b + amount x) {buckets : List (κ × β)} (hnodup : (buckets.map Prod.fst).Nodup)
    {xs : List α} (hxs : ∀ x ∈ xs, keyOf x ∈ buckets.map Prod.fst) :
    total measure (xs.foldl (fun buckets x => deposit (keyOf x) (change x) buckets) buckets) = total measure buckets + (xs.map amount).sum := by
  induction xs generalizing buckets with
  | nil => simp
  | cons x xs ih =>
    rw [List.foldl_cons, ih, total_deposit hnodup (hxs x List.mem_cons_self) (hchange x), List.map_cons, List.sum_cons, add_assoc]
    · rwa [keys_deposit]
    · intro y hy
      rw [keys_deposit]
      exact hxs y (List.mem_cons_of_mem x hy)

theorem keys_deposits (keyOf : α → κ) (change : α → β → β) (buckets : List (κ × β)) (xs : List α) :
    (xs.foldl (fun buckets x => deposit (keyOf x) (change x) buckets) buckets).map Prod.fst = buckets.map Prod.fst := by
  induction xs generalizing buckets with
  | nil => rfl
  | cons x xs ih => rw [List.foldl_cons, ih, keys_deposit]

theorem mem_deposits {keyOf : α → κ} {change : α → β → β} {buckets : List (κ × β)} {xs : List α}
    {key : κ} {b : β}
    (h : (key, b) ∈ xs.foldl (fun buckets x => deposit (keyOf x) (change x) buckets) buckets) :
    ∃ b₀, (key, b₀) ∈ buckets ∧ b = (xs.filter fun x => keyOf x = key).foldl (fun b x => change x b) b₀ := by
  induction xs generalizing buckets with
  | nil => exact ⟨b, h, rfl⟩
  | cons x xs ih =>
    obtain ⟨b₁, hb₁, hb⟩ := ih h
    obtain ⟨bucket, hbucket, heq⟩ := List.mem_map.1 hb₁
    by_cases hkey : bucket.1 = keyOf x
    · rw [if_pos hkey] at heq
      obtain ⟨rfl, rfl⟩ := Prod.mk.inj heq
      refine ⟨bucket.2, hbucket, ?_⟩
      rw [List.filter_cons_of_pos (by simpa using hkey.symm), List.foldl_cons]
      exact hb
    · rw [if_neg hkey] at heq
      subst heq
      refine ⟨b₁, hbucket, ?_⟩
      rw [List.filter_cons_of_neg (by simpa using Ne.symm hkey)]
      exact hb

end Deposits

end TokenProxy.Lib.Buckets
