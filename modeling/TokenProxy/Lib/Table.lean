import Mathlib.Algebra.BigOperators.Group.List.Basic
import Mathlib.Algebra.Order.BigOperators.Group.List
import Mathlib.Data.List.Nodup
import Mathlib.Tactic.Abel

/-!
# Keyed tables

A `Table key` is a list of rows no two of which have the same key: a database table with a unique
column, or an insertion-ordered map from keys to values (rows `(k, v)`, keyed by `Prod.fst`). The
uniqueness is a field of the structure, so no operation can break it.

Every operation is described by what it does to the lookup (`get?_put`, `get?_erase`) and to the sum
of a quantity over all rows (`total_put`, `total_erase`); later proofs use only these.
-/

namespace TokenProxy.Lib

universe u v w

variable {κ : Type u} {ρ : Type v}

structure Table (key : ρ → κ) where
  rows : List ρ
  nodup : (rows.map key).Nodup

abbrev Dict (κ : Type u) (ν : Type v) := Table (Prod.fst : κ × ν → κ)

namespace Table

variable {key : ρ → κ}

theorem ext_rows {s t : Table key} (h : s.rows = t.rows) : s = t := by
  cases s; cases t; simp only at h; subst h; rfl

instance [DecidableEq ρ] : DecidableEq (Table key) := fun s t =>
  decidable_of_iff (s.rows = t.rows) ⟨ext_rows, fun h => h ▸ rfl⟩

def empty : Table key := ⟨[], List.nodup_nil⟩

instance : Inhabited (Table key) := ⟨empty⟩

def total {M : Type w} [AddCommMonoid M] (t : Table key) (g : ρ → M) : M := (t.rows.map g).sum

@[simp] theorem total_empty {M : Type w} [AddCommMonoid M]
    (g : ρ → M) : (empty : Table key).total g = 0 := rfl

theorem total_congr {M : Type w} [AddCommMonoid M] (t : Table key) {f g : ρ → M}
    (h : ∀ r ∈ t.rows, f r = g r) :
    t.total f = t.total g := by
  rw [total, total, List.map_congr_left h]

theorem total_eq_zero {M : Type w} [AddCommMonoid M] (t : Table key) {g : ρ → M}
    (h : ∀ r ∈ t.rows, g r = 0) :
    t.total g = 0 := by
  rw [t.total_congr h]
  simp [total]

theorem le_total {M : Type w} [AddCommMonoid M] [PartialOrder M] [IsOrderedAddMonoid M]
    {t : Table key} {g : ρ → M}
    (hg : ∀ r ∈ t.rows, 0 ≤ g r) {r : ρ} (hr : r ∈ t.rows) : g r ≤ t.total g := by
  refine List.single_le_sum (fun x hx => ?_) _ (List.mem_map_of_mem hr)
  obtain ⟨y, hy, rfl⟩ := List.mem_map.1 hx
  exact hg y hy

/-! ## Grouping -/

theorem sum_ite_eq {M : Type w} [AddCommMonoid M] {α : Type u} [DecidableEq α] {ks : List α}
    (hn : ks.Nodup)
    (a : α) (m : M) (h : m ≠ 0 → a ∈ ks) : (ks.map fun k => if a = k then m else 0).sum = m := by
  by_cases hm : m = 0
  · simp [hm]
  · have ha := h hm
    clear h
    induction ks with
    | nil => cases ha
    | cons k ks ih =>
      rw [List.nodup_cons] at hn
      rw [List.map_cons, List.sum_cons]
      by_cases hk : a = k
      · have hrest : (ks.map fun k => if a = k then m else 0) = ks.map fun _ => 0 :=
          List.map_congr_left fun k' hk' => if_neg fun he : a = k' => hn.1 (hk.symm.trans he ▸ hk')
        rw [if_pos hk, hrest]
        simp
      · rw [if_neg hk, zero_add]
        exact ih hn.2 ((List.mem_cons.1 ha).resolve_left hk)

/-- A sum over rows is the sum of its groups, whenever every row that
counts lies in a listed group. -/
theorem sum_total_group {M : Type w} [AddCommMonoid M] {α : Type u} [DecidableEq α] {ks : List α}
    (hn : ks.Nodup) (t : Table key) (f : ρ → α) (g : ρ → M) (h : ∀ r ∈ t.rows, g r ≠ 0 → f r ∈ ks) :
    (ks.map fun k => t.total fun r => if f r = k then g r else 0).sum = t.total g := by
  obtain ⟨l, hl⟩ := t
  simp only [total] at h ⊢
  clear hl
  induction l with
  | nil => simp
  | cons x l ih =>
    simp only [List.map_cons, List.sum_cons]
    rw [List.sum_map_add, ih fun r hr => h r (List.mem_cons_of_mem x hr),
      sum_ite_eq hn (f x) (g x) (h x List.mem_cons_self)]

/-! ## Keeping some rows -/

theorem nodup_filter {l : List ρ} (hn : (l.map key).Nodup)
    (p : ρ → Bool) : ((l.filter p).map key).Nodup :=
  (List.filter_sublist.map key).nodup hn

/-- Keep the rows that satisfy `p`. -/
def filter (t : Table key) (p : ρ → Bool) : Table key := ⟨t.rows.filter p, nodup_filter t.nodup p⟩

theorem mem_filter {t : Table key} {p : ρ → Bool}
    {r : ρ} : r ∈ (t.filter p).rows ↔ r ∈ t.rows ∧ p r = true :=
  List.mem_filter

/-! ## Looking a row up -/

variable [DecidableEq κ]

/-- The row with key `k`. -/
def get? (t : Table key) (k : κ) : Option ρ := t.rows.find? (fun r => decide (key r = k))

@[simp] theorem get?_empty (k : κ) : (empty : Table key).get? k = none := rfl

theorem get?_key {t : Table key} {k : κ} {r : ρ} (h : t.get? k = some r) : key r = k := by
  simpa using List.find?_some h

theorem get?_mem {t : Table key} {k : κ} {r : ρ} (h : t.get? k = some r) : r ∈ t.rows :=
  List.mem_of_find?_eq_some h

theorem get?_eq_none {t : Table key} {k : κ} : t.get? k = none ↔ ∀ r ∈ t.rows, key r ≠ k := by
  simp [get?, List.find?_eq_none]

theorem find?_of_nodup {l : List ρ} (hn : (l.map key).Nodup) {r : ρ} (hr : r ∈ l) :
    l.find? (fun x => decide (key x = key r)) = some r := by
  induction l with
  | nil => cases hr
  | cons x l ih =>
    rw [List.map_cons, List.nodup_cons] at hn
    rcases List.mem_cons.1 hr with rfl | hr
    · simp
    · have hne : key x ≠ key r := fun he => hn.1 (he ▸ List.mem_map_of_mem hr)
      rw [List.find?_cons_of_neg (by simpa using hne)]
      exact ih hn.2 hr

theorem get?_of_mem {t : Table key} {r : ρ} (h : r ∈ t.rows) : t.get? (key r) = some r :=
  find?_of_nodup t.nodup h

theorem mem_rows {t : Table key} {r : ρ} : r ∈ t.rows ↔ t.get? (key r) = some r :=
  ⟨get?_of_mem, get?_mem⟩

theorem eq_of_key {t : Table key} {r r' : ρ} (h : r ∈ t.rows) (h' : r' ∈ t.rows)
    (hk : key r = key r') :
    r = r' := by
  have := get?_of_mem h
  rw [hk, get?_of_mem h'] at this
  exact (Option.some.inj this).symm

theorem get?_congr {s t : Table key} (h : ∀ r, r ∈ s.rows ↔ r ∈ t.rows)
    (k : κ) : s.get? k = t.get? k := by
  cases hs : s.get? k with
  | none =>
    rw [get?_eq_none] at hs
    exact (get?_eq_none.mpr fun r hr => hs r ((h r).mpr hr)).symm
  | some r =>
    have hr := get?_of_mem ((h r).mp (get?_mem hs))
    rw [get?_key hs] at hr
    exact hr.symm

/-! ## Writing a row -/

theorem map_replace_key (l : List ρ) (r : ρ) :
    (l.map fun x => if key x = key r then r else x).map key = l.map key := by
  rw [List.map_map]
  refine List.map_congr_left fun x _ => ?_
  by_cases hx : key x = key r
  · simp [hx]
  · simp [hx]

theorem nodup_snoc {l : List ρ} {r : ρ} (hn : (l.map key).Nodup)
    (hr : l.find? (fun x => decide (key x = key r)) = none) : ((l ++ [r]).map key).Nodup := by
  rw [List.map_append, List.map_singleton]
  refine List.nodup_append.2 ⟨hn, List.nodup_singleton _, ?_⟩
  intro a ha b hb hab
  obtain ⟨x, hx, rfl⟩ := List.mem_map.1 ha
  rw [List.mem_singleton] at hb
  have := List.find?_eq_none.1 hr x hx
  simp [hab, hb] at this

/-- Write the row `r`: in the place of the row with its key, or behind all rows. -/
def put (t : Table key) (r : ρ) : Table key :=
  if h : t.get? (key r) = none then ⟨t.rows ++ [r], nodup_snoc t.nodup h⟩
  else ⟨t.rows.map fun x => if key x = key r then r else x, by rw [map_replace_key]; exact t.nodup⟩

theorem rows_put_none {t : Table key} {r : ρ}
    (h : t.get? (key r) = none) : (t.put r).rows = t.rows ++ [r] := by
  unfold put
  rw [dif_pos h]

theorem find?_replace (l : List ρ) (r : ρ) (k : κ) (hk : k ≠ key r) :
    (l.map fun x => if key x = key r then r else x).find? (fun x => decide (key x = k)) =
      l.find? (fun x => decide (key x = k)) := by
  induction l with
  | nil => rfl
  | cons x l ih =>
    rw [List.map_cons]
    by_cases hx : key x = key r
    · rw [if_pos hx, List.find?_cons_of_neg (by simpa using Ne.symm hk),
        List.find?_cons_of_neg (by rw [hx]; simpa using Ne.symm hk), ih]
    · rw [if_neg hx]
      by_cases hxk : key x = k
      · rw [List.find?_cons_of_pos (by simpa using hxk), List.find?_cons_of_pos (by simpa using hxk)]
      · rw [List.find?_cons_of_neg (by simpa using hxk), List.find?_cons_of_neg (by simpa using hxk), ih]

theorem mem_put_self (t : Table key) (r : ρ) : r ∈ (t.put r).rows := by
  unfold put
  split
  · simp
  · rename_i h
    obtain ⟨x, hx⟩ := Option.ne_none_iff_exists'.1 h
    exact List.mem_map.2 ⟨x, get?_mem hx, if_pos (get?_key hx)⟩

theorem get?_put (t : Table key) (r : ρ) (k : κ) :
    (t.put r).get? k = if k = key r then some r else t.get? k := by
  by_cases hk : k = key r
  · rw [if_pos hk, hk]
    exact get?_of_mem (mem_put_self t r)
  · rw [if_neg hk]
    unfold put
    split
    · simp only [get?, List.find?_append]
      rw [List.find?_cons_of_neg (by simpa using Ne.symm hk)]
      simp
    · exact find?_replace t.rows r k hk

@[simp] theorem get?_put_self (t : Table key) (r : ρ) : (t.put r).get? (key r) = some r := by
  rw [get?_put, if_pos rfl]

theorem get?_put_ne (t : Table key) {r : ρ} {k : κ}
    (h : k ≠ key r) : (t.put r).get? k = t.get? k := by
  rw [get?_put, if_neg h]

theorem mem_put {t : Table key} {r x : ρ} :
    x ∈ (t.put r).rows ↔ x = r ∨ (x ∈ t.rows ∧ key x ≠ key r) := by
  rw [mem_rows, get?_put]
  by_cases hk : key x = key r
  · simp [hk, eq_comm]
  · rw [if_neg hk, ← mem_rows]
    constructor
    · exact fun h => Or.inr ⟨h, hk⟩
    · rintro (rfl | h)
      · exact absurd rfl hk
      · exact h.1

theorem put_of_get? {t : Table key} {r : ρ} (h : t.get? (key r) = some r) : t.put r = t := by
  refine ext_rows ?_
  unfold put
  rw [dif_neg (by rw [h]; exact Option.some_ne_none r)]
  refine (List.map_congr_left fun x hx => ?_).trans (List.map_id _)
  split
  · rename_i hk
    exact eq_of_key (get?_mem h) hx hk.symm
  · rfl

section Total

variable {M : Type w} [AddCommMonoid M]

theorem sum_replace {l : List ρ} (hn : (l.map key).Nodup) (g : ρ → M) {r x : ρ} (hx : x ∈ l)
    (hk : key x = key r) :
    ((l.map fun y => if key y = key r then r else y).map g).sum + g x = (l.map g).sum + g r := by
  induction l with
  | nil => cases hx
  | cons y l ih =>
    rw [List.map_cons, List.nodup_cons] at hn
    rw [List.map_cons, List.map_cons, List.map_cons, List.sum_cons, List.sum_cons]
    rcases List.mem_cons.1 hx with rfl | hx
    · have hrest : (l.map fun y => if key y = key r then r else y) = l := by
        refine (List.map_congr_left fun z hz => ?_).trans (List.map_id l)
        exact if_neg fun he : key z = key r => hn.1 (hk.trans he.symm ▸ List.mem_map_of_mem hz)
      rw [if_pos hk, hrest]
      abel
    · have hne : key y ≠ key r := fun he => hn.1 (he.trans hk.symm ▸ List.mem_map_of_mem hx)
      rw [if_neg hne, add_assoc, ih hn.2 hx, add_assoc]

theorem total_put_some {t : Table key} (g : ρ → M) {r x : ρ} (h : t.get? (key r) = some x) :
    (t.put r).total g + g x = t.total g + g r := by
  have hne : ¬ t.get? (key r) = none := by rw [h]; exact Option.some_ne_none x
  unfold put
  rw [dif_neg hne]
  exact sum_replace t.nodup g (get?_mem h) (get?_key h)

theorem total_put_none {t : Table key} (g : ρ → M) {r : ρ} (h : t.get? (key r) = none) :
    (t.put r).total g = t.total g + g r := by
  unfold put
  rw [dif_pos h]
  simp [total]

theorem total_put (t : Table key) (g : ρ → M) (r : ρ) :
    (t.put r).total g + (t.get? (key r)).elim 0 g = t.total g + g r := by
  cases h : t.get? (key r) with
  | none => rw [Option.elim_none, add_zero, total_put_none g h]
  | some x => exact total_put_some g h

end Total

/-! ## Removing a row -/

omit [DecidableEq κ] in
theorem countP_eq_total (t : Table key) (p : ρ → Bool) :
    t.rows.countP p = t.total fun r => if p r then 1 else 0 := by
  unfold total
  induction t.rows with
  | nil => rfl
  | cons r l ih =>
    rw [List.countP_cons, ih, List.map_cons, List.sum_cons, Nat.add_comm]

theorem countP_put_le (t : Table key) (p : ρ → Bool) (r : ρ) :
    (t.put r).rows.countP p ≤ t.rows.countP p + if p r then 1 else 0 := by
  rw [countP_eq_total, countP_eq_total]
  cases h : t.get? (key r) with
  | none => exact le_of_eq (total_put_none _ h)
  | some x =>
    have hput := total_put_some (fun r => if p r then 1 else 0) h
    omega

theorem countP_put_same {t : Table key} {p : ρ → Bool} {r x : ρ} (h : t.get? (key r) = some x)
    (hp : p x = p r) :
    (t.put r).rows.countP p = t.rows.countP p := by
  rw [countP_eq_total, countP_eq_total]
  have hput := total_put_some (fun r => if p r then 1 else 0) h
  simp only [hp] at hput
  omega

theorem get?_filter (t : Table key) (p : ρ → Bool)
    (k : κ) : (t.filter p).get? k = (t.get? k).filter p := by
  cases h : t.get? k with
  | none =>
    rw [get?_eq_none] at h
    rw [Option.filter_none, get?_eq_none]
    exact fun r hr => h r (mem_filter.1 hr).1
  | some r =>
    have hk := get?_key h
    subst hk
    by_cases hp : p r = true
    · rw [Option.filter_some_pos hp]
      exact get?_of_mem (mem_filter.2 ⟨get?_mem h, hp⟩)
    · rw [Option.filter_some_neg (by simpa using hp), get?_eq_none]
      intro x hx he
      exact hp (eq_of_key (mem_filter.1 hx).1 (get?_mem h) he ▸ (mem_filter.1 hx).2)

/-- Remove the row with key `k`. -/
def erase (t : Table key) (k : κ) : Table key := t.filter fun r => decide (key r ≠ k)

theorem get?_erase (t : Table key) (k k' : κ) :
    (t.erase k).get? k' = if k' = k then none else t.get? k' := by
  rw [erase, get?_filter]
  cases h : t.get? k' with
  | none => simp
  | some r =>
    have hk := get?_key h
    by_cases hkk : k' = k
    · rw [if_pos hkk, Option.filter_some_neg (by simpa [hk] using hkk)]
    · rw [if_neg hkk, Option.filter_some_pos (by simpa [hk] using hkk)]

theorem mem_erase {t : Table key} {k : κ} {r : ρ} :
    r ∈ (t.erase k).rows ↔ r ∈ t.rows ∧ key r ≠ k := by
  rw [erase, mem_filter, decide_eq_true_iff]

section Total

variable {M : Type w} [AddCommMonoid M]

theorem total_erase_some {t : Table key} (g : ρ → M) {k : κ} {x : ρ} (h : t.get? k = some x) :
    (t.erase k).total g + g x = t.total g := by
  obtain ⟨l, hn⟩ := t
  have hx : x ∈ l := get?_mem h
  have hk : key x = k := get?_key h
  subst hk
  simp only [total, erase, filter]
  clear h
  induction l with
  | nil => cases hx
  | cons y l ih =>
    rw [List.map_cons, List.nodup_cons] at hn
    rw [List.map_cons, List.sum_cons]
    rcases List.mem_cons.1 hx with rfl | hx
    · have hrest : l.filter (fun r => decide (key r ≠ key x)) = l :=
        List.filter_eq_self.2 fun z hz => decide_eq_true fun he : key z = key x => hn.1 (he ▸ List.mem_map_of_mem hz)
      rw [List.filter_cons_of_neg (by simp), hrest, add_comm]
    · have hne : key y ≠ key x := fun he => hn.1 (he ▸ List.mem_map_of_mem hx)
      rw [List.filter_cons_of_pos (by simpa using hne), List.map_cons, List.sum_cons, add_assoc, ih hn.2 hx]

end Total

/-- The last rows, at most `n`. -/
def keepLast (t : Table key) (n : ℕ) : Table key :=
  ⟨t.rows.drop (t.rows.length - n), t.nodup.sublist ((List.drop_sublist _ _).map key)⟩

omit [DecidableEq κ] in
theorem mem_of_mem_keepLast {t : Table key} {n : ℕ} {r : ρ}
    (h : r ∈ (t.keepLast n).rows) : r ∈ t.rows :=
  List.mem_of_mem_drop h

def mapRows (t : Table key) (f : ρ → ρ) (hf : ∀ r, key (f r) = key r) : Table key :=
  ⟨t.rows.map f, by rw [List.map_map, show key ∘ f = key from funext hf]; exact t.nodup⟩

theorem get?_mapRows (t : Table key) (f : ρ → ρ) (hf : ∀ r, key (f r) = key r) (k : κ) :
    (t.mapRows f hf).get? k = (t.get? k).map f := by
  unfold get? mapRows
  rw [List.find?_map]
  congr 2
  funext r
  rw [Function.comp_apply, hf]

def lookup {ν : Type w} (d : Table (Prod.fst : κ × ν → κ))
    (k : κ) : Option ν := (d.get? k).map Prod.snd

theorem lookup_put {ν : Type w} (d : Dict κ ν) (k k' : κ) (v : ν) :
    (d.put (k, v)).lookup k' = if k' = k then some v else d.lookup k' := by
  rw [lookup, get?_put]
  split <;> rfl

theorem lookup_filter {ν : Type w} (d : Dict κ ν) (p : ν → Bool) (k : κ) :
    lookup (d.filter fun row => p row.2) k = (d.lookup k).filter p := by
  rw [lookup, get?_filter, lookup, Option.filter_map]
  rfl

theorem lookup_erase {ν : Type w} (d : Dict κ ν) (k k' : κ) :
    (d.erase k).lookup k' = if k' = k then none else d.lookup k' := by
  rw [lookup, get?_erase]
  split <;> rfl

end Table

end TokenProxy.Lib
