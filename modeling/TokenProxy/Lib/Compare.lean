import Mathlib.Algebra.Order.Field.Rat
import Mathlib.Data.List.Pairwise
import Mathlib.Data.List.Sort
import Mathlib.Order.WithBot

/-!
# Sorting by a comparator

A comparator answers an `Ordering`; a chain of keys is a `compareLex`, which is a comparator as soon
as each key is.

* `sortBy` is a stable sort; a comparator that is transitive sorts (`sortBy_pairwise`), and what it
  sorts is the same up to ties whatever the order of the input (`forall₂_of_sorted`);
* `rank` is the place that an element has after the sort;
* `compareAt` compares two functions at one key after the other, up to the first difference; keys at
  which they agree may be left out (`compareAt_filter`).
-/

namespace TokenProxy.Lib

universe u v w

variable {α : Type u} {β : Type v} {κ : Type w}

/-! ## The sort -/

/-- A stable sort by `cmp`. -/
def sortBy (cmp : α → α → Ordering) (l : List α) : List α := l.insertionSort fun a b => (cmp a b).isLE = true

variable {cmp : α → α → Ordering}

theorem sortBy_perm (cmp : α → α → Ordering) (l : List α) : (sortBy cmp l).Perm l := List.perm_insertionSort _ l

@[simp] theorem mem_sortBy {l : List α} {a : α} : a ∈ sortBy cmp l ↔ a ∈ l := (sortBy_perm cmp l).mem_iff

@[simp] theorem sortBy_eq_nil {l : List α} : sortBy cmp l = [] ↔ l = [] := by
  constructor
  · intro h
    exact List.Perm.eq_nil (h ▸ (sortBy_perm cmp l).symm)
  · intro h
    subst h
    rfl

theorem sortBy_pairwise [Std.TransCmp cmp] (l : List α) :
    (sortBy cmp l).Pairwise fun a b => (cmp a b).isLE = true := by
  have htotal : Std.Total fun a b => (cmp a b).isLE = true := by
    refine ⟨fun a b => ?_⟩
    rw [show cmp b a = (cmp a b).swap from Std.OrientedCmp.eq_swap]
    cases cmp a b <;> simp
  have htrans : IsTrans α fun a b => (cmp a b).isLE = true := ⟨fun _ _ _ => Std.TransCmp.isLE_trans⟩
  exact List.pairwise_insertionSort _ l

theorem sortBy_filter [Std.TransCmp cmp] {l : List α} (p : α → Bool)
    (h : (l.filter p).Pairwise fun a b => cmp a b = .lt) :
    (sortBy cmp l).filter p = l.filter p := by
  have hperm : ((sortBy cmp l).filter p).Perm (l.filter p) := (sortBy_perm cmp l).filter p
  have hsorted : ((sortBy cmp l).filter p).Pairwise fun a b => (cmp a b).isLE = true := (sortBy_pairwise l).filter p
  have hle : (l.filter p).Pairwise fun a b => (cmp a b).isLE = true := by
    refine h.imp fun {a b} hlt => ?_
    rw [hlt]
    rfl
  have hsymm : Std.Symm fun a b => a = b ∨ cmp a b = .lt ∨ cmp b a = .lt := by
    refine ⟨fun a b hab => ?_⟩
    obtain rfl | hlt | hlt := hab
    · exact .inl rfl
    · exact .inr (.inr hlt)
    · exact .inr (.inl hlt)
  have hdistinct : (l.filter p).Pairwise fun a b => a = b ∨ cmp a b = .lt ∨ cmp b a = .lt := h.imp fun hlt => .inr (.inl hlt)
  refine hperm.eq_of_pairwise ?_ hsorted hle
  intro a b ha hb hab hba
  have htie : cmp a b = .eq := Std.OrientedCmp.isLE_antisymm hab hba
  obtain heq | hlt | hlt := hdistinct.forall_of_forall (fun _ _ => .inl rfl) (hperm.mem_iff.mp ha) hb
  · exact heq
  · rw [htie] at hlt
    exact absurd hlt (by decide)
  · rw [Std.OrientedCmp.eq_symm htie] at hlt
    exact absurd hlt (by decide)

theorem not_lt_self [Std.TransCmp cmp] (a : α) : cmp a a ≠ .lt := by
  intro h
  have hself : cmp a a = .eq := Std.ReflCmp.compare_self
  rw [hself] at h
  cases h

theorem isStrictWeakOrder_of_transCmp [Std.TransCmp cmp] : IsStrictWeakOrder α fun a b => cmp a b = .lt where
  irrefl := not_lt_self
  trans _ _ _ := Std.TransCmp.lt_trans
  incomp_trans a b c := by
    have htie : ∀ x y, ¬ cmp x y = .lt ∧ ¬ cmp y x = .lt ↔ cmp x y = .eq := by
      intro x y
      rw [show cmp y x = (cmp x y).swap from Std.OrientedCmp.eq_swap]
      cases cmp x y <;> simp
    rw [htie, htie, htie]
    exact Std.TransCmp.eq_trans

/-! ## Ties -/

def tied (cmp : α → α → Ordering) [Std.TransCmp cmp] : Setoid α where
  r a b := cmp a b = .eq
  iseqv := ⟨fun _ => Std.ReflCmp.compare_self, Std.OrientedCmp.eq_symm, Std.TransCmp.eq_trans⟩

/-- **A sorted list is determined by its elements up to ties.** -/
theorem forall₂_of_sorted [Std.TransCmp cmp] {l l' : List α} (hperm : l.Perm l')
    (h : l.Pairwise fun a b => (cmp a b).isLE = true) (h' : l'.Pairwise fun a b => (cmp a b).isLE = true) :
    List.Forall₂ (fun a b => cmp a b = .eq) l l' := by
  let mk : α → Quotient (tied cmp) := Quotient.mk (tied cmp)
  -- the comparison of two classes
  let le : Quotient (tied cmp) → Quotient (tied cmp) → Prop :=
    Quotient.lift₂ (fun a b => (cmp a b).isLE = true) fun a b a' b' ha hb => by
      have ha : cmp a a' = .eq := ha
      have hb : cmp b b' = .eq := hb
      rw [Std.TransCmp.congr_left ha, Std.TransCmp.congr_right hb]
  have hanti : ∀ x y, le x y → le y x → x = y := by
    refine Quotient.ind₂ fun a b hab hba => Quotient.sound ?_
    exact Std.OrientedCmp.isLE_antisymm hab hba
  have hmap : l.map mk = l'.map mk :=
    (hperm.map mk).eq_of_pairwise (fun x y _ _ => hanti x y) (List.pairwise_map.mpr h) (List.pairwise_map.mpr h')
  have hforall : List.Forall₂ (fun a b => mk a = mk b) l l' := by
    rw [← List.forall₂_map_left_iff (R := fun x b => x = mk b), ← List.forall₂_map_right_iff (R := fun x y => x = y)]
    rw [hmap, List.forall₂_same]
    exact fun _ _ => rfl
  exact hforall.imp fun a b hab => Quotient.exact hab

/-! ## The place of an element -/

def rank (cmp : α → α → Ordering) (l : List α) (x : α) : ℕ := l.countP fun y => cmp y x = .lt

theorem rank_perm {l l' : List α} (h : l.Perm l')
    (x : α) : rank cmp l x = rank cmp l' x := h.countP_eq _

theorem sortBy_pairwise_lt [Std.TransCmp cmp] {l : List α}
    (h : l.Pairwise fun a b => cmp a b ≠ .eq) :
    (sortBy cmp l).Pairwise fun a b => cmp a b = .lt := by
  have hne : (sortBy cmp l).Pairwise fun a b => cmp a b ≠ .eq :=
    (sortBy_perm cmp l).symm.pairwise h fun {a b} hab hba => hab (Std.OrientedCmp.eq_symm hba)
  have hle : (sortBy cmp l).Pairwise fun a b => (cmp a b).isLE = true := sortBy_pairwise l
  refine (hle.and hne).imp fun {a b} hab => ?_
  obtain ⟨hle, hne⟩ := hab
  cases hcmp : cmp a b with
  | lt => rfl
  | eq => exact absurd hcmp hne
  | gt =>
    rw [hcmp] at hle
    exact absurd hle (by decide)

theorem rank_of_pairwise_lt [Std.TransCmp cmp] {before after : List α} {x : α}
    (h : (before ++ x :: after).Pairwise fun a b => cmp a b = .lt) :
    rank cmp (before ++ x :: after) x = before.length := by
  obtain ⟨-, hrest, hbefore⟩ := List.pairwise_append.1 h
  have hself : cmp x x ≠ .lt := not_lt_self x
  have hall : ∀ y ∈ before, decide (cmp y x = .lt) = true := fun y hy => decide_eq_true (hbefore y hy x (List.mem_cons_self ..))
  have hnone : ∀ y ∈ after, ¬ decide (cmp y x = .lt) = true := by
    intro y hy hlt
    exact Std.OrientedCmp.not_lt_of_lt ((List.pairwise_cons.1 hrest).1 y hy) (of_decide_eq_true hlt)
  unfold rank
  rw [List.countP_append, List.countP_eq_length.2 hall, List.countP_cons_of_neg (by simpa using hself), List.countP_eq_zero.2 hnone]
  rfl

theorem map_rank_of_pairwise_lt [Std.TransCmp cmp] {l : List α}
    (h : l.Pairwise fun a b => cmp a b = .lt) :
    l.map (rank cmp l) = List.range l.length := by
  have hrank : ∀ i x, l[i]? = some x → rank cmp l x = i := by
    intro i x hx
    obtain ⟨hi, rfl⟩ := List.getElem?_eq_some_iff.1 hx
    have hsplit : l = l.take i ++ l[i] :: l.drop (i + 1) := by
      rw [List.getElem_cons_drop, List.take_append_drop]
    generalize l[i] = x at hsplit
    rw [hsplit] at h
    have hplace := rank_of_pairwise_lt h
    rw [← hsplit, List.length_take, Nat.min_eq_left (Nat.le_of_lt hi)] at hplace
    exact hplace
  refine List.ext_getElem (by simp) fun i hi _ => ?_
  rw [List.getElem_map, List.getElem_range]
  exact hrank i _ (List.getElem?_eq_getElem _)

theorem rank_lt_rank [Std.TransCmp cmp] {l : List α} {x y : α} (hx : x ∈ l)
    (hxy : cmp x y = .lt) : rank cmp l x < rank cmp l y := by
  unfold rank
  have hself : cmp x x ≠ .lt := not_lt_self x
  obtain ⟨before, after, rfl⟩ := List.append_of_mem hx
  have hle : ∀ part : List α, part.countP (fun z => cmp z x = .lt) ≤ part.countP fun z => cmp z y = .lt := by
    intro part
    refine List.countP_mono_left fun z _ hz => ?_
    exact decide_eq_true (Std.TransCmp.lt_trans (of_decide_eq_true hz) hxy)
  have h₁ := hle before
  have h₂ := hle after
  rw [List.countP_append, List.countP_append, List.countP_cons_of_neg (by simpa using hself), List.countP_cons_of_pos (by simpa using hxy)]
  omega

/-! ## Two sorts side by side -/

theorem forall₂_orderedInsert {R : α → β → Prop} {le : α → α → Prop} {le' : β → β → Prop}
    [DecidableRel le]
    [DecidableRel le'] {a : α} {a' : β} {l : List α} {l' : List β} (ha : R a a') (hl : List.Forall₂ R l l')
    (hle : ∀ b b', R b b' → (le a b ↔ le' a' b')) :
    List.Forall₂ R (l.orderedInsert le a) (l'.orderedInsert le' a') := by
  induction hl with
  | nil => exact List.Forall₂.cons ha List.Forall₂.nil
  | @cons b b' l l' hb hl ih =>
    rw [List.orderedInsert_cons, List.orderedInsert_cons]
    by_cases h : le a b
    · rw [if_pos h, if_pos ((hle b b' hb).mp h)]
      exact List.Forall₂.cons ha (List.Forall₂.cons hb hl)
    · rw [if_neg h, if_neg (mt (hle b b' hb).mpr h)]
      exact List.Forall₂.cons hb ih

theorem forall₂_sortBy {R : α → β → Prop} {cmp : α → α → Ordering} {cmp' : β → β → Ordering}
    {l : List α} {l' : List β}
    (hl : List.Forall₂ R l l') (hcmp : ∀ a a' b b', R a a' → R b b' → cmp a b = cmp' a' b') :
    List.Forall₂ R (sortBy cmp l) (sortBy cmp' l') := by
  induction hl with
  | nil => exact List.Forall₂.nil
  | cons ha hl ih =>
    apply forall₂_orderedInsert ha ih
    intro b b' hb
    rw [hcmp _ _ _ _ ha hb]

theorem sortBy_congr {cmp cmp' : α → α → Ordering} {l : List α}
    (h : ∀ a ∈ l, ∀ b ∈ l, cmp a b = cmp' a b) :
    sortBy cmp l = sortBy cmp' l := by
  have hmap := List.map_insertionSort (r := fun a b => (cmp a b).isLE = true) (s := fun a b => (cmp' a b).isLE = true) id l
    fun a ha b hb => by rw [id, id, h a ha b hb]
  rwa [List.map_id, List.map_id] at hmap

/-! ## Comparing functions -/

section At

variable [Ord β]

def compareAt : List κ → (κ → β) → (κ → β) → Ordering
  | [], _, _ => .eq
  | k :: ks, f, g => (compare (f k) (g k)).then (compareAt ks f g)

instance [Std.TransOrd β] (ks : List κ) :
    Std.TransCmp (compareAt ks : (κ → β) → (κ → β) → Ordering) := by
  induction ks with
  | nil => exact { eq_swap := rfl, isLE_trans := fun _ _ => rfl }
  | cons k ks ih => exact inferInstanceAs (Std.TransCmp (compareLex (compareOn fun f : κ → β => f k) (compareAt ks)))

theorem compareAt_filter [Std.ReflOrd β] (p : κ → Bool) {f g : κ → β} (ks : List κ)
    (h : ∀ k ∈ ks, p k = false → f k = g k) : compareAt (ks.filter p) f g = compareAt ks f g := by
  induction ks with
  | nil => rfl
  | cons k ks ih =>
    have hrest := ih fun x hx => h x (List.mem_cons_of_mem k hx)
    cases hp : p k with
    | true => rw [List.filter_cons_of_pos hp, compareAt, compareAt, hrest]
    | false =>
      rw [List.filter_cons_of_neg (by simp [hp]), hrest, compareAt, h k List.mem_cons_self hp, Std.ReflOrd.compare_self]
      rfl

theorem compareAt_congr {f f' g g' : κ → β} {ks : List κ} (hf : ∀ k ∈ ks, f k = f' k)
    (hg : ∀ k ∈ ks, g k = g' k) :
    compareAt ks f g = compareAt ks f' g' := by
  induction ks with
  | nil => rfl
  | cons k ks ih =>
    rw [compareAt, compareAt, hf k List.mem_cons_self, hg k List.mem_cons_self,
      ih (fun x hx => hf x (List.mem_cons_of_mem k hx)) fun x hx => hg x (List.mem_cons_of_mem k hx)]

end At

end TokenProxy.Lib
