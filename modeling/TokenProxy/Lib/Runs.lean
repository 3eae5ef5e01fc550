import Mathlib.Data.List.Chain
import Mathlib.Data.List.SplitBy
import TokenProxy.Lib.Positions

/-!
# Runs of a sequence

A run is a stretch whose elements all qualify and whose neighbours all fit. `extend` is one turn of
the loop that keeps the run that is still going on: what it keeps is the longest run at the end of
what was read (`suffix_currentRun`), and the part up to an element of the maximal run around it
(`currentRun_of_maximal`). A list that grows keeps its groups, but for the last one
(`splitBy_append_pieces`).
-/

namespace TokenProxy.Lib

universe u

variable {α : Type u} {P : α → Prop} {R : α → α → Prop}

structure IsRun (P : α → Prop) (R : α → α → Prop) (l : List α) : Prop where
  all : ∀ x ∈ l, P x
  chain : l.IsChain R

structure MaximalRun (P : α → Prop) (R : α → α → Prop) (xs before run after : List α) : Prop where
  split : xs = before ++ run ++ after
  isRun : IsRun P R run
  first : ∀ x ∈ before.getLast?, ¬ IsRun P R (x :: run)
  last : ∀ x ∈ after.head?, ¬ IsRun P R (run ++ [x])

namespace IsRun

theorem nil : IsRun P R [] := ⟨by simp, List.isChain_nil⟩

theorem singleton {x : α} (h : P x) : IsRun P R [x] := ⟨by simpa using h, List.isChain_singleton x⟩

theorem right {a b : List α} (h : IsRun P R (a ++ b)) : IsRun P R b :=
  ⟨fun x hx => h.all x (List.mem_append_right a hx), h.chain.right_of_append⟩

theorem left {a b : List α} (h : IsRun P R (a ++ b)) : IsRun P R a :=
  ⟨fun x hx => h.all x (List.mem_append_left b hx), h.chain.left_of_append⟩

theorem overlap {a b : List α} {x : α} (h : IsRun P R (a ++ [x]))
    (h' : IsRun P R (x :: b)) : IsRun P R (a ++ x :: b) where
  all y hy := by
    rcases List.mem_append.1 hy with hy | hy
    · exact h.all y (List.mem_append_left _ hy)
    · exact h'.all y hy
  chain := List.isChain_split.2 ⟨h.chain, h'.chain⟩

theorem snoc {a : List α} {x y : α} (h : IsRun P R (a ++ [x])) (hy : P y)
    (hxy : R x y) : IsRun P R (a ++ [x] ++ [y]) := by
  rw [List.append_assoc]
  exact h.overlap ⟨by simpa using ⟨h.all x (by simp), hy⟩, by simpa using hxy⟩

theorem rel_of_snoc {a : List α} {x y : α} (h : IsRun P R (a ++ [x] ++ [y])) : R x y := by
  rw [List.append_assoc] at h
  simpa using h.right.chain

theorem exists_right {run : List α} (h : IsRun P R run) (rest : List α) :
    ∃ more after, rest = more ++ after ∧ IsRun P R (run ++ more) ∧ ∀ x ∈ after.head?, ¬ IsRun P R (run ++ more ++ [x]) := by
  induction rest generalizing run with
  | nil => exact ⟨[], [], rfl, by simpa using h, by simp⟩
  | cons y rest ih =>
    by_cases hy : IsRun P R (run ++ [y])
    · obtain ⟨more, after, hrest, hmore, hlast⟩ := ih hy
      rw [List.append_assoc, List.singleton_append] at hmore hlast
      exact ⟨y :: more, after, by rw [hrest, List.cons_append], hmore, hlast⟩
    · refine ⟨[], y :: rest, rfl, by simpa using h, fun x hx => ?_⟩
      obtain rfl : y = x := by simpa using hx
      simpa using hy

end IsRun

variable [DecidablePred P] [DecidableRel R]

def extend (P : α → Prop) (R : α → α → Prop) [DecidablePred P] [DecidableRel R] (run : List α)
    (x : α) : List α :=
  if P x then if run.getLast?.all (R · x) then run ++ [x] else [x] else []

def currentRun (P : α → Prop) (R : α → α → Prop) [DecidablePred P] [DecidableRel R]
    (xs : List α) : List α := xs.foldl (extend P R) []

@[simp] theorem currentRun_nil : currentRun P R [] = [] := rfl

theorem currentRun_snoc (xs : List α) (x : α) :
    currentRun P R (xs ++ [x]) = extend P R (currentRun P R xs) x := by
  simp [currentRun]

theorem isRun_extend {run : List α} (h : IsRun P R run) (x : α) : IsRun P R (extend P R run x) := by
  unfold extend
  split
  · rename_i hx
    split
    · rename_i hlast
      rcases List.eq_nil_or_concat run with rfl | ⟨a, y, rfl⟩
      · exact IsRun.singleton hx
      · rw [List.concat_eq_append] at h hlast ⊢
        exact h.snoc hx (by simpa using hlast)
    · exact IsRun.singleton hx
  · exact IsRun.nil

theorem isRun_currentRun (xs : List α) : IsRun P R (currentRun P R xs) := by
  induction xs using List.reverseRecOn with
  | nil => exact IsRun.nil
  | append_singleton xs x ih =>
    rw [currentRun_snoc]
    exact isRun_extend ih x

theorem currentRun_suffix (xs : List α) : currentRun P R xs <:+ xs := by
  induction xs using List.reverseRecOn with
  | nil => exact List.suffix_refl _
  | append_singleton xs x ih =>
    rw [currentRun_snoc]
    unfold extend
    split
    · split
      · obtain ⟨a, ha⟩ := ih
        exact ⟨a, by rw [← List.append_assoc, ha]⟩
      · exact List.suffix_append xs [x]
    · exact List.nil_suffix

theorem suffix_currentRun {xs l : List α} (hl : l <:+ xs)
    (h : IsRun P R l) : l <:+ currentRun P R xs := by
  induction xs using List.reverseRecOn generalizing l with
  | nil =>
    rw [List.suffix_nil.1 hl]
    exact List.nil_suffix
  | append_singleton xs x ih =>
    rcases List.eq_nil_or_concat l with rfl | ⟨a, y, rfl⟩
    · exact List.nil_suffix
    rw [List.concat_eq_append] at hl h ⊢
    obtain ⟨b, hb⟩ := hl
    rw [← List.append_assoc] at hb
    obtain ⟨hxs, hxy⟩ := List.append_inj' hb rfl
    obtain rfl : y = x := by simpa using hxy
    have hsuffix : a <:+ currentRun P R xs := ih ⟨b, hxs⟩ h.left
    have hy : P y := h.all y (by simp)
    rw [currentRun_snoc]
    unfold extend
    rw [if_pos hy]
    rcases List.eq_nil_or_concat a with rfl | ⟨a, z, rfl⟩
    · split
      · exact List.suffix_append _ _
      · exact List.suffix_refl _
    rw [List.concat_eq_append] at hsuffix h ⊢
    obtain ⟨c, hc⟩ := hsuffix
    have hlast : (currentRun P R xs).getLast? = some z := by
      rw [← hc, ← List.append_assoc]
      simp
    rw [hlast, if_pos (by simpa using h.rel_of_snoc)]
    exact ⟨c, by rw [← hc, List.append_assoc, List.append_assoc, List.append_assoc]⟩

theorem currentRun_of_maximal {xs before upTo rest after : List α} {x : α}
    (h : MaximalRun P R xs before (upTo ++ x :: rest) after) :
    currentRun P R (before ++ upTo ++ [x]) = upTo ++ [x] := by
  have hrun : IsRun P R (upTo ++ [x]) := by
    have := h.isRun
    rw [show upTo ++ x :: rest = (upTo ++ [x]) ++ rest by simp] at this
    exact this.left
  have hin : upTo ++ [x] <:+ currentRun P R (before ++ upTo ++ [x]) := suffix_currentRun ⟨before, by simp⟩ hrun
  obtain ⟨more, hmore⟩ := hin
  rcases List.eq_nil_or_concat more with rfl | ⟨more, y, rfl⟩
  · exact hmore.symm
  exfalso
  rw [List.concat_eq_append] at hmore
  -- The run would go on to the left of a maximal one.
  have hlonger : IsRun P R (y :: upTo ++ [x]) := by
    have := isRun_currentRun (P := P) (R := R) (before ++ upTo ++ [x])
    rw [← hmore, List.append_assoc] at this
    simpa using this.right
  obtain ⟨a, ha⟩ := currentRun_suffix (P := P) (R := R) (before ++ upTo ++ [x])
  rw [← hmore] at ha
  have hbefore : before = a ++ more ++ [y] := by
    have hsame : a ++ more ++ [y] ++ (upTo ++ [x]) = before ++ (upTo ++ [x]) := by
      rw [← List.append_assoc before, ← ha]
      simp
    exact (List.append_cancel_right hsame).symm
  have hrest : IsRun P R (x :: rest) := h.isRun.right
  exact h.first y (by rw [hbefore]; simp) (IsRun.overlap (a := y :: upTo) hlonger hrest)

theorem exists_maximalRun {x : α} (hx : P x) (upTo rest : List α) :
    ∃ before run more after, MaximalRun P R (upTo ++ x :: rest) before (run ++ x :: more) after ∧ upTo = before ++ run ∧ rest = more ++ after := by
  obtain ⟨before, hbefore⟩ := currentRun_suffix (P := P) (R := R) (upTo ++ [x])
  obtain ⟨run, hrun⟩ : ∃ run, currentRun P R (upTo ++ [x]) = run ++ [x] := by
    have hsuffix : [x] <:+ currentRun P R (upTo ++ [x]) := suffix_currentRun ⟨upTo, rfl⟩ (IsRun.singleton hx)
    obtain ⟨run, hrun⟩ := hsuffix
    exact ⟨run, hrun.symm⟩
  rw [hrun, ← List.append_assoc] at hbefore
  have hupTo : upTo = before ++ run := (List.append_inj' hbefore rfl).1.symm
  have hisRun : IsRun P R (run ++ [x]) := hrun ▸ isRun_currentRun (upTo ++ [x])
  have hfirst : ∀ y ∈ before.getLast?, ∀ more, ¬ IsRun P R (y :: (run ++ x :: more)) := by
    intro y hy more hlong
    rcases List.eq_nil_or_concat before with rfl | ⟨a, z, rfl⟩
    · simp at hy
    rw [List.concat_eq_append] at hy hupTo
    obtain rfl : z = y := by simpa using hy
    have hshort : IsRun P R (z :: (run ++ [x])) := by
      rw [show z :: (run ++ x :: more) = (z :: (run ++ [x])) ++ more by simp] at hlong
      exact hlong.left
    have hsuffix : z :: (run ++ [x]) <:+ currentRun P R (upTo ++ [x]) := suffix_currentRun ⟨a, by rw [hupTo]; simp⟩ hshort
    have hle := hsuffix.length_le
    rw [hrun, List.length_cons] at hle
    omega
  obtain ⟨more, after, hrest, hmore, hlast⟩ := hisRun.exists_right rest
  rw [List.append_assoc, List.singleton_append] at hmore hlast
  refine ⟨before, run, more, after, ⟨?_, hmore, fun y hy => hfirst y hy more, hlast⟩, hupTo, hrest⟩
  rw [hupTo, hrest]
  simp

def RunUpTo (P : α → Prop) (R : α → α → Prop) (p : Position α) (run : List α) : Prop :=
  ∃ before upTo rest after, MaximalRun P R (p.before ++ p.item :: p.after) before (upTo ++ p.item :: rest) after ∧ p.before = before ++ upTo ∧
    p.after = rest ++ after ∧ run = upTo ++ [p.item]

theorem runUpTo_iff {p : Position α} {run : List α} :
    RunUpTo P R p run ↔ P p.item ∧ run = currentRun P R (p.before ++ [p.item]) := by
  constructor
  · rintro ⟨before, upTo, rest, after, hmaximal, hbefore, -, rfl⟩
    refine ⟨hmaximal.isRun.all p.item (by simp), ?_⟩
    rw [hbefore]
    exact (currentRun_of_maximal hmaximal).symm
  · rintro ⟨hitem, rfl⟩
    obtain ⟨before, run, more, after, hmaximal, hbefore, hafter⟩ := exists_maximalRun (R := R) hitem p.before p.after
    refine ⟨before, run, more, after, hmaximal, hbefore, hafter, ?_⟩
    rw [hbefore]
    exact currentRun_of_maximal hmaximal

/-! ### Groups of a list that grows -/

/-- Two lists that fit together: the last group of the one and the first of
the other become one group. -/
theorem splitBy_append_of_fits {r : α → α → Bool} {l m : List α} {x y : α} (hx : x ∈ l.getLast?)
    (hy : y ∈ m.head?) (hxy : r x y = true) :
    ∃ init last first rest, l.splitBy r = init ++ [last] ∧ m.splitBy r = first :: rest ∧ (l ++ m).splitBy r = init ++ (last ++ first) :: rest := by
  have hl : l ≠ [] := fun h => by simp [h] at hx
  have hm : m ≠ [] := fun h => by simp [h] at hy
  obtain ⟨init, last, hinit⟩ : ∃ init last, l.splitBy r = init ++ [last] :=
    ⟨_, _, (List.dropLast_append_getLast (List.splitBy_ne_nil.mpr hl)).symm⟩
  obtain ⟨first, rest, hfirst⟩ : ∃ first rest, m.splitBy r = first :: rest := List.exists_cons_of_ne_nil (List.splitBy_ne_nil.mpr hm)
  obtain ⟨hlFlat, hlNil, hlChain, hlBreak⟩ := List.splitBy_eq_iff.mp hinit
  obtain ⟨hmFlat, hmNil, hmChain, hmBreak⟩ := List.splitBy_eq_iff.mp hfirst
  have hlast : last ≠ [] := fun h => hlNil (by simp [h])
  have hfirstNe : first ≠ [] := fun h => hmNil (by simp [h])
  refine ⟨init, last, first, rest, hinit, hfirst, List.splitBy_eq_iff.mpr ⟨?_, ?_, ?_, ?_⟩⟩
  · rw [hlFlat, hmFlat]
    simp
  · simp only [List.mem_append, List.mem_cons, not_or] at hlNil hmNil ⊢
    exact ⟨hlNil.1, fun h => hlast (List.append_eq_nil_iff.mp h.symm).1, hmNil.2⟩
  · intro group hgroup
    simp only [List.mem_append, List.mem_cons] at hgroup
    rcases hgroup with hgroup | rfl | hgroup
    · exact hlChain group (by simp [hgroup])
    · refine List.isChain_append.mpr ⟨hlChain last (by simp), hmChain first (by simp), fun a ha b hb => ?_⟩
      have hax : a = x := by
        rw [hlFlat, List.flatten_append, List.flatten_singleton, List.getLast?_append_of_ne_nil _ hlast] at hx
        exact Option.some.inj (ha.symm.trans hx)
      have hby : b = y := by
        rw [hmFlat, List.flatten_cons, List.head?_append_of_ne_nil _ hfirstNe] at hy
        exact Option.some.inj (hb.symm.trans hy)
      rw [hax, hby]
      exact hxy
    · exact hmChain group (by simp [hgroup])
  · rw [List.isChain_split]
    constructor
    · obtain ⟨hinitChain, -, hbreak⟩ := List.isChain_append.mp hlBreak
      refine List.isChain_append.mpr ⟨hinitChain, List.isChain_singleton _, fun a ha b hb => ?_⟩
      obtain ⟨haNe, hlastNe, hr⟩ := hbreak a ha last rfl
      cases hb
      exact ⟨haNe, by simp [hlast], by rwa [List.head_append_of_ne_nil hlast]⟩
    · refine List.IsChain.imp_head (fun {z} hz => ?_) hmBreak
      obtain ⟨hfirst', hz', hr⟩ := hz
      exact ⟨by simp [hlast], hz', by rwa [List.getLast_append_of_ne_nil _ hfirstNe]⟩

/-- The groups of a longer list: each is a group of the list, or of what was appended, or begins
with the one and goes on with the other. -/
theorem splitBy_append_pieces (r : α → α → Bool) (l m : List α) :
    (∀ g ∈ (l ++ m).splitBy r, ∃ a b, g = a ++ b ∧ (a = [] ∨ a ∈ l.splitBy r) ∧ b ⊆ m) ∧
      ∀ a ∈ l.splitBy r, ∃ b, a ++ b ∈ (l ++ m).splitBy r ∧ b ⊆ m := by
  have hsub : ∀ g ∈ m.splitBy r, g ⊆ m := by
    intro g hg x hx
    rw [← List.flatten_splitBy r m]
    exact List.mem_flatten.mpr ⟨g, hg, hx⟩
  by_cases hlink : ∀ x ∈ l.getLast?, ∀ y ∈ m.head?, r x y = false
  · rw [List.splitBy_append hlink]
    refine ⟨fun g hg => ?_, fun a ha => ⟨[], by rw [List.append_nil]; exact List.mem_append_left _ ha, List.nil_subset m⟩⟩
    rcases List.mem_append.mp hg with hg | hg
    · exact ⟨g, [], (List.append_nil g).symm, Or.inr hg, List.nil_subset m⟩
    · exact ⟨[], g, rfl, Or.inl rfl, hsub g hg⟩
  · push Not at hlink
    obtain ⟨x, hx, y, hy, hxy⟩ := hlink
    obtain ⟨init, last, first, rest, hinit, hfirst, hjoined⟩ := splitBy_append_of_fits hx hy (by simpa using hxy)
    rw [hjoined, hinit]
    rw [hfirst] at hsub
    constructor
    · intro g hg
      rcases List.mem_append.mp hg with hg | hg
      · exact ⟨g, [], (List.append_nil g).symm, Or.inr (List.mem_append_left _ hg), List.nil_subset m⟩
      · rcases List.mem_cons.mp hg with rfl | hg
        · exact ⟨last, first, rfl, Or.inr (by simp), hsub first List.mem_cons_self⟩
        · exact ⟨[], g, rfl, Or.inl rfl, hsub g (List.mem_cons_of_mem _ hg)⟩
    · intro a ha
      rcases List.mem_append.mp ha with ha | ha
      · exact ⟨[], by rw [List.append_nil]; exact List.mem_append_left _ ha, List.nil_subset m⟩
      · rw [List.mem_singleton.mp ha]
        exact ⟨first, by simp, hsub first List.mem_cons_self⟩

end TokenProxy.Lib
