import Mathlib.Data.List.Dedup
import Mathlib.Data.Prod.Lex
import TokenProxy.Ranking.Rank

/-!
# The ranking is an order

Where the numbers of the records are numbers, each key is a comparison by something that the account
alone determines, so the chain is a strict weak order, the `lawful` one; the deadlines of two
records are compared at the horizons of either, which is the same as comparing them at the horizons
of all (`compareDeadlines_eq`). It follows that the ranking depends on the input order through the
indices only. A band or a horizon that is `NaN` ties what it is compared with.

Where no account has evidence the chain leaves the eligibility out, and an account that is denied
may come first.
-/

namespace TokenProxy.Ranking

open TokenProxy.Lib TokenProxy.Scheduler

/-! ### Deadlines -/

def nearest (windows : List ResolvedWindow) (horizon : WithBot ℚ) : WithTop ℚ :=
  windows.foldr (fun w t => if w.horizonMs = horizon then min (w.effectiveResetAt : WithTop ℚ) t else t) ⊤

theorem nearest_perm {windows windows' : List ResolvedWindow} (h : windows.Perm windows')
    (horizon : WithBot ℚ) :
    nearest windows horizon = nearest windows' horizon := by
  have hcomm : LeftCommutative fun (w : ResolvedWindow) (t : WithTop ℚ) =>
      if w.horizonMs = horizon then min (w.effectiveResetAt : WithTop ℚ) t else t := by
    refine ⟨fun w w' t => ?_⟩
    by_cases hw : w.horizonMs = horizon <;> by_cases hw' : w'.horizonMs = horizon <;> simp [hw, hw', min_left_comm]
  exact h.foldr_eq _

def deadlineIn (deadlines : Dict (WithBot ℚ) ℚ) (horizon : WithBot ℚ) : WithTop ℚ :=
  (deadlines.get? horizon).elim ⊤ fun p => (p.2 : WithTop ℚ)

theorem deadlineIn_eq_top {deadlines : Dict (WithBot ℚ) ℚ} {horizon : WithBot ℚ} :
    deadlineIn deadlines horizon = ⊤ ↔ horizon ∉ deadlines.rows.map Prod.fst := by
  unfold deadlineIn
  cases h : deadlines.get? horizon with
  | none =>
    have hnone := Table.get?_eq_none.mp h
    simp only [Option.elim_none, true_iff, List.mem_map, not_exists, not_and]
    exact hnone
  | some p =>
    simp only [Option.elim_some, WithTop.coe_ne_top, false_iff, not_not]
    exact List.mem_map.mpr ⟨p, Table.get?_mem h, Table.get?_key h⟩

theorem deadlineIn_deadlinesOf (windows : List ResolvedWindow) (horizon : WithBot ℚ) :
    deadlineIn (deadlinesOf windows) horizon = nearest windows horizon := by
  have hfold : ∀ deadlines : Dict (WithBot ℚ) ℚ, deadlineIn (windows.foldl (fun deadlines w => deadlines.put (w.horizonMs,
      (deadlines.get? w.horizonMs).elim w.effectiveResetAt (min ·.2 w.effectiveResetAt))) deadlines) horizon =
        min (deadlineIn deadlines horizon) (nearest windows horizon) := by
    induction windows with
    | nil => simp [nearest]
    | cons w windows ih =>
      intro deadlines
      rw [List.foldl_cons, ih]
      -- what one window does to the deadline of the horizon
      have hput : deadlineIn (deadlines.put (w.horizonMs,
          (deadlines.get? w.horizonMs).elim w.effectiveResetAt (min ·.2 w.effectiveResetAt))) horizon =
            if w.horizonMs = horizon then min (deadlineIn deadlines horizon) w.effectiveResetAt
            else deadlineIn deadlines horizon := by
        unfold deadlineIn
        rw [Table.get?_put]
        by_cases hw : w.horizonMs = horizon
        · subst hw
          rw [if_pos rfl, if_pos rfl]
          cases deadlines.get? w.horizonMs <;> simp
        · rw [if_neg (Ne.symm hw), if_neg hw]
      rw [hput]
      show _ = min _ (if w.horizonMs = horizon then min (w.effectiveResetAt : WithTop ℚ) (nearest windows horizon)
        else nearest windows horizon)
      by_cases hw : w.horizonMs = horizon
      · rw [if_pos hw, if_pos hw, min_assoc]
      · rw [if_neg hw, if_neg hw]
  rw [deadlinesOf, hfold]
  simp [deadlineIn]

theorem bucket_eq_top {r : Record} {horizon : WithBot ℚ}
    (h : horizon ∉ r.horizons) : r.bucket horizon = ⊤ := by
  have htop : r.deadline horizon = ⊤ := deadlineIn_eq_top.mpr h
  rw [Record.bucket, htop]
  rfl

/-! ### The comparison of the deadlines -/

def descending (horizons : List (WithBot ℚ)) : List (WithBot ℚ) := sortBy (fun x y => compare y x) horizons.dedup

theorem mem_descending {horizons : List (WithBot ℚ)}
    {x : WithBot ℚ} : x ∈ descending horizons ↔ x ∈ horizons := by
  rw [descending, mem_sortBy, List.mem_dedup]

theorem descending_pairwise (horizons : List (WithBot ℚ)) :
    (descending horizons).Pairwise (· > ·) := by
  have hsorted : (descending horizons).Pairwise fun x y => (compare y x).isLE = true := by
    have htrans : Std.TransCmp fun x y : WithBot ℚ => compare y x := Std.TransCmp.opposite
    exact sortBy_pairwise _
  have hnodup : (descending horizons).Nodup := (sortBy_perm _ _).nodup_iff.mpr (List.nodup_dedup _)
  refine (hsorted.and hnodup).imp fun {x y} h => ?_
  exact lt_of_le_of_ne (compare_le_iff_le.mp (Ordering.isLE_iff_ne_gt.mp h.1)) (Ne.symm h.2)

/-- The comparison of the deadlines, with `NaN` below every horizon. -/
def compareDeadlines (a b : Record) : Ordering := compareAt (descending (a.horizons ++ b.horizons)) a.bucket b.bucket

/-- **The deadlines may be compared at more horizons.** -/
theorem compareDeadlines_eq {a b : Record} {ks : List (WithBot ℚ)} (hks : ks.Pairwise (· > ·))
    (ha : a.horizons ⊆ ks)
    (hb : b.horizons ⊆ ks) : compareDeadlines a b = compareAt ks a.bucket b.bucket := by
  have hfilter : descending (a.horizons ++ b.horizons) = ks.filter fun k => decide (k ∈ a.horizons ++ b.horizons) := by
    apply List.Pairwise.eq_of_mem_iff (descending_pairwise _) (hks.filter _)
    intro k
    rw [mem_descending, List.mem_filter, decide_eq_true_iff, List.mem_append]
    constructor
    · exact fun h => ⟨h.elim (fun h => ha h) fun h => hb h, h⟩
    · exact And.right
  rw [compareDeadlines, hfilter]
  apply compareAt_filter
  intro k _ hk
  rw [decide_eq_false_iff_not, List.mem_append, not_or] at hk
  rw [bucket_eq_top hk.1, bucket_eq_top hk.2]

instance : Std.TransCmp compareDeadlines where
  eq_swap {a b} := by
    have hks := descending_pairwise (a.horizons ++ b.horizons)
    rw [compareDeadlines_eq hks (fun _ h => mem_descending.mpr (List.mem_append_left _ h))
        fun _ h => mem_descending.mpr (List.mem_append_right _ h),
      compareDeadlines_eq hks (fun _ h => mem_descending.mpr (List.mem_append_right _ h))
        fun _ h => mem_descending.mpr (List.mem_append_left _ h)]
    exact Std.OrientedCmp.eq_swap
  isLE_trans {a b c} hab hbc := by
    have hks := descending_pairwise (a.horizons ++ b.horizons ++ c.horizons)
    have ha : a.horizons ⊆ descending (a.horizons ++ b.horizons ++ c.horizons) := fun k h => by
      simp [mem_descending, h]
    have hb : b.horizons ⊆ descending (a.horizons ++ b.horizons ++ c.horizons) := fun k h => by
      simp [mem_descending, h]
    have hc : c.horizons ⊆ descending (a.horizons ++ b.horizons ++ c.horizons) := fun k h => by
      simp [mem_descending, h]
    rw [compareDeadlines_eq hks ha hb] at hab
    rw [compareDeadlines_eq hks hb hc] at hbc
    rw [compareDeadlines_eq hks ha hc]
    exact Std.TransCmp.isLE_trans hab hbc

/-! ### The chain of keys -/

instance (spreadByLoad : Bool) : Std.TransCmp (byLoad spreadByLoad) := by
  cases spreadByLoad with
  | true => exact inferInstanceAs (Std.TransCmp (compareOn Record.load))
  | false => exact { eq_swap := rfl, isLE_trans := fun _ _ => rfl }

instance (spreadByLoad : Bool) : Std.TransCmp (byHeadroom spreadByLoad) := by
  cases spreadByLoad with
  | true => exact inferInstanceAs (Std.TransCmp (compareOn fun r : Record => !r.headroom))
  | false => exact { eq_swap := rfl, isLE_trans := fun _ _ => rfl }

instance (previousPinId : Option String) : Std.TransCmp (stickyThenDeclared previousPinId) :=
  inferInstanceAs (Std.TransCmp (compareLex _ _))

instance (spreadByLoad : Bool) (previousPinId : Option String) :
    Std.TransCmp (byFallback spreadByLoad previousPinId) :=
  inferInstanceAs (Std.TransCmp (compareLex _ _))

/-- `byEvidence` as it is between numbers. -/
def byLawfulEvidence (spreadByLoad : Bool) (previousPinId : Option String) : Record → Record → Ordering :=
  compareLex (compareOn fun r => !r.usable) <| compareLex (byHeadroom spreadByLoad) <|
    compareLex (compareOn Record.evidenceBand) <| compareLex (compareOn fun r => r.band.unbotD 0) <| compareLex compareDeadlines <|
    compareLex (byLoad spreadByLoad) (stickyThenDeclared previousPinId)

instance (spreadByLoad : Bool) (previousPinId : Option String) :
    Std.TransCmp (byLawfulEvidence spreadByLoad previousPinId) :=
  inferInstanceAs (Std.TransCmp (compareLex _ _))

def lawful (records : List Record) (previousPinId : Option String)
    (activeLoad : Option (String → Load)) :
    Record → Record → Ordering :=
  let spreadByLoad := spreadsByLoad records previousPinId activeLoad
  if anyEvidence records then byLawfulEvidence spreadByLoad previousPinId else byFallback spreadByLoad previousPinId

instance (records : List Record) (previousPinId : Option String)
    (activeLoad : Option (String → Load)) :
    Std.TransCmp (lawful records previousPinId activeLoad) := by
  unfold lawful
  split <;> infer_instance

theorem compare_coe {α : Type*} [LinearOrder α]
    (x y : α) : compare (x : WithBot α) y = compare x y := by
  rw [← cmp_eq_compare, ← cmp_eq_compare]
  exact WithBot.coe_strictMono.cmp_map_eq x y

structure Record.Numeric (r : Record) : Prop where
  band : r.band ≠ ⊥
  horizons : ⊥ ∉ r.horizons

theorem compareHorizons_lawful {a b : Record} (ha : a.Numeric) (hb : b.Numeric) :
    compareHorizons a b = compareDeadlines a b := by
  have hreal : ∀ x ∈ (a.horizons ++ b.horizons).dedup, x ≠ ⊥ := by
    rintro x hx rfl
    exact (List.mem_append.mp (List.mem_dedup.mp hx)).elim ha.horizons hb.horizons
  unfold compareHorizons compareDeadlines descending
  rw [sortBy_congr fun x hx y hy => ?_]
  cases x with
  | bot => exact absurd rfl (hreal ⊥ hx)
  | coe x =>
    cases y with
    | bot => exact absurd rfl (hreal ⊥ hy)
    | coe y => exact (compare_coe y x).symm

/-- Between records whose keys are numbers, the comparison is the lawful one. -/
theorem comparison_lawful {records : List Record} {previousPinId : Option String}
    {activeLoad : Option (String → Load)} {a b : Record} (ha : a.Numeric) (hb : b.Numeric) :
    comparison records previousPinId activeLoad a b = lawful records previousPinId activeLoad a b := by
  have hband : ∀ rest : Record → Record → Ordering,
      byBand (compareLex compareHorizons rest) a b = compareLex (compareOn fun r => r.band.unbotD 0) (compareLex compareDeadlines rest) a b := by
    intro rest
    simp only [byBand, compareLex, compareOn, compareHorizons_lawful ha hb]
    have hbot := ha.band
    have hbot' := hb.band
    generalize a.band = x at hbot ⊢
    generalize b.band = y at hbot' ⊢
    cases x with
    | bot => exact absurd rfl hbot
    | coe x =>
      cases y with
      | bot => exact absurd rfl hbot'
      | coe y => rfl
  unfold comparison lawful
  split
  · simp only [byEvidence, byLawfulEvidence]
    rw [compareLex, compareLex, compareLex, compareLex, compareLex, compareLex, hband]
  · rfl

/-! ### Records without their place -/

variable {accounts accounts' : List (Candidate Account)} {now : Int} {previousPinId : Option String}
  {activeLoad : Option (String → Load)} {model : String}

def Record.unplaced (r : Record) : Record := { r with index := 0 }

theorem recordsOf_unplaced [Collation] :
    (recordsOf accounts now activeLoad model).map Record.unplaced = accounts.map (toRecord now activeLoad model 0) := by
  apply List.ext_getElem
  · simp [recordsOf]
  · intro i hi hi'
    simp [recordsOf, toRecord, Record.unplaced]

theorem Record.Numeric.unplaced {r : Record} (h : r.Numeric) : r.unplaced.Numeric := ⟨h.band, h.horizons⟩

theorem lawful_unplaced (records : List Record) {a b : Record} :
    lawful records previousPinId activeLoad a b =
      (lawful records previousPinId activeLoad a.unplaced b.unplaced).then (compare a.index b.index) := by
  have hsticky : ∀ a b : Record, stickyThenDeclared previousPinId a b =
      (stickyThenDeclared previousPinId a.unplaced b.unplaced).then (compare a.index b.index) := by
    intro a b
    simp only [stickyThenDeclared, compareLex, compareOn, Record.unplaced, Ordering.then_assoc]
    rfl
  unfold lawful
  split
  · simp only [byLawfulEvidence, compareLex, Ordering.then_assoc]
    rw [hsticky a b]
    rfl
  · simp only [byFallback, compareLex, Ordering.then_assoc]
    rw [hsticky a b]
    rfl

theorem spreadsByLoad_congr {records records' : List Record}
    (h : ∀ id, previousPinId = some id →
      (records.find? fun r => decide (r.id = id)).map Record.usable =
        (records'.find? fun r => decide (r.id = id)).map Record.usable) :
    spreadsByLoad records previousPinId activeLoad = spreadsByLoad records' previousPinId activeLoad := by
  unfold spreadsByLoad
  cases previousPinId with
  | none => rfl
  | some id =>
    have hid := h id rfl
    simp only
    generalize records.find? (fun r => decide (r.id = id)) = pinned at hid ⊢
    generalize records'.find? (fun r => decide (r.id = id)) = pinned' at hid ⊢
    cases pinned <;> cases pinned' <;> simp_all

theorem anyEvidence_unplaced (records : List Record) :
    anyEvidence (records.map Record.unplaced) = anyEvidence records := by
  rw [anyEvidence, List.any_map]
  rfl

/-! ### Permutations of the accounts -/

theorem lawful_congr {records records' : List Record}
    (hspread : spreadsByLoad records previousPinId activeLoad = spreadsByLoad records' previousPinId activeLoad)
    (hevidence : anyEvidence records = anyEvidence records') :
    lawful records previousPinId activeLoad = lawful records' previousPinId activeLoad := by
  unfold lawful
  rw [hspread, hevidence]

theorem ranked_perm [Collation] (accounts : List (Candidate Account)) (now : Int)
    (previousPinId : Option String) (activeLoad : Option (String → Load)) (model : String) :
    (rankAccounts accounts now previousPinId activeLoad model).ranked.Perm (recordsOf accounts now activeLoad model) := by
  rw [(rankAccounts_spec accounts now previousPinId activeLoad model).1]
  exact sortBy_perm _ _

theorem ranked_lawful [Collation] (hnumeric : ∀ r ∈ recordsOf accounts now activeLoad model, r.Numeric) :
    (rankAccounts accounts now previousPinId activeLoad model).ranked =
      sortBy (lawful (recordsOf accounts now activeLoad model) previousPinId activeLoad)
        (recordsOf accounts now activeLoad model) := by
  rw [(rankAccounts_spec accounts now previousPinId activeLoad model).1]
  exact sortBy_congr fun a ha b hb => comparison_lawful (hnumeric a ha) (hnumeric b hb)

theorem ranked_pairwise [Collation] (hnumeric : ∀ r ∈ recordsOf accounts now activeLoad model, r.Numeric) :
    (rankAccounts accounts now previousPinId activeLoad model).ranked.Pairwise fun a b =>
      (lawful (recordsOf accounts now activeLoad model) previousPinId activeLoad a b).isLE = true := by
  rw [ranked_lawful hnumeric]
  exact sortBy_pairwise _

def Record.candidate (r : Record) : Candidate Account := ⟨r.id, r.account⟩

theorem recordsOf_candidate [Collation] :
    (recordsOf accounts now activeLoad model).map Record.candidate = accounts := by
  apply List.ext_getElem
  · simp [recordsOf]
  · intro i hi hi'
    simp [recordsOf, toRecord, Record.candidate]

/-- Load does not spread, or the accounts under the pinned id are all usable, or all not. -/
def PinAgrees (accounts : List (Candidate Account)) (now : Int) (previousPinId : Option String)
    (activeLoad : Option (String → Load)) (model : String) : Prop :=
  activeLoad = none ∨ ∀ c ∈ accounts, ∀ c' ∈ accounts, some c.id = previousPinId → some c'.id = previousPinId →
    (Usable now model c ↔ Usable now model c')

theorem find?_map_perm {α β : Type*} {l l' : List α} (hperm : l.Perm l') {p : α → Bool} {f : α → β}
    (h : ∀ a ∈ l, ∀ b ∈ l, p a = true → p b = true → f a = f b) :
    (l.find? p).map f = (l'.find? p).map f := by
  cases hfound : l.find? p with
  | none =>
    have hnone : l'.find? p = none := by
      rw [List.find?_eq_none] at hfound ⊢
      exact fun a ha => hfound a (hperm.mem_iff.mpr ha)
    rw [hnone]
  | some a =>
    have ha := List.mem_of_find?_eq_some hfound
    have hpa := List.find?_some hfound
    cases hfound' : l'.find? p with
    | none => exact absurd hpa (List.find?_eq_none.mp hfound' a (hperm.mem_iff.mp ha))
    | some b =>
      exact congrArg some (h a ha b (hperm.mem_iff.mpr (List.mem_of_find?_eq_some hfound')) hpa (List.find?_some hfound'))

theorem find?_recordsOf [Collation] (accounts : List (Candidate Account)) (id : String) :
    ((recordsOf accounts now activeLoad model).find? fun r => decide (r.id = id)).map Record.usable =
      (accounts.find? fun c => decide (c.id = id)).map fun c => (toRecord now activeLoad model 0 c).usable := by
  have h := congrArg (fun rs : List Record => (rs.find? fun r => decide (r.id = id)).map Record.usable)
    (@recordsOf_unplaced accounts now activeLoad model _)
  simp only [List.find?_map, Option.map_map] at h
  exact h

/-- Another order of the accounts makes the same comparison. -/
theorem lawful_perm [Collation] (hperm : accounts.Perm accounts')
    (hpinned : PinAgrees accounts now previousPinId activeLoad model) :
    lawful (recordsOf accounts now activeLoad model) previousPinId activeLoad =
      lawful (recordsOf accounts' now activeLoad model) previousPinId activeLoad := by
  apply lawful_congr
  · rcases hpinned with rfl | hpinned
    · rfl
    apply spreadsByLoad_congr
    intro id hid
    rw [find?_recordsOf, find?_recordsOf]
    refine find?_map_perm hperm fun c hc c' hc' hcid hcid' => ?_
    rw [Bool.eq_iff_iff, usable_toRecord_iff, usable_toRecord_iff]
    exact hpinned c hc c' hc' (hid ▸ congrArg some (of_decide_eq_true hcid)) (hid ▸ congrArg some (of_decide_eq_true hcid'))
  · rw [← anyEvidence_unplaced, ← anyEvidence_unplaced (recordsOf accounts' now activeLoad model), recordsOf_unplaced,
      recordsOf_unplaced, anyEvidence, anyEvidence, (hperm.map _).any_eq]

/-- **The ranking depends on the accounts, not on their order**, up to ties
that only the place breaks. -/
theorem ranked_tied [Collation] (hperm : accounts.Perm accounts')
    (hpinned : PinAgrees accounts now previousPinId activeLoad model)
    (hnumeric : ∀ r ∈ recordsOf accounts now activeLoad model, r.Numeric)
    (hnumeric' : ∀ r ∈ recordsOf accounts' now activeLoad model, r.Numeric) :
    List.Forall₂
      (fun a b => comparison (recordsOf accounts now activeLoad model) previousPinId activeLoad a.unplaced b.unplaced = .eq)
      (rankAccounts accounts now previousPinId activeLoad model).ranked
      (rankAccounts accounts' now previousPinId activeLoad model).ranked := by
  have hsame := @lawful_perm accounts accounts' now previousPinId activeLoad model _ hperm hpinned
  -- both rankings are sorted by the keys before the place
  have hsorted : ∀ l : List Record,
      (l.Pairwise fun a b => (lawful (recordsOf accounts now activeLoad model) previousPinId activeLoad a b).isLE = true) →
      (l.map Record.unplaced).Pairwise fun a b =>
        (lawful (recordsOf accounts now activeLoad model) previousPinId activeLoad a b).isLE = true := by
    intro l hl
    refine List.pairwise_map.mpr (hl.imp fun {a b} h => ?_)
    rw [lawful_unplaced] at h
    exact (Ordering.isLE_then_iff_and.mp h).1
  have hperm' : ((rankAccounts accounts now previousPinId activeLoad model).ranked.map Record.unplaced).Perm
      ((rankAccounts accounts' now previousPinId activeLoad model).ranked.map Record.unplaced) := by
    refine ((ranked_perm accounts now previousPinId activeLoad model).map _).trans ?_
    refine List.Perm.trans ?_ ((ranked_perm accounts' now previousPinId activeLoad model).map _).symm
    rw [recordsOf_unplaced, recordsOf_unplaced]
    exact hperm.map _
  have hties := forall₂_of_sorted hperm' (hsorted _ (ranked_pairwise hnumeric))
    (hsorted _ (hsame ▸ ranked_pairwise hnumeric'))
  have hties := List.forall₂_map_left_iff.mp (List.forall₂_map_right_iff.mp hties)
  rw [List.forall₂_iff_get] at hties ⊢
  refine ⟨hties.1, fun i hi hi' => ?_⟩
  have ha := hnumeric _ (mem_ranked.mp (List.get_mem _ ⟨i, hi⟩))
  have hb := hnumeric' _ (mem_ranked.mp (List.get_mem _ ⟨i, hi'⟩))
  rw [comparison_lawful ha.unplaced hb.unplaced]
  exact hties.2 i hi hi'

/-! ### Permutations of the windows -/

def SameWindows (c c' : Candidate Account) : Prop :=
  c.id = c'.id ∧ c.account.windows.Perm c'.account.windows ∧
    c'.account = { c.account with windows := c'.account.windows }

structure SameKeys (r r' : Record) : Prop where
  id : r.id = r'.id
  index : r.index = r'.index
  priority : r.priority = r'.priority
  usable : r.usable = r'.usable
  load : r.load = r'.load
  headroom : r.headroom = r'.headroom
  evidenceBand : r.evidenceBand = r'.evidenceBand
  band : r.band = r'.band
  evidence : r.windows.isEmpty = r'.windows.isEmpty
  deadline : ∀ horizon, r.deadline horizon = r'.deadline horizon

theorem mathMax_right_comm (x y z : WithBot Nat) :
    mathMax (mathMax x y) z = mathMax (mathMax x z) y := by
  cases x <;> cases y <;> cases z <;> simp [mathMax, max_right_comm]

theorem bandOf_perm {l l' : List ResolvedWindow} (h : l.Perm l') : bandOf l = bandOf l' := by
  have hcomm : LeftCommutative fun (w : ResolvedWindow) (worst : WithBot Nat) =>
      mathMax worst (CONFIDENCE_BAND w.confidence) := ⟨fun w w' n => mathMax_right_comm _ _ _⟩
  unfold bandOf
  rw [h.isEmpty_eq, h.foldr_eq 0]

theorem toRecord_sameKeys [Collation] {c c' : Candidate Account} (h : SameWindows c c')
    (index : Nat) :
    SameKeys (toRecord now activeLoad model index c) (toRecord now activeLoad model index c') := by
  obtain ⟨id, account⟩ := c
  obtain ⟨id', account'⟩ := c'
  obtain ⟨hid, hperm, haccount⟩ := h
  simp only at hid hperm haccount
  subst hid
  obtain ⟨horderable, hunreadable, husable, -⟩ := @resolveWindows_perm model now _ _ _ hperm
  have hgeneral := horderable.filter fun w => !w.isScoped
  have hsupport : accountSupportsModel account model = accountSupportsModel account' model := by
    rw [haccount]
    rfl
  refine ⟨rfl, rfl, ?_, ?_, rfl, ?_, ?_, bandOf_perm hgeneral, horderable.isEmpty_eq, fun horizon => ?_⟩
  · rw [toRecord, toRecord, haccount]
    rfl
  · simp only [toRecord]
    rw [husable, hsupport]
  · exact horderable.all_eq
  · simp only [toRecord, evidenceBandOf]
    rw [hgeneral.isEmpty_eq, hunreadable]
  · show deadlineIn _ horizon = deadlineIn _ horizon
    simp only [toRecord, deadlineIn_deadlinesOf]
    exact nearest_perm hgeneral horizon

theorem mem_horizons {r : Record} {horizon : WithBot ℚ} :
    horizon ∈ r.horizons ↔ r.deadline horizon ≠ ⊤ := by
  rw [Ne, show r.deadline horizon = deadlineIn r.deadlines horizon from rfl, deadlineIn_eq_top, not_not]
  rfl

theorem compareDeadlines_congr {a a' b b' : Record}
    (ha : ∀ horizon, a.deadline horizon = a'.deadline horizon)
    (hb : ∀ horizon, b.deadline horizon = b'.deadline horizon) :
    compareDeadlines a b = compareDeadlines a' b' := by
  have hks := descending_pairwise (a.horizons ++ b.horizons)
  have hsub : ∀ r : Record, r = a ∨ r = b → r.horizons ⊆ descending (a.horizons ++ b.horizons) := by
    rintro r (rfl | rfl) k hk
    · exact mem_descending.mpr (List.mem_append_left _ hk)
    · exact mem_descending.mpr (List.mem_append_right _ hk)
  rw [compareDeadlines_eq hks (hsub a (Or.inl rfl)) (hsub b (Or.inr rfl)),
    @compareDeadlines_eq a' b' _ hks (fun k hk => hsub a (Or.inl rfl) ?_) fun k hk => hsub b (Or.inr rfl) ?_]
  · apply compareAt_congr
    · intro k _
      rw [Record.bucket, Record.bucket, ha]
    · intro k _
      rw [Record.bucket, Record.bucket, hb]
  · rw [mem_horizons] at hk ⊢
    rwa [ha]
  · rw [mem_horizons] at hk ⊢
    rwa [hb]

theorem SameKeys.numeric {r r' : Record} (h : SameKeys r r')
    (hnumeric : r.Numeric) : r'.Numeric where
  band := h.band ▸ hnumeric.band
  horizons := by
    rw [mem_horizons, ← h.deadline, ← mem_horizons]
    exact hnumeric.horizons

theorem lawful_sameKeys {records records' : List Record}
    (h : List.Forall₂ SameKeys records records')
    {a a' b b' : Record} (ha : SameKeys a a') (hb : SameKeys b b') :
    lawful records previousPinId activeLoad a b = lawful records' previousPinId activeLoad a' b' := by
  have hspread : spreadsByLoad records previousPinId activeLoad = spreadsByLoad records' previousPinId activeLoad := by
    apply spreadsByLoad_congr
    intro id _
    clear ha hb
    induction h with
    | nil => rfl
    | @cons r r' rest rest' hr _ ih =>
      by_cases hid : r.id = id
      · rw [List.find?_cons_of_pos (by simpa using hid), List.find?_cons_of_pos (by simpa [← hr.id] using hid)]
        simp [hr.usable]
      · rw [List.find?_cons_of_neg (by simpa using hid), List.find?_cons_of_neg (by simpa [← hr.id] using hid), ih]
  have hevidence : anyEvidence records = anyEvidence records' := by
    unfold anyEvidence
    clear hspread ha hb
    induction h with
    | nil => rfl
    | cons hr _ ih => rw [List.any_cons, List.any_cons, hr.evidence, ih]
  rw [lawful_congr hspread hevidence]
  unfold lawful
  split
  all_goals
    simp only [byLawfulEvidence, byFallback, stickyThenDeclared, compareLex, compareOn, byHeadroom, byLoad, ha.id, hb.id,
      ha.index, hb.index, ha.priority, hb.priority, ha.usable, hb.usable, ha.load, hb.load, ha.headroom, hb.headroom,
      ha.evidenceBand, hb.evidenceBand, ha.band, hb.band, compareDeadlines_congr ha.deadline hb.deadline]

/-- **The order of the windows of an account is irrelevant.** -/
theorem ranked_windows [Collation] (h : List.Forall₂ SameWindows accounts accounts')
    (hnumeric : ∀ r ∈ recordsOf accounts now activeLoad model, r.Numeric) :
    (rankAccounts accounts now previousPinId activeLoad model).ranked.map Record.index =
      (rankAccounts accounts' now previousPinId activeLoad model).ranked.map Record.index := by
  have hrecords : List.Forall₂ SameKeys (recordsOf accounts now activeLoad model)
      (recordsOf accounts' now activeLoad model) := by
    rw [List.forall₂_iff_get] at h ⊢
    obtain ⟨hlength, hget⟩ := h
    refine ⟨by simp [recordsOf, hlength], fun i hi hi' => ?_⟩
    simp only [recordsOf, List.get_eq_getElem, List.getElem_mapIdx]
    apply toRecord_sameKeys
    exact hget i (by simpa [recordsOf] using hi) (by simpa [recordsOf] using hi')
  have hnumeric' : ∀ r ∈ recordsOf accounts' now activeLoad model, r.Numeric := by
    clear h
    generalize recordsOf accounts now activeLoad model = records at hrecords hnumeric
    generalize recordsOf accounts' now activeLoad model = records' at hrecords
    induction hrecords with
    | nil => exact fun r' hr' => absurd hr' List.not_mem_nil
    | cons hr _ ih =>
      rw [List.forall_mem_cons] at hnumeric ⊢
      exact ⟨hr.numeric hnumeric.1, ih hnumeric.2⟩
  have hsorted := forall₂_sortBy hrecords fun a a' b b' ha hb =>
    @lawful_sameKeys previousPinId activeLoad _ _ hrecords a a' b b' ha hb
  rw [ranked_lawful hnumeric, ranked_lawful hnumeric']
  exact List.forall₂_eq_eq_eq ▸ (List.forall₂_map_left_iff.mpr (List.forall₂_map_right_iff.mpr (hsorted.imp fun _ _ h => h.index)))

/-! ### Eligible accounts first -/

def EligibleFirst (ranked : List Record) : Prop := ranked.Pairwise fun a b => a.usable = false → b.usable = false

instance (ranked : List Record) : Decidable (EligibleFirst ranked) :=
  inferInstanceAs (Decidable (List.Pairwise _ _))

theorem recordsOf_eq_of_index [Collation] {a b : Record}
    (ha : a ∈ recordsOf accounts now activeLoad model)
    (hb : b ∈ recordsOf accounts now activeLoad model) (h : a.index = b.index) : a = b := by
  apply List.inj_on_of_nodup_map _ ha hb h
  rw [recordsOf_index]
  exact List.nodup_range

theorem precedes_of_lt {P : Record → Record → Prop} {cmp : Record → Record → Ordering}
    [Std.TransCmp cmp]
    {ranked : List Record} (hsorted : ranked.Pairwise fun a b => (cmp a b).isLE = true) (hP : ranked.Pairwise P)
    {a b : Record} (ha : a ∈ ranked) (hb : b ∈ ranked) (hlt : cmp a b = .lt) : P a b := by
  obtain ⟨i, hi, rfl⟩ := List.mem_iff_getElem.mp ha
  obtain ⟨j, hj, rfl⟩ := List.mem_iff_getElem.mp hb
  rcases Nat.lt_trichotomy i j with hij | hij | hij
  · exact List.pairwise_iff_getElem.mp hP i j hi hj hij
  · subst hij
    have hself : cmp ranked[i] ranked[i] = .eq := Std.ReflCmp.compare_self
    rw [hself] at hlt
    cases hlt
  · have hle := List.pairwise_iff_getElem.mp hsorted j i hj hi hij
    rw [Std.OrientedCmp.gt_of_lt hlt] at hle
    cases hle

theorem eligibleFirst_iff [Collation] (hnumeric : ∀ r ∈ recordsOf accounts now activeLoad model, r.Numeric) :
    EligibleFirst (rankAccounts accounts now previousPinId activeLoad model).ranked ↔
      ∀ a ∈ recordsOf accounts now activeLoad model, ∀ b ∈ recordsOf accounts now activeLoad model,
        a.usable = false → b.usable = true →
          lawful (recordsOf accounts now activeLoad model) previousPinId activeLoad b a = .lt := by
  have hsorted := @ranked_pairwise _ _ previousPinId _ _ _ hnumeric
  have hdistinct : ∀ a ∈ recordsOf accounts now activeLoad model, ∀ b ∈ recordsOf accounts now activeLoad model,
      a.usable = false → b.usable = true →
        lawful (recordsOf accounts now activeLoad model) previousPinId activeLoad a b ≠ .eq := by
    intro a ha b hb husable husable' htie
    rw [lawful_unplaced, Ordering.then_eq_eq, Nat.compare_eq_eq] at htie
    rw [recordsOf_eq_of_index ha hb htie.2, husable'] at husable
    cases husable
  constructor
  · intro hfirst a ha b hb husable husable'
    have hne := hdistinct a ha b hb husable husable'
    cases hcmp : lawful (recordsOf accounts now activeLoad model) previousPinId activeLoad a b with
    | gt => exact Std.OrientedCmp.lt_of_gt hcmp
    | eq => exact absurd hcmp hne
    | lt =>
      have hb' := precedes_of_lt hsorted hfirst (mem_ranked.mpr ha) (mem_ranked.mpr hb) hcmp husable
      rw [husable'] at hb'
      cases hb'
  · intro h
    refine List.Pairwise.imp_of_mem ?_ hsorted
    intro a b ha hb hle husable
    by_contra husable'
    rw [Bool.not_eq_false] at husable'
    have hlt := h a (mem_ranked.mp ha) b (mem_ranked.mp hb) husable husable'
    rw [Std.OrientedCmp.gt_of_lt hlt] at hle
    cases hle

/-! ### What the accounts must be like -/

/-- The general windows that carry a deadline name a confidence and a unit of their own, none that
every object inherits. -/
def NumbersOnly (accounts : List (Candidate Account)) (now : Int) (model : String) : Prop :=
  ∀ c ∈ accounts, ∀ w ∈ readable model c.account.windows, w.CarriesDeadline now → w.isScoped = false →
    w.horizonMs ≠ ⊥ ∧ w.confidence ≠ .inherited

def Dated (accounts : List (Candidate Account)) (now : Int) (model : String) : Prop :=
  ∃ c ∈ accounts, ∃ w ∈ readable model c.account.windows, w.CarriesDeadline now

/-- There are loads, and no pin, or the account found under the pinned id is gone or denied. -/
def PlacedAnew (accounts : List (Candidate Account)) (previousPinId : Option String)
    (activeLoad : Option (String → Load)) (model : String) : Prop :=
  activeLoad ≠ none ∧ ∀ id, previousPinId = some id → ∀ c, accounts.find? (fun c => c.id = id) = some c → HardBlocked model c

/-- The place of an account among those that only pin, priority and declaration tell apart. -/
def standing (previousPinId : Option String) (i : Nat)
    (c : Candidate Account) : Bool ×ₗ WithTop ℚ ×ₗ Nat :=
  toLex (decide (some c.id ≠ previousPinId), toLex (priorityOf c.account, i))

/-- Where no window carries a deadline, an account that is denied stands behind those that are not:
it has the greater load in a new placement, or the same and the later place. -/
def DeniedLast (accounts : List (Candidate Account)) (now : Int) (previousPinId : Option String)
    (activeLoad : Option (String → Load)) (model : String) : Prop :=
  Dated accounts now model ∨
    ∀ i c j c', accounts[i]? = some c → accounts[j]? = some c' → HardBlocked model c → ¬ HardBlocked model c' →
      (PlacedAnew accounts previousPinId activeLoad model ∧ loadOf activeLoad c'.id < loadOf activeLoad c.id) ∨
      ((PlacedAnew accounts previousPinId activeLoad model → loadOf activeLoad c'.id = loadOf activeLoad c.id) ∧
        standing previousPinId j c' < standing previousPinId i c)

theorem bandOf_ne_bot {l : List ResolvedWindow}
    (h : ∀ w ∈ l, w.confidence ≠ .inherited) : bandOf l ≠ ⊥ := by
  have hfold : l.foldr (fun w worst => mathMax worst (CONFIDENCE_BAND w.confidence)) 0 ≠ ⊥ := by
    induction l with
    | nil => exact WithBot.coe_ne_bot
    | cons w l ih =>
      rw [List.forall_mem_cons] at h
      rw [List.foldr_cons]
      have hrest := ih h.2
      generalize l.foldr (fun w worst => mathMax worst (CONFIDENCE_BAND w.confidence)) 0 = worst at hrest ⊢
      cases worst with
      | bot => exact absurd rfl hrest
      | coe worst =>
        cases hw : w.confidence with
        | inherited => exact absurd hw h.1
        | fresh | stale | unknown => exact WithBot.coe_ne_bot
  unfold bandOf
  split
  · exact WithBot.coe_ne_bot
  · exact hfold

theorem nearest_eq_top {windows : List ResolvedWindow} {horizon : WithBot ℚ}
    (h : ∀ w ∈ windows, w.horizonMs ≠ horizon) :
    nearest windows horizon = ⊤ := by
  induction windows with
  | nil => rfl
  | cons w windows ih =>
    rw [List.forall_mem_cons] at h
    exact (if_neg h.1).trans (ih h.2)

/-- A window that is listed comes from one that was read and carries a deadline. -/
theorem of_mem_orderable [Collation] {windows : List (Option RawWindow)} {r : ResolvedWindow}
    (h : r ∈ (resolveWindows (normalizeAccountWindows windows model) now).orderable) :
    r.toWindow ∈ readable model windows ∧ r.CarriesDeadline now := by
  obtain ⟨w, hw, hr⟩ := mem_orderable.mp h
  have hdeadline : w.CarriesDeadline now := by
    by_contra hnone
    rw [resolveWindow_eq_none.mpr hnone] at hr
    cases hr
  obtain ⟨_, -, rfl⟩ := Option.map_eq_some_iff.mp hr
  exact ⟨hw, hdeadline⟩

theorem numeric_of_numbersOnly [Collation] (h : NumbersOnly accounts now model) :
    ∀ r ∈ recordsOf accounts now activeLoad model, r.Numeric := by
  intro r hr
  obtain ⟨c, hc, hrecord⟩ := mem_recordsOf.mp hr
  have hgeneral : ∀ w ∈ (resolveWindows (normalizeAccountWindows c.account.windows model) now).orderable.filter
      (fun w => !w.isScoped), w.horizonMs ≠ ⊥ ∧ w.confidence ≠ .inherited := by
    intro w hw
    rw [List.mem_filter, Bool.not_eq_true'] at hw
    obtain ⟨hread, hdeadline⟩ := of_mem_orderable hw.1
    exact h c (List.mem_of_getElem? hc) w.toWindow hread hdeadline hw.2
  rw [hrecord]
  refine ⟨bandOf_ne_bot fun w hw => (hgeneral w hw).2, ?_⟩
  rw [mem_horizons, not_not]
  show deadlineIn (deadlinesOf _) ⊥ = ⊤
  rw [deadlineIn_deadlinesOf]
  exact nearest_eq_top fun w hw => (hgeneral w hw).1

theorem anyEvidence_iff [Collation] :
    anyEvidence (recordsOf accounts now activeLoad model) = true ↔ Dated accounts now model := by
  unfold anyEvidence Dated
  rw [List.any_eq_true]
  constructor
  · rintro ⟨r, hr, hsome⟩
    obtain ⟨c, hc, hrecord⟩ := mem_recordsOf.mp hr
    rw [hrecord, Bool.not_eq_true', List.isEmpty_eq_false_iff_exists_mem] at hsome
    obtain ⟨w, hw⟩ := hsome
    obtain ⟨hread, hdeadline⟩ := of_mem_orderable hw
    exact ⟨c, List.mem_of_getElem? hc, w.toWindow, hread, hdeadline⟩
  · rintro ⟨c, hc, w, hread, hdeadline⟩
    obtain ⟨i, hi⟩ := List.mem_iff_getElem?.mp hc
    refine ⟨toRecord now activeLoad model i c, toRecord_mem hi, ?_⟩
    rw [Bool.not_eq_true', List.isEmpty_eq_false_iff_exists_mem]
    obtain ⟨r, hr⟩ := Option.ne_none_iff_exists'.mp fun hnone => resolveWindow_eq_none.mp hnone hdeadline
    exact ⟨r, mem_orderable.mpr ⟨w, hread, hr⟩⟩

/-! ### The guarantees -/

structure WellDefined [Collation] (accounts : List (Candidate Account)) (now : Int)
    (previousPinId : Option String)
    (activeLoad : Option (String → Load)) (model : String) : Prop where
  /-- the comparison is a strict weak order of the accounts -/
  order : IsStrictWeakOrder {r // r ∈ recordsOf accounts now activeLoad model} fun a b =>
    comparison (recordsOf accounts now activeLoad model) previousPinId activeLoad a.1 b.1 = .lt
  /-- the ranking lists the accounts, each once -/
  perm : ((rankAccounts accounts now previousPinId activeLoad model).ranked.map Record.candidate).Perm accounts
  /-- the same accounts in another order are ranked the same, up to
  ties that only the place breaks -/
  arrangement : ∀ accounts', accounts.Perm accounts' →
    List.Forall₂
      (fun a b => comparison (recordsOf accounts now activeLoad model) previousPinId activeLoad a.unplaced b.unplaced = .eq)
      (rankAccounts accounts now previousPinId activeLoad model).ranked
      (rankAccounts accounts' now previousPinId activeLoad model).ranked
  /-- the windows of each account may be in any order -/
  windows : ∀ accounts', List.Forall₂ SameWindows accounts accounts' →
    (rankAccounts accounts now previousPinId activeLoad model).ranked.map Record.index =
      (rankAccounts accounts' now previousPinId activeLoad model).ranked.map Record.index
  eligibleFirst : EligibleFirst (rankAccounts accounts now previousPinId activeLoad model).ranked

theorem comparison_strictWeak [Collation] (hnumeric : ∀ r ∈ recordsOf accounts now activeLoad model, r.Numeric) :
    IsStrictWeakOrder {r // r ∈ recordsOf accounts now activeLoad model} fun a b =>
      comparison (recordsOf accounts now activeLoad model) previousPinId activeLoad a.1 b.1 = .lt := by
  have hlawful : Std.TransCmp fun a b : {r // r ∈ recordsOf accounts now activeLoad model} =>
      lawful (recordsOf accounts now activeLoad model) previousPinId activeLoad a.1 b.1 :=
    { eq_swap := Std.OrientedCmp.eq_swap, isLE_trans := Std.TransCmp.isLE_trans }
  simp only [fun a b : {r // r ∈ recordsOf accounts now activeLoad model} =>
    @comparison_lawful (recordsOf accounts now activeLoad model) previousPinId activeLoad a.1 b.1 (hnumeric a.1 a.2)
      (hnumeric b.1 b.2)]
  exact isStrictWeakOrder_of_transCmp

/-- An account whose windows carry no deadline is usable just when it is not denied. -/
theorem usable_iff_of_not_dated (h : ¬ Dated accounts now model) {c : Candidate Account}
    (hc : c ∈ accounts) :
    Usable now model c ↔ ¬ HardBlocked model c :=
  and_iff_left fun w hw hexhausted => h ⟨c, hc, w, hw, Or.inl hexhausted.2⟩

theorem spreadsByLoad_iff [Collation] (h : ¬ Dated accounts now model) :
    spreadsByLoad (recordsOf accounts now activeLoad model) previousPinId activeLoad = true ↔
      PlacedAnew accounts previousPinId activeLoad model := by
  unfold spreadsByLoad PlacedAnew
  rw [Bool.and_eq_true, Option.isSome_iff_ne_none]
  refine and_congr_right fun _ => ?_
  cases previousPinId with
  | none => simp
  | some id =>
    have hfind := @find?_recordsOf now activeLoad model _ accounts id
    simp only [Option.some.injEq, forall_eq']
    cases hfound : accounts.find? fun c => decide (c.id = id) with
    | none =>
      rw [hfound, Option.map_none, Option.map_eq_none_iff] at hfind
      simp [hfind]
    | some c =>
      rw [hfound, Option.map_some] at hfind
      obtain ⟨r, hr, husable⟩ := Option.map_eq_some_iff.mp hfind
      have hc := List.mem_of_find?_eq_some hfound
      have hdenied := (@usable_toRecord_iff _ now activeLoad model 0 c).trans (usable_iff_of_not_dated h hc)
      simp only [hr, husable, Option.some.injEq, forall_eq', Bool.not_eq_true', ← Bool.not_eq_true, hdenied, not_not]

/-- The comparison without evidence, on accounts. -/
theorem byFallback_lt_iff {spreadByLoad : Bool} {a b : Record} (h : a.headroom = b.headroom) :
    byFallback spreadByLoad previousPinId a b = .lt ↔
      (spreadByLoad = true ∧ a.load < b.load) ∨ ((spreadByLoad = true → a.load = b.load) ∧
        toLex (decide (some a.id ≠ previousPinId), toLex (a.priority, a.index)) <
          toLex (decide (some b.id ≠ previousPinId), toLex (b.priority, b.index))) := by
  have hkeys : byFallback spreadByLoad previousPinId a b =
      (byLoad spreadByLoad a b).then (stickyThenDeclared previousPinId a b) := by
    cases spreadByLoad <;> simp [byFallback, compareLex, byHeadroom, h]
  rw [hkeys, Ordering.then_eq_lt]
  simp only [stickyThenDeclared, compareLex, compareOn, Ordering.then_eq_lt, compare_lt_iff_lt, compare_eq_iff_eq,
    Prod.Lex.toLex_lt_toLex]
  cases spreadByLoad <;> simp [byLoad, compare_lt_iff_lt]

/-- **Eligible accounts come first** in a list of accounts whose windows carry no deadline, just
when the denied ones stand behind. -/
theorem eligibleFirst_iff_deniedLast [Collation] (h : ¬ Dated accounts now model) :
    EligibleFirst (rankAccounts accounts now previousPinId activeLoad model).ranked ↔
      DeniedLast accounts now previousPinId activeLoad model := by
  have hnumeric : ∀ r ∈ recordsOf accounts now activeLoad model, r.Numeric :=
    numeric_of_numbersOnly fun c hc w hw hdeadline => absurd ⟨c, hc, w, hw, hdeadline⟩ h
  have hnone : anyEvidence (recordsOf accounts now activeLoad model) = false := by
    rw [← Bool.not_eq_true, anyEvidence_iff]
    exact h
  have hheadroom : ∀ i c, accounts[i]? = some c → (toRecord now activeLoad model i c).headroom = true := by
    intro i c hc
    have hempty := List.any_eq_false.mp hnone _ (toRecord_mem hc)
    simp only [Bool.not_eq_true', Bool.not_eq_false, List.isEmpty_iff, toRecord] at hempty
    simp [toRecord, hempty, hasHeadroom]
  have husable : ∀ i c, accounts[i]? = some c →
      ((toRecord now activeLoad model i c).usable = true ↔ ¬ HardBlocked model c) := fun i c hc =>
    usable_toRecord_iff.trans (usable_iff_of_not_dated h (List.mem_of_getElem? hc))
  rw [eligibleFirst_iff hnumeric]
  unfold DeniedLast lawful
  rw [or_iff_right h, ← spreadsByLoad_iff h]
  simp only [hnone, Bool.false_eq_true, if_false]
  constructor
  · intro hfirst i c j c' hc hc' hdenied hnot
    have hlt := hfirst _ (toRecord_mem hc) _ (toRecord_mem hc')
      (Bool.not_eq_true _ ▸ mt (husable i c hc).mp (not_not.mpr hdenied)) ((husable j c' hc').mpr hnot)
    exact (byFallback_lt_iff ((hheadroom j c' hc').trans (hheadroom i c hc).symm)).mp hlt
  · intro hlast a ha b hb hausable hbusable
    obtain ⟨c, hc, hac⟩ := mem_recordsOf.mp ha
    obtain ⟨c', hc', hbc⟩ := mem_recordsOf.mp hb
    generalize a.index = i at hc hac
    generalize b.index = j at hc' hbc
    subst hac hbc
    refine (byFallback_lt_iff ((hheadroom j c' hc').trans (hheadroom i c hc).symm)).mpr (hlast i c j c' hc hc' ?_ ?_)
    · rw [← not_not (a := HardBlocked model c), ← husable i c hc, Bool.not_eq_true]
      exact hausable
    · exact (husable j c' hc').mp hbusable

/-- **When `rankAccounts` is a well-defined order**: where the confidences and units are the code's
own, the accounts under the pinned id agree on being usable, and a denied account stands last where
no window carries a deadline. The last is needed, whatever the numbers. -/
theorem rankAccounts_wellDefined [Collation] (accounts : List (Candidate Account)) (now : Int)
    (previousPinId : Option String) (activeLoad : Option (String → Load)) (model : String) :
    (NumbersOnly accounts now model ∧ PinAgrees accounts now previousPinId activeLoad model ∧
        DeniedLast accounts now previousPinId activeLoad model →
      WellDefined accounts now previousPinId activeLoad model) ∧
    (WellDefined accounts now previousPinId activeLoad model →
      DeniedLast accounts now previousPinId activeLoad model) := by
  constructor
  · rintro ⟨hnumbers, hpinned, hlast⟩
    have hnumeric := @numeric_of_numbersOnly _ _ activeLoad _ _ hnumbers
    refine ⟨comparison_strictWeak hnumeric, ?_, fun accounts' hperm => ?_, fun _ h => ranked_windows h hnumeric, ?_⟩
    · have hperm := (ranked_perm accounts now previousPinId activeLoad model).map Record.candidate
      rwa [recordsOf_candidate] at hperm
    · refine ranked_tied hperm hpinned hnumeric (numeric_of_numbersOnly fun c hc => ?_)
      exact hnumbers c (hperm.mem_iff.mpr hc)
    · by_cases hdated : Dated accounts now model
      · rw [eligibleFirst_iff hnumeric]
        intro a _ b _ husable husable'
        unfold lawful
        rw [if_pos (anyEvidence_iff.mpr hdated)]
        show (compare (!b.usable) (!a.usable)).then _ = .lt
        rw [husable, husable']
        rfl
      · exact (eligibleFirst_iff_deniedLast hdated).mpr hlast
  · intro h
    by_cases hdated : Dated accounts now model
    · exact Or.inl hdated
    · exact (eligibleFirst_iff_deniedLast hdated).mp h.eligibleFirst

@[reducible] def byCodePoint : Collation := ⟨compare⟩

attribute [local instance] byCodePoint

-- A band that is no number ties with two that are in order.
example :
    let accounts := [Confidence.fresh, .inherited, .stale].map fun confidence => (⟨"a", ⟨"claude", none, none,
      [some ⟨"weekly (7d)", .finite 1, .finite 100, some 604800000, confidence⟩], []⟩⟩ : Candidate Account)
    let records := recordsOf accounts 0 none ""
    (records.map fun a => records.map (comparison records none none a)) =
      [[.eq, .eq, .lt], [.eq, .eq, .eq], [.gt, .eq, .eq]] := by
  decide +kernel

/-- An account whose weekly limit is stated to be zero, and one that nothing is known about. -/
def deniedAndUnknown : List (Candidate Account) :=
  [⟨"denied", ⟨"claude", none, none, [some ⟨"weekly (7d)", .finite 0, .finite 0, some 604800000, .fresh⟩], []⟩⟩,
    ⟨"unknown", ⟨"claude", none, none, [], []⟩⟩]

theorem deniedAndUnknown_order :
    (rankAccounts deniedAndUnknown 0 none none "").ranked.map (fun r => (r.id, r.usable)) =
      [("denied", false), ("unknown", true)] ∧ ¬ WellDefined deniedAndUnknown 0 none none "" := by
  have hranked : (rankAccounts deniedAndUnknown 0 none none "").ranked.map (fun r => (r.id, r.usable)) =
      [("denied", false), ("unknown", true)] := by decide +kernel
  refine ⟨hranked, fun h => ?_⟩
  have hfirst : ((rankAccounts deniedAndUnknown 0 none none "").ranked.map fun r => (r.id, r.usable)).Pairwise
      fun a b => a.2 = false → b.2 = false := List.pairwise_map.mpr h.eligibleFirst
  rw [hranked] at hfirst
  simp at hfirst

end TokenProxy.Ranking
