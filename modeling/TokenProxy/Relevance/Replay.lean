import TokenProxy.Lib.Runs
import TokenProxy.Relevance.EmbedReorder

/-!
# Replaying an order

The order of a run is the only one that is sorted by rank and place (`orderBy_unique`). A list that
grows keeps its runs, but for the last one, which may grow (`splitBy_append_pieces`), so a replay
keeps the earlier region when the memo puts no newer pair of a run in front of one from it.
-/

namespace TokenProxy.Relevance

open Lib

universe u v w

/-! ### Sorted runs -/

section Sorted

variable {K : Type v} [LinearOrder K] {rank : Pair → K}

/-- `p` is not behind `q`. -/
def Before (rank : Pair → K) (p q : Pair) : Prop := rank p < rank q ∨ rank p = rank q ∧ p.start ≤ q.start

theorem notAfter_iff {p q : Pair} : notAfter rank p q = true ↔ Before rank p q := by
  unfold notAfter Before
  rcases lt_trichotomy (rank p) (rank q) with h | h | h
  · rw [if_pos h]
    exact iff_of_true rfl (Or.inl h)
  · rw [h, if_neg (lt_irrefl _), if_neg (lt_irrefl _), decide_eq_true_eq]
    exact ⟨fun hle => Or.inr ⟨rfl, hle⟩, fun hb => hb.elim (fun hlt => absurd hlt (lt_irrefl _)) And.right⟩
  · rw [if_neg (not_lt.mpr h.le), if_pos h]
    refine iff_of_false (by decide) ?_
    rintro (hlt | ⟨heq, -⟩)
    · exact absurd hlt (not_lt.mpr h.le)
    · exact absurd heq (ne_of_gt h)

theorem Before.refl (p : Pair) : Before rank p p := Or.inr ⟨rfl, Nat.le_refl _⟩

theorem Before.trans {p q r : Pair} (hpq : Before rank p q)
    (hqr : Before rank q r) : Before rank p r := by
  rcases hpq with hpq | ⟨hpq, hle⟩ <;> rcases hqr with hqr | ⟨hqr, hle'⟩
  · exact Or.inl (lt_trans hpq hqr)
  · exact Or.inl (hqr ▸ hpq)
  · exact Or.inl (hpq ▸ hqr)
  · exact Or.inr ⟨hpq.trans hqr, Nat.le_trans hle hle'⟩

theorem Before.total (p q : Pair) : Before rank p q ∨ Before rank q p := by
  rcases lt_trichotomy (rank p) (rank q) with h | h | h
  · exact Or.inl (Or.inl h)
  · rcases Nat.le_total p.start q.start with hle | hle
    · exact Or.inl (Or.inr ⟨h, hle⟩)
    · exact Or.inr (Or.inr ⟨h.symm, hle⟩)
  · exact Or.inr (Or.inl h)

theorem Before.start_eq {p q : Pair} (hpq : Before rank p q)
    (hqp : Before rank q p) : p.start = q.start := by
  rcases hpq with hpq | ⟨heq, hle⟩ <;> rcases hqp with hqp | ⟨heq', hle'⟩
  · exact absurd hpq (lt_asymm hqp)
  · exact absurd hpq (heq' ▸ lt_irrefl _)
  · exact absurd hqp (heq ▸ lt_irrefl _)
  · omega

theorem orderBy_pairwise (rank : Pair → K) (run : List Pair) :
    (orderBy rank run).Pairwise (Before rank) := by
  have htrans : IsTrans Pair fun p q => notAfter rank p q = true :=
    ⟨fun _ _ _ hpq hqr => notAfter_iff.mpr ((notAfter_iff.mp hpq).trans (notAfter_iff.mp hqr))⟩
  have htotal : Std.Total fun p q => notAfter rank p q = true :=
    ⟨fun p q => (Before.total p q).imp notAfter_iff.mpr notAfter_iff.mpr⟩
  exact (List.pairwise_insertionSort (fun p q => notAfter rank p q = true) run).imp notAfter_iff.mp

def Distinct (pairs : List Pair) : Prop := ∀ p ∈ pairs, ∀ q ∈ pairs, p.start = q.start → p = q

/-- **The order of a run is the only sorted one.** -/
theorem orderBy_unique {run sorted : List Pair} (hdistinct : Distinct run) (hperm : sorted.Perm run)
    (hsorted : sorted.Pairwise (Before rank)) :
    orderBy rank run = sorted := by
  refine List.Perm.eq_of_pairwise (fun p q hp hq hpq hqp => ?_) (orderBy_pairwise rank run) hsorted ((permutes_orderBy rank run).trans hperm.symm)
  exact hdistinct p ((permutes_orderBy rank run).subset hp) q (hperm.subset hq) (hpq.start_eq hqp)

end Sorted

theorem take_orderBy_iff {K : Type v} {L : Type w} [LinearOrder K] [LinearOrder L]
    {early : Pair → K} {late : Pair → L} {run front back : List Pair}
    (hdistinct : Distinct run) (hperm : (front ++ back).Perm run) (hsorted : (front ++ back).Pairwise (Before early)) :
    (orderBy late run).take front.length = front ↔ ∀ p ∈ front, ∀ q ∈ run, Before early p q → Before late p q := by
  have hfront : ∀ p ∈ front, p ∈ run := fun p hp => hperm.subset (List.mem_append_left _ hp)
  rw [List.pairwise_append] at hsorted
  obtain ⟨hfrontSorted, -, hacross⟩ := hsorted
  constructor
  · intro htake p hp q hq hpq
    have hlate := orderBy_pairwise late run
    rw [← List.take_append_drop front.length (orderBy late run), htake, List.pairwise_append] at hlate
    obtain ⟨hfrontLate, -, hacrossLate⟩ := hlate
    have hmem : q ∈ front ++ (orderBy late run).drop front.length := by
      have hq' := (permutes_orderBy late run).symm.subset hq
      rwa [← List.take_append_drop front.length (orderBy late run), htake] at hq'
    rcases List.mem_append.mp hmem with hqFront | hqBack
    · have hbackwards : front.Pairwise (flip fun a b => Before early a b → Before late a b) := by
        refine hfrontSorted.imp_of_mem fun {a b} ha hb hab hba => ?_
        rw [hdistinct a (hfront a ha) b (hfront b hb) (hab.start_eq hba)]
        exact Before.refl b
      have hforwards : front.Pairwise fun a b => Before early a b → Before late a b := by
        refine hfrontLate.imp ?_
        intro a b hab _
        exact hab
      exact List.Pairwise.forall_of_forall_of_flip (fun a _ _ => Before.refl a) hforwards hbackwards hp hqFront hpq
    · exact hacrossLate p hp q hqBack
  · intro h
    have hsplit : orderBy late run = front ++ orderBy late back := by
      refine orderBy_unique hdistinct (((permutes_orderBy late back).append_left front).trans hperm) ?_
      refine List.pairwise_append.mpr ⟨hfrontSorted.imp_of_mem fun {a b} ha hb hab => h a ha b (hfront b hb) hab, orderBy_pairwise late back, ?_⟩
      intro p hp q hq
      have hqBack := (permutes_orderBy late back).subset hq
      exact h p hp q (hperm.subset (List.mem_append_right _ hqBack)) (hacross p hp q hqBack)
    rw [hsplit, List.take_left]

/-! ### Where the pairs of a call are -/

/-- The source of each position: the messages of a call, with the positions in their place. -/
def placed (length : ℕ) (pairs : List Pair) (orderFor : List Pair → List Pair) : List ℕ :=
  PairMove.applyAll (List.range length) (movesOf (runsOf pairs) orderFor)

theorem RegionPairs.distinct {lower upper : ℕ} {pairs : List Pair}
    (h : RegionPairs lower upper pairs) : Distinct pairs := by
  intro p hp q hq heq
  have hapart : pairs.Pairwise fun p q => p.start = q.start → p = q := h.apart.imp fun hle heq => by omega
  have hflip : pairs.Pairwise (flip fun p q : Pair => p.start = q.start → p = q) :=
    h.apart.imp fun hle heq => by omega
  exact List.Pairwise.forall_of_forall_of_flip (fun _ _ _ => rfl) hapart hflip hp hq heq

theorem RegionPairs.apart_of_ne {lower upper : ℕ} {pairs : List Pair}
    (h : RegionPairs lower upper pairs) {p q : Pair} (hp : p ∈ pairs)
    (hq : q ∈ pairs) (hne : p ≠ q) : p.start + 2 ≤ q.start ∨ q.start + 2 ≤ p.start := by
  have hapart : pairs.Pairwise fun p q => p ≠ q → p.start + 2 ≤ q.start ∨ q.start + 2 ≤ p.start :=
    h.apart.imp fun hle _ => Or.inl hle
  have hflip : pairs.Pairwise (flip fun p q : Pair => p ≠ q → p.start + 2 ≤ q.start ∨ q.start + 2 ≤ p.start) :=
    h.apart.imp fun hle _ => Or.inr hle
  exact List.Pairwise.forall_of_forall_of_flip (fun _ _ hne => absurd rfl hne) hapart hflip hp hq hne

theorem mem_of_mem_group {pairs group : List Pair} (hgroup : group ∈ pairs.splitBy follows)
    {p : Pair} (hp : p ∈ group) : p ∈ pairs := by
  rw [← List.flatten_splitBy follows pairs]
  exact List.mem_flatten.mpr ⟨group, hgroup, hp⟩

theorem group_sublist {pairs group : List Pair}
    (hgroup : group ∈ pairs.splitBy follows) : group.Sublist pairs := by
  have hsub := List.sublist_flatten_of_mem hgroup
  rwa [List.flatten_splitBy] at hsub

theorem group_eq {lower upper : ℕ} {pairs group other : List Pair}
    (h : RegionPairs lower upper pairs) (hgroup : group ∈ pairs.splitBy follows)
    (hother : other ∈ pairs.splitBy follows) {p : Pair} (hp : p ∈ group) (hp' : p ∈ other) :
    group = other := by
  have hnodup : (pairs.splitBy follows).flatten.Nodup := by
    rw [List.flatten_splitBy]
    exact h.apart.imp fun hle heq => by rw [heq] at hle; omega
  have hdisjoint := (List.nodup_flatten.mp hnodup).2
  have hapart : (pairs.splitBy follows).Pairwise fun g g' => p ∈ g → p ∈ g' → g = g' :=
    hdisjoint.imp fun hd hg hg' => absurd hg' (hd hg)
  have hflip : (pairs.splitBy follows).Pairwise (flip fun g g' : List Pair => p ∈ g → p ∈ g' → g = g') :=
    hdisjoint.imp fun hd hg hg' => absurd hg (hd hg')
  exact List.Pairwise.forall_of_forall_of_flip (fun _ _ _ _ => rfl) hapart hflip hgroup hother hp hp'

section Placed

variable {lower upper length : ℕ} {pairs : List Pair} {orderFor : List Pair → List Pair}

theorem placed_outside (hperm : Permutes orderFor) {i : ℕ} (hi : i < length)
    (h : ∀ p ∈ pairs, i ≠ p.start ∧ i ≠ p.start + 1) :
    (placed length pairs orderFor)[i]? = some i := by
  rw [placed, Rearranges.getElem?_untouched, List.getElem?_range hi]
  intro move hmem htouch
  have hslot : move.slot ∈ (runsOf pairs).flatten.map Pair.start := by
    rw [← slots_movesOf _ hperm]
    exact List.mem_map_of_mem hmem
  obtain ⟨p, hp, heq⟩ := List.mem_map.mp hslot
  have := h p ((flatten_runsOf_sublist pairs).subset hp)
  unfold PairMove.Touches at htouch
  omega

theorem mem_movesOf {runs : List (List Pair)} {run : List Pair} (hrun : run ∈ runs) {j : ℕ}
    {slot source : Pair} (hslot : run[j]? = some slot)
    (hsource : (orderFor run)[j]? = some source) :
    (⟨slot.start, source.start⟩ : PairMove) ∈ movesOf runs orderFor := by
  refine List.mem_flatMap.mpr ⟨run, hrun, List.mem_map.mpr ⟨(slot, source), ?_, rfl⟩⟩
  refine List.mem_of_getElem? (i := j) ?_
  rw [List.getElem?_zip_eq_some]
  exact ⟨hslot, hsource⟩

/-- **What stands at the place of a pair of a group**; a group of one pair stays. -/
theorem placed_group (hregion : RegionPairs lower upper pairs) (hlength : upper ≤ length)
    (hperm : Permutes orderFor) {group : List Pair}
    (hgroup : group ∈ pairs.splitBy follows) {j : ℕ} {slot source : Pair} (hslot : group[j]? = some slot) (hsource : (orderFor group)[j]? = some source) :
    (placed length pairs orderFor)[slot.start]? = some source.start ∧ (placed length pairs orderFor)[slot.start + 1]? = some (source.start + 1) := by
  have hmem := mem_of_mem_group hgroup (List.mem_of_getElem? hslot)
  have hmemSource := mem_of_mem_group hgroup ((hperm group).subset (List.mem_of_getElem? hsource))
  have hbounds := hregion.bounds slot hmem
  have hboundsSource := hregion.bounds source hmemSource
  by_cases htwo : 2 ≤ group.length
  · have hrun : group ∈ runsOf pairs := List.mem_filter.mpr ⟨hgroup, decide_eq_true htwo⟩
    have hrearranges : Rearranges (List.range length).length (movesOf (runsOf pairs) orderFor) := by
      rw [List.length_range]
      exact (rearranges_movesOf hregion hperm).mono hlength
    obtain ⟨hfirst, hsecond⟩ := hrearranges.getElem?_slots (mem_movesOf hrun hslot hsource)
    simp only at hfirst hsecond
    rw [List.getElem?_range (by omega)] at hfirst hsecond
    exact ⟨hfirst, hsecond⟩
  · have hj := (List.getElem?_eq_some_iff.mp hslot).1
    have hone : group = [slot] := by
      obtain ⟨x, rfl⟩ := List.length_eq_one_iff.mp (show group.length = 1 by omega)
      have hj0 : j = 0 := by simpa using hj
      rw [hj0] at hslot
      exact congrArg (fun y => [y]) (Option.some.inj hslot)
    have hsame : source = slot := by
      have := (hperm group).subset (List.mem_of_getElem? hsource)
      rw [hone] at this
      exact List.mem_singleton.mp this
    -- no move touches the place: the pairs of the other runs are apart from it
    have hout : ∀ i, i = slot.start ∨ i = slot.start + 1 → (placed length pairs orderFor)[i]? = some i := by
      intro i hi
      rw [placed, Rearranges.getElem?_untouched, List.getElem?_range (by omega)]
      intro move hmove htouch
      have hslotOf : move.slot ∈ (runsOf pairs).flatten.map Pair.start := by
        rw [← slots_movesOf _ hperm]
        exact List.mem_map_of_mem hmove
      obtain ⟨p, hp, heq⟩ := List.mem_map.mp hslotOf
      obtain ⟨other, hother, hpother⟩ := List.mem_flatten.mp hp
      obtain ⟨hotherGroup, htwoOther⟩ := List.mem_filter.mp hother
      have hne : p ≠ slot := by
        rintro rfl
        rw [group_eq hregion hotherGroup hgroup hpother (List.mem_of_getElem? hslot)] at htwoOther
        exact htwo (of_decide_eq_true htwoOther)
      have hapart := hregion.apart_of_ne ((flatten_runsOf_sublist pairs).subset hp) hmem hne
      unfold PairMove.Touches at htouch
      omega
    rw [hsame]
    exact ⟨hout _ (Or.inl rfl), hout _ (Or.inr rfl)⟩

end Placed

/-! ### A list that grows -/

theorem collectFrom_append (i : ℕ) (messages more : List Message) :
    ∃ newer, collectFrom i (messages ++ more) = collectFrom i messages ++ newer ∧ ∀ q ∈ newer, i + messages.length ≤ q.start + 1 := by
  induction i, messages using collectFrom.induct with
  | case1 i user assistant rest hpair ih =>
    obtain ⟨newer, heq, hbound⟩ := ih
    refine ⟨newer, ?_, fun q hq => ?_⟩
    · rw [List.cons_append, List.cons_append, collectFrom, if_pos hpair, heq, collectFrom,
        if_pos hpair, List.cons_append]
    · have := hbound q hq
      simp only [List.length_cons]
      omega
  | case2 i user assistant rest hpair ih =>
    obtain ⟨newer, heq, hbound⟩ := ih
    refine ⟨newer, ?_, fun q hq => ?_⟩
    · rw [List.cons_append, List.cons_append, collectFrom, if_neg hpair, ← List.cons_append, heq,
        collectFrom, if_neg hpair]
    · have := hbound q hq
      simp only [List.length_cons] at this ⊢
      omega
  | case3 messages i h =>
    have hnil : collectFrom i messages = [] := by rw [collectFrom]; exact h
    have hshort : messages.length ≤ 1 := by
      rcases messages with _ | ⟨user, _ | ⟨assistant, rest⟩⟩
      · exact Nat.zero_le 1
      · exact Nat.le_refl 1
      · exact absurd rfl (h user assistant rest)
    refine ⟨collectFrom i (messages ++ more), by rw [hnil, List.nil_append], fun q hq => ?_⟩
    have := (collectFrom_region i (messages ++ more)).bounds q hq
    omega

theorem histLen_le_append (messages more : List Message) (keepRecentTurns : ℕ) :
    histLen messages keepRecentTurns ≤ histLen (messages ++ more) keepRecentTurns := by
  cases more with
  | nil => rw [List.append_nil]
  | cons message more =>
    unfold histLen
    simp only [List.length_append, List.length_cons, Bool.and_eq_true, decide_eq_true_eq]
    split <;> split <;> omega

theorem collectPairs_append (messages more : List Message) (keepRecentTurns : ℕ) :
    ∃ newer, collectPairs (messages ++ more) (histLen (messages ++ more) keepRecentTurns) =
        collectPairs messages (histLen messages keepRecentTurns) ++ newer ∧
      ∀ q ∈ newer, histLen messages keepRecentTurns ≤ q.start + 1 := by
  have hle := histLen_le messages keepRecentTurns
  have hgrow := histLen_le_append messages more keepRecentTurns
  obtain ⟨rest, hrest⟩ : messages.take (histLen messages keepRecentTurns) <+: (messages ++ more).take (histLen (messages ++ more) keepRecentTurns) := by
    rw [← List.take_append_of_le_length hle]
    exact List.take_prefix_take_left hgrow
  obtain ⟨newer, heq, hbound⟩ := collectFrom_append 0 (messages.take (histLen messages keepRecentTurns)) rest
  refine ⟨newer, by rw [collectPairs, ← hrest, heq, collectPairs], fun q hq => ?_⟩
  have := hbound q hq
  rw [List.length_take, Nat.min_eq_left hle] at this
  omega

section Grow

variable {K : Type v} {L : Type w} [LinearOrder K] [LinearOrder L]

/-- The rank of a pair on the earlier call, which moved only the pairs
that are whole in its region. -/
def earlierRank (region : ℕ) (rank : Pair → K)
    (p : Pair) : WithTop K := if p.start + 1 < region then rank p else ⊤

theorem exists_split_at {pairs : List Pair} (h : pairs.Pairwise fun p q => p.start + 2 ≤ q.start)
    (region : ℕ) :
    ∃ front back, pairs = front ++ back ∧ (∀ p ∈ front, p.start < region) ∧ ∀ p ∈ back, region ≤ p.start := by
  induction pairs with
  | nil => exact ⟨[], [], rfl, by simp, by simp⟩
  | cons p pairs ih =>
    rw [List.pairwise_cons] at h
    by_cases hp : p.start < region
    · obtain ⟨front, back, rfl, hfront, hback⟩ := ih h.2
      exact ⟨p :: front, back, rfl, by simpa [hp] using hfront, hback⟩
    · refine ⟨[], p :: pairs, rfl, by simp, fun q hq => ?_⟩
      rcases List.mem_cons.mp hq with rfl | hq
      · omega
      · have := h.1 q hq
        omega

/-- A group of the longer list, in the order that the earlier call gave it: the slots in the earlier
region, and their sources there. -/
structure EarlierOrder (region length : ℕ) (pairs : List Pair) (early : Pair → K)
    (group : List Pair) where
  slots : List Pair
  sources : List Pair
  rest : List Pair
  group_eq : group = slots ++ rest
  perm : sources.Perm slots
  sorted : (sources ++ rest).Pairwise (Before (earlierRank region early))
  inside : ∀ p ∈ slots, p.start < region
  outside : ∀ p ∈ rest, region ≤ p.start
  placed : ∀ (j : ℕ) (slot source : Pair), slots[j]? = some slot → sources[j]? = some source →
    (placed length pairs (orderBy early))[slot.start]? = some source.start ∧
      (slot.start + 1 < region → (placed length pairs (orderBy early))[slot.start + 1]? = some (source.start + 1))

variable {region upper length : ℕ} {pairs newer : List Pair}

theorem exists_earlierOrder (hregion : RegionPairs 0 region pairs)
    (hgrown : RegionPairs 0 upper (pairs ++ newer))
    (hnewer : ∀ q ∈ newer, region ≤ q.start + 1) (hlength : region ≤ length) (early : Pair → K) {group : List Pair}
    (hgroup : group ∈ (pairs ++ newer).splitBy follows) :
    Nonempty (EarlierOrder region length pairs early group) := by
  obtain ⟨old, appended, rfl, hold, happended⟩ := (splitBy_append_pieces follows pairs newer).1 group hgroup
  have hapart := hgrown.apart.sublist (group_sublist hgroup)
  rw [List.pairwise_append] at hapart
  obtain ⟨holdApart, happendedApart, hacross⟩ := hapart
  obtain ⟨front, rest, rfl, hfront, hrest⟩ := exists_split_at happendedApart region
  have holdMem : ∀ p ∈ old, p ∈ pairs := by
    rcases hold with rfl | hold
    · simp
    · exact fun p hp => mem_of_mem_group hold hp
  have holdInside : ∀ p ∈ old, p.start + 1 < region := fun p hp => by
    have := (hregion.bounds p (holdMem p hp)).2
    omega
  have holdPerm := permutes_orderBy early old
  refine ⟨⟨old ++ front, orderBy early old ++ front, rest, by rw [List.append_assoc], holdPerm.append_right front, ?_, ?_, hrest, ?_⟩⟩
  · -- the old pairs are sorted by their ranks, and all others come behind them in their own order
    have htop : ∀ p ∈ front ++ rest, earlierRank region early p = ⊤ := fun p hp => if_neg (by
      have := hnewer p (happended hp)
      omega)
    have hranked : ∀ p ∈ orderBy early old, earlierRank region early p = early p :=
      fun p hp => if_pos (holdInside p (holdPerm.subset hp))
    rw [List.append_assoc, List.pairwise_append]
    refine ⟨(orderBy_pairwise early old).imp_of_mem ?_, happendedApart.imp_of_mem ?_, fun p hp q hq => ?_⟩
    · intro p q hp hq hpq
      unfold Before
      rw [hranked p hp, hranked q hq, WithTop.coe_lt_coe, WithTop.coe_inj]
      exact hpq
    · intro p q hp hq hpq
      exact Or.inr ⟨by rw [htop p hp, htop q hq], by omega⟩
    · refine Or.inl ?_
      rw [hranked p hp, htop q hq]
      exact WithTop.coe_lt_top _
  · intro p hp
    rcases List.mem_append.mp hp with hp | hp
    · have := holdInside p hp
      omega
    · exact hfront p hp
  · intro j slot source hslot hsource
    by_cases hj : j < old.length
    · rw [List.getElem?_append_left hj] at hslot
      rw [List.getElem?_append_left (by rw [holdPerm.length_eq]; exact hj)] at hsource
      have holdGroup : old ∈ pairs.splitBy follows := by
        rcases hold with rfl | hold
        · exact absurd hj (Nat.not_lt_zero j)
        · exact hold
      obtain ⟨hfirst, hsecond⟩ := placed_group hregion hlength (permutes_orderBy early) holdGroup hslot hsource
      exact ⟨hfirst, fun _ => hsecond⟩
    · -- a question at the end of the earlier region, whose answer is behind it
      rw [List.getElem?_append_right (by omega)] at hslot
      rw [List.getElem?_append_right (by rw [holdPerm.length_eq]; omega), holdPerm.length_eq] at hsource
      obtain rfl : slot = source := Option.some.inj (hslot.symm.trans hsource)
      have hmem := List.mem_of_getElem? hslot
      have hlast := hnewer slot (happended (List.mem_append_left _ hmem))
      have hbefore := hfront slot hmem
      have hgrownMem : slot ∈ pairs ++ newer := List.mem_append_right _ (happended (List.mem_append_left _ hmem))
      refine ⟨placed_outside (permutes_orderBy early) (by omega) fun p hp => ?_, fun h => absurd h (by omega)⟩
      have hpbounds := hregion.bounds p hp
      have hne : p ≠ slot := by
        rintro rfl
        omega
      have := hgrown.apart_of_ne (List.mem_append_left _ hp) hgrownMem hne
      omega

/-- **When a later call leaves the earlier region as it was.** -/
theorem placed_eq_iff {laterLength : ℕ} (hregion : RegionPairs 0 region pairs)
    (hgrown : RegionPairs 0 upper (pairs ++ newer))
    (hnewer : ∀ q ∈ newer, region ≤ q.start + 1) (hlength : region ≤ length) (hlater : upper ≤ laterLength) (hle : region ≤ laterLength)
    (early : Pair → K) (late : Pair → L) :
    (∀ i < region, (placed laterLength (pairs ++ newer) (orderBy late))[i]? = (placed length pairs (orderBy early))[i]?) ↔
      ∀ group ∈ (pairs ++ newer).splitBy follows, ∀ p ∈ group, ∀ q ∈ group, p.start < region →
        Before (earlierRank region early) p q → Before late p q := by
  have hdistinct := hgrown.distinct
  have horder := fun group (hgroup : group ∈ (pairs ++ newer).splitBy follows) => exists_earlierOrder hregion hgrown hnewer hlength early hgroup
  -- the sources agree on the slots of a group just when the order of its first pairs is the same
  have htake : ∀ group ∈ (pairs ++ newer).splitBy follows, ∀ order : EarlierOrder region length pairs early group,
      (orderBy late group).take order.sources.length = order.sources ↔
        ∀ p ∈ group, ∀ q ∈ group, p.start < region → Before (earlierRank region early) p q → Before late p q := by
    intro group hgroup order
    have hgroupDistinct : Distinct group := fun p hp q hq => hdistinct p (mem_of_mem_group hgroup hp) q (mem_of_mem_group hgroup hq)
    have hperm : (order.sources ++ order.rest).Perm group := by
      conv_rhs => rw [order.group_eq]
      exact order.perm.append_right _
    rw [take_orderBy_iff hgroupDistinct hperm order.sorted]
    refine ⟨fun h p hp q hq hstart => h p ?_ q hq, fun h p hp q hq => h p ?_ q hq ?_⟩
    · rw [order.group_eq] at hp
      rcases List.mem_append.mp hp with hp | hp
      · exact order.perm.symm.subset hp
      · have := order.outside p hp
        omega
    · exact hperm.subset (List.mem_append_left _ hp)
    · exact order.inside p (order.perm.subset hp)
  constructor
  · intro h group hgroup
    obtain ⟨order⟩ := horder group hgroup
    refine (htake group hgroup order).mp (List.ext_getElem? fun j => ?_)
    rw [List.getElem?_take]
    split
    · next hj =>
      have hslots : j < order.slots.length := order.perm.length_eq ▸ hj
      have hgroupSlot : group[j]? = some order.slots[j] := by
        conv_lhs => rw [order.group_eq]
        rw [List.getElem?_append_left hslots, List.getElem?_eq_getElem hslots]
      have hlateLength : j < (orderBy late group).length := by
        rw [(permutes_orderBy late group).length_eq]
        exact (List.getElem?_eq_some_iff.mp hgroupSlot).1
      have hsource := List.getElem?_eq_getElem hj
      have hlateSource := List.getElem?_eq_getElem hlateLength
      have hearly := (order.placed j _ _ (List.getElem?_eq_getElem hslots) hsource).1
      have hlate := (placed_group hgrown hlater (permutes_orderBy late) hgroup hgroupSlot hlateSource).1
      rw [h _ (order.inside _ (List.getElem_mem hslots)), hearly, Option.some.injEq] at hlate
      have hmemLate := (permutes_orderBy late group).subset (List.getElem_mem hlateLength)
      have hmemEarly : order.sources[j] ∈ group :=
        (List.Perm.of_eq order.group_eq).symm.subset (List.mem_append_left _ (order.perm.subset (List.getElem_mem hj)))
      rw [hlateSource, hsource, hdistinct _ (mem_of_mem_group hgroup hmemLate) _ (mem_of_mem_group hgroup hmemEarly) hlate.symm]
    · next hj => rw [List.getElem?_eq_none (by omega)]
  · intro h i hi
    by_cases htouched : ∃ p ∈ pairs ++ newer, i = p.start ∨ i = p.start + 1
    · obtain ⟨p, hp, hpi⟩ := htouched
      have hflat := hp
      rw [← List.flatten_splitBy follows (pairs ++ newer)] at hflat
      obtain ⟨group, hgroup, hpgroup⟩ := List.mem_flatten.mp hflat
      obtain ⟨order⟩ := horder group hgroup
      have hfront := (htake group hgroup order).mpr (h group hgroup)
      have hpslots : p ∈ order.slots := by
        rw [order.group_eq] at hpgroup
        rcases List.mem_append.mp hpgroup with hmem | hmem
        · exact hmem
        · have := order.outside p hmem
          omega
      obtain ⟨j, hslot⟩ := List.mem_iff_getElem?.mp hpslots
      have hj : j < order.sources.length := order.perm.length_eq ▸ (List.getElem?_eq_some_iff.mp hslot).1
      have hsource := List.getElem?_eq_getElem hj
      have hgroupSlot : group[j]? = some p := by
        rw [order.group_eq, List.getElem?_append_left (List.getElem?_eq_some_iff.mp hslot).1, hslot]
      have hlateSource : (orderBy late group)[j]? = some order.sources[j] := by
        rw [← hsource, ← hfront, List.getElem?_take, if_pos hj]
      have hearly := order.placed j p _ hslot hsource
      have hlate := placed_group hgrown hlater (permutes_orderBy late) hgroup hgroupSlot hlateSource
      rcases hpi with rfl | rfl
      · rw [hearly.1, hlate.1]
      · rw [hearly.2 hi, hlate.2]
    · have hout : ∀ p ∈ pairs ++ newer, i ≠ p.start ∧ i ≠ p.start + 1 := fun p hp =>
        ⟨fun heq => htouched ⟨p, hp, Or.inl heq⟩, fun heq => htouched ⟨p, hp, Or.inr heq⟩⟩
      rw [placed_outside (permutes_orderBy late) (by omega) hout,
        placed_outside (permutes_orderBy early) (by omega) fun p hp => hout p (List.mem_append_left _ hp)]

end Grow

/-! ### Two calls of a session -/

section Calls

variable {K : Type v} [LinearOrder K] {α : Type u}

def sources (options : Options K) (messages : List Message) : List ℕ :=
  PairMove.applyAll (List.range messages.length) (plan options messages).1

/-- Which pair a call has put first; pairs that are not whole in its region keep
their places behind the others. -/
def CameBefore (options : Options K) (messages : List Message) (p q : Pair) : Prop :=
  let region := histLen messages options.keepRecentTurns
  match options.memo, options.recompute, options.scores with
  | some order, false, _ => Before (earlierRank region fun p => rankOf order p.key) p q
  | _, _, some scores => Before (earlierRank region (similarity scores (runsOf (collectPairs messages region)).flatten)) p q
  | _, _, none => Before (earlierRank region fun _ => 0) p q

def replayOf (options : Options K) (memo : Option (List Key)) : Options K := { options with memo := memo, recompute := false, scores := none }

theorem placed_const {lower upper length : ℕ} {pairs : List Pair}
    (hregion : RegionPairs lower upper pairs) (hlength : upper ≤ length) :
    placed length pairs (orderBy fun _ => 0) = List.range length := by
  have hperm := permutes_orderBy fun _ : Pair => 0
  have hsame : (placed length pairs (orderBy fun _ => 0)).length = (List.range length).length :=
    PairMove.length_foldl _ _ _
  apply List.ext_getElem? fun i => ?_
  by_cases hi : i < length
  · rw [List.getElem?_range hi]
    by_cases htouched : ∃ p ∈ pairs, i = p.start ∨ i = p.start + 1
    · obtain ⟨p, hp, hpi⟩ := htouched
      rw [← List.flatten_splitBy follows pairs] at hp
      obtain ⟨group, hgroup, hpgroup⟩ := List.mem_flatten.mp hp
      obtain ⟨j, hslot⟩ := List.mem_iff_getElem?.mp hpgroup
      have hdistinct : Distinct group := fun p hp q hq => hregion.distinct p (mem_of_mem_group hgroup hp) q (mem_of_mem_group hgroup hq)
      have hsorted : group.Pairwise (Before fun _ => 0) :=
        (hregion.apart.sublist (group_sublist hgroup)).imp fun hle => Or.inr ⟨rfl, by omega⟩
      have hplaced := placed_group hregion hlength hperm hgroup hslot (by rw [orderBy_unique hdistinct (List.Perm.refl _) hsorted, hslot])
      rcases hpi with rfl | rfl
      · exact hplaced.1
      · exact hplaced.2
    · exact placed_outside hperm hi fun p hp => ⟨fun heq => htouched ⟨p, hp, Or.inl heq⟩,
        fun heq => htouched ⟨p, hp, Or.inr heq⟩⟩
  · rw [List.getElem?_eq_none (by rw [hsame, List.length_range]; omega), List.getElem?_eq_none (by rw [List.length_range]; omega)]

theorem forall_groups_iff {pairs : List Pair} {R : Pair → Pair → Prop} (hrefl : ∀ p, R p p) :
    (∀ group ∈ pairs.splitBy follows, ∀ p ∈ group, ∀ q ∈ group, R p q) ↔ ∀ run ∈ runsOf pairs, ∀ p ∈ run, ∀ q ∈ run, R p q := by
  refine ⟨fun h run hrun => h run (List.mem_filter.mp hrun).1, fun h group hgroup p hp q hq => ?_⟩
  by_cases htwo : 2 ≤ group.length
  · exact h group (List.mem_filter.mpr ⟨hgroup, decide_eq_true htwo⟩) p hp q hq
  · have hpos := List.length_pos_of_mem hp
    obtain ⟨x, rfl⟩ := List.length_eq_one_iff.mp (show group.length = 1 by omega)
    rw [List.mem_singleton.mp hp, List.mem_singleton.mp hq]
    exact hrefl x

theorem replay_keeps_iff_of_rank {L : Type w} [LinearOrder L] (options : Options K)
    (messages more : List Message) {rank : Pair → L} {order : List Key}
    (h : sources options messages = placed messages.length (collectPairs messages (histLen messages options.keepRecentTurns)) (orderBy rank)) :
    (∀ i < histLen messages options.keepRecentTurns,
        (sources (replayOf options (some order)) (messages ++ more))[i]? = (sources options messages)[i]?) ↔
      ∀ run ∈ runsOf (collectPairs (messages ++ more) (histLen (messages ++ more) options.keepRecentTurns)), ∀ p ∈ run, ∀ q ∈ run,
        p.start < histLen messages options.keepRecentTurns →
          Before (earlierRank (histLen messages options.keepRecentTurns) rank) p q → Before (fun p => rankOf order p.key) p q := by
  have hle := histLen_le messages options.keepRecentTurns
  have hgrownLe := histLen_le (messages ++ more) options.keepRecentTurns
  have hregion := collectPairs_region messages hle
  have hgrown := collectPairs_region (messages ++ more) hgrownLe
  obtain ⟨newer, hpairs, hnewer⟩ := collectPairs_append messages more options.keepRecentTurns
  have hlate : sources (replayOf options (some order)) (messages ++ more) =
      placed (messages ++ more).length (collectPairs (messages ++ more) (histLen (messages ++ more) options.keepRecentTurns))
        (orderBy fun p => rankOf order p.key) := rfl
  rw [h, hlate, ← forall_groups_iff fun p _ _ => Before.refl p, hpairs]
  rw [hpairs] at hgrown
  exact placed_eq_iff hregion hgrown hnewer hle hgrownLe (hle.trans (by simp)) rank _

/-- **When a replay leaves the earlier region as the call before it left it.** -/
theorem replay_keeps_iff (options : Options K) (messages more : List Message) {memo : List Key}
    (hmemo : options.memo = some memo) :
    ∃ order, (plan options messages).2 = some order ∧
      ((∀ i < histLen messages options.keepRecentTurns,
          (sources (replayOf options (some order)) (messages ++ more))[i]? = (sources options messages)[i]?) ↔
        ∀ run ∈ runsOf (collectPairs (messages ++ more) (histLen (messages ++ more) options.keepRecentTurns)), ∀ p ∈ run, ∀ q ∈ run,
          p.start < histLen messages options.keepRecentTurns →
            CameBefore options messages p q → Before (fun p => rankOf order p.key) p q) := by
  obtain ⟨keepRecentTurns, _, recompute, scores⟩ := options
  cases hmemo
  cases recompute with
  | false => exact ⟨memo, rfl, replay_keeps_iff_of_rank _ messages more rfl⟩
  | true =>
    cases scores with
    | none =>
      have hmoves : plan (K := K) ⟨keepRecentTurns, some memo, true, none⟩ messages = ([], some memo) := by
        unfold plan
        simp
      refine ⟨memo, by rw [hmoves], replay_keeps_iff_of_rank _ messages more ?_⟩
      rw [placed_const (collectPairs_region messages (histLen_le _ _)) (histLen_le _ _), sources, hmoves]
      rfl
    | some scores =>
      by_cases hruns : runsOf (collectPairs messages (histLen messages keepRecentTurns)) = []
      · have hmoves : plan (K := K) ⟨keepRecentTurns, some memo, true,
          some scores⟩ messages = ([], some memo) := by
          unfold plan
          simp [hruns]
        refine ⟨memo, by rw [hmoves], replay_keeps_iff_of_rank _ messages more ?_⟩
        rw [sources, hmoves, placed, hruns]
        rfl
      · refine ⟨memoOrder scores (runsOf (collectPairs messages (histLen messages keepRecentTurns))).flatten, ?_,
          replay_keeps_iff_of_rank _ messages more ?_⟩
        · unfold plan
          simp [hruns]
        · rw [sources, placed]
          unfold plan
          simp [hruns]

/-- What reordering keeps on every call, and when a replay keeps the order of the region
that the call before it had. -/
theorem reordering_keeps {S : Type w} [LT S] [DecidableLT S] (read : α → Message) :
    (∀ (options : Options S) (messages : List α), RolePreserving read options messages) ∧
      ∀ (options : Options K) (messages more : List α) (memo : List Key), options.memo = some memo →
        ∃ order, (reorderByRelevance read options messages).memo = some order ∧
          ((∀ i < histLen (messages.map read) options.keepRecentTurns,
              (sources (replayOf options (some order)) ((messages ++ more).map read))[i]? = (sources options (messages.map read))[i]?) ↔
            ∀ run ∈ runsOf (collectPairs ((messages ++ more).map read) (histLen ((messages ++ more).map read) options.keepRecentTurns)),
              ∀ p ∈ run, ∀ q ∈ run, p.start < histLen (messages.map read) options.keepRecentTurns →
                CameBefore options (messages.map read) p q → Before (fun p => rankOf order p.key) p q) := by
  refine ⟨fun options messages => rolePreserving read options messages, fun options messages more memo hmemo => ?_⟩
  rw [List.map_append]
  exact replay_keeps_iff options (messages.map read) (more.map read) hmemo

end Calls

def user (text : Lib.JsonText.Text) : Message := ⟨"user", .text text⟩

def assistant (text : Lib.JsonText.Text) : Message := ⟨"assistant", .text text⟩

/-- Two pairs and a question, which is that of the first pair again. -/
def asked : List Message := [user [103, 111], assistant [111, 107], user [104, 105], assistant [121, 111], user [103, 111]]

def scoredCall : Options ℕ := { memo := some [], recompute := true, scores := some fun p => if p.start = 0 then 1 else 2 }

/-- The question is answered as before: the replay puts the new pair
between the two that were there. -/
theorem repeated_pair_moves :
    (reorderByRelevance id scoredCall asked).messages = asked ∧
      (reorderByRelevance id (replayOf scoredCall (reorderByRelevance id scoredCall asked).memo)
          (asked ++ [assistant [111, 107], user [104, 105]])).messages =
        [user [103, 111], assistant [111, 107], user [103, 111], assistant [111, 107], user [104, 105], assistant [121, 111], user [104, 105]] := by
  decide +kernel

end TokenProxy.Relevance
