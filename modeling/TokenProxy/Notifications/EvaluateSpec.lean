import TokenProxy.Notifications.Evaluate

/-!
# What the rule evaluator fires

A position of the series qualifies by what stands around it: the maximal breaching run that it is in
has lasted long enough, or enough records are in the window that ends with it. The evaluators fire
at the positions that qualify, taken greedily with the cooldown.
-/

namespace TokenProxy.Notifications

open Lib (Position positions positionsFrom mem_positions map_item_positions IsRun MaximalRun RunUpTo runUpTo_iff extend currentRun currentRun_snoc
  currentRun_suffix greedy greedy_skip greedy_take greedy_map greedy_congr greedy_sublist greedy_spaced
  greedy_resume)

variable {rule : Rule} {samples records : List Sample} {lastFiredAt : Option ℤ}

/-! ### The order of time -/

theorem sortByTime_perm (l : List Timed) : (sortByTime l).Perm l := List.perm_insertionSort _ l

theorem sortByTime_sorted (l : List Timed) :
    (sortByTime l).Pairwise fun a b => a.time ≤ b.time := by
  have htotal : Std.Total fun a b : Timed => a.time ≤ b.time := ⟨fun a b => le_total a.time b.time⟩
  have htrans : IsTrans Timed fun a b => a.time ≤ b.time := ⟨fun _ _ _ => le_trans⟩
  exact List.pairwise_insertionSort _ l

theorem ordered_sorted (samples : List Sample) : (ordered samples).Pairwise fun a b => a.time ≤ b.time := sortByTime_sorted _

theorem ordered_perm {samples samples' : List Sample} (h : samples.Perm samples')
    (hdistinct : (samples.filterMap Sample.instant).Nodup) :
    ordered samples = ordered samples' := by
  have htimes : ∀ l : List Sample, (timed l).map Timed.time = l.filterMap Sample.instant := by
    intro l
    unfold timed
    rw [List.map_filterMap]
    refine List.filterMap_congr fun sample _ => ?_
    cases sample.instant <;> rfl
  have hperm : (timed samples).Perm (timed samples') := h.filterMap _
  have hnodup : ((ordered samples).map Timed.time).Nodup := by
    unfold ordered
    rw [((sortByTime_perm (timed samples)).map Timed.time).nodup_iff, htimes]
    exact hdistinct
  have hall : (ordered samples).Perm (ordered samples') :=
    (sortByTime_perm _).trans (hperm.trans (sortByTime_perm _).symm)
  refine hall.eq_of_pairwise (fun a b ha hb (hab : a.time ≤ b.time) (hba : b.time ≤ a.time) => ?_) (ordered_sorted _) (ordered_sorted _)
  exact List.inj_on_of_nodup_map hnodup ha (hall.mem_iff.2 hb) (Int.le_antisymm hab hba)

/-! ### What qualifies -/

def Breaching (rule : Rule) (t : Timed) : Prop := breaches rule.conditionKind t.sample.value rule.threshold = true

instance (rule : Rule) : DecidablePred (Breaching rule) := fun _ => inferInstanceAs (Decidable (_ = true))

def Near (allowance : ℚ) (a b : Timed) : Prop := ((b.time - a.time : ℤ) : ℚ) ≤ allowance

instance (allowance : ℚ) : DecidableRel (Near allowance) := fun _ _ => inferInstanceAs (Decidable (_ ≤ _))

/-- `run` is the part up to the position of a maximal run of breaching samples, and
has lasted for the duration. -/
def SustainedBy (rule : Rule) (allowance : ℚ) (p : Position Timed) (run : List Timed) : Prop :=
  RunUpTo (Breaching rule) (Near allowance) p run ∧ ∀ start ∈ run.head?, rule.durationMs ≤ p.item.time - start.time

/-- `inWindow` are the records up to the position in the half-open window that ends with it, and are
as many as the threshold. -/
def CountedBy (rule : Rule) (p : Position Timed) (inWindow : List Timed) : Prop :=
  inWindow = (p.before ++ [p.item]).filter (fun r => p.item.time - r.time < rule.durationMs) ∧ rule.threshold ≤ inWindow.length

def reportOf (observed : Position Timed → List Timed → Option ℚ) (p : Position Timed)
    (witnesses : List Timed) : Firing where
  firedAt := p.item.time
  breachStartedAt := (witnesses.head?.getD p.item).time
  observedValue := observed p witnesses
  refs := refsOf witnesses
  sampleCount := witnesses.length

open Classical in
/-- The firings are those of the positions that have witnesses, taken greedily, each with
the report of its witnesses. -/
def FiresAt (rule : Rule) (series : List Timed) (ready : Option ℤ)
    (witnessed : Position Timed → List Timed → Prop)
    (observed : Position Timed → List Timed → Option ℚ) (firings : List Firing) : Prop :=
  List.Forall₂ (fun p firing => ∃ witnesses, witnessed p witnesses ∧ firing = reportOf observed p witnesses)
    (greedy (fun p => p.item.time) rule.cooldownMs ready ((positions series).filter fun p => ∃ witnesses, witnessed p witnesses)) firings

/-! ### The loops -/

/-- A loop over the positions that fires where a test holds and the cooldown is over. -/
structure Fires (rule : Rule) (turn : Walk → Timed → Walk) (kept : List Timed → List Timed)
    (test : Position Timed → Bool) (report : Position Timed → Firing) : Prop where
  keeps : ∀ (w : Walk) before x, w.kept = kept before → (turn w x).kept = kept (before ++ [x])
  rests : ∀ (w : Walk) p, w.kept = kept p.before → (test p = false ∨ w.coolingDown p.item.time = true) →
    (turn w p.item).firings = w.firings ∧ (turn w p.item).cooldownUntil = w.cooldownUntil
  fires : ∀ (w : Walk) p, w.kept = kept p.before → test p = true → w.coolingDown p.item.time = false →
    (turn w p.item).firings = w.firings ++ [report p] ∧ (turn w p.item).cooldownUntil = some (p.item.time + rule.cooldownMs)

theorem Fires.foldl {turn : Walk → Timed → Walk} {kept : List Timed → List Timed}
    {test : Position Timed → Bool} {report : Position Timed → Firing}
    (h : Fires rule turn kept test report) (before xs : List Timed) (w : Walk) (hkept : w.kept = kept before) :
    (xs.foldl turn w).firings =
      w.firings ++ (greedy (fun p => p.item.time) rule.cooldownMs w.cooldownUntil ((positionsFrom before xs).filter test)).map report := by
  induction xs generalizing before w with
  | nil => simp [positionsFrom]
  | cons x xs ih =>
    rw [List.foldl_cons, ih (before ++ [x]) (turn w x) (h.keeps w before x hkept), positionsFrom]
    set p : Position Timed := { before, item := x, after := xs } with hp
    by_cases htest : test p = true
    · rw [List.filter_cons, if_pos htest]
      cases hcool : w.coolingDown x.time with
      | true =>
        obtain ⟨hfirings, huntil⟩ := h.rests w p hkept (Or.inr hcool)
        have hskip : w.cooldownUntil.any (p.item.time < ·) = true := hcool
        rw [greedy_skip (fun p : Position Timed => p.item.time) rule.cooldownMs hskip]
        rw [show turn w x = turn w p.item from rfl, hfirings, huntil]
      | false =>
        obtain ⟨hfirings, huntil⟩ := h.fires w p hkept htest hcool
        have htake : ¬ w.cooldownUntil.any (p.item.time < ·) = true := Bool.eq_false_iff.1 hcool
        rw [greedy_take (fun p : Position Timed => p.item.time) rule.cooldownMs htake]
        rw [show turn w x = turn w p.item from rfl, hfirings, huntil, List.map_cons,
          List.append_assoc, List.singleton_append]
    · rw [Bool.not_eq_true] at htest
      obtain ⟨hfirings, huntil⟩ := h.rests w p hkept (Or.inl htest)
      rw [List.filter_cons, if_neg (by rw [htest]; exact Bool.false_ne_true), show turn w x = turn w p.item from rfl, hfirings, huntil]

/-- What a loop fires, in terms of witnesses: the test holds where there are
some, and the report is theirs. -/
theorem Fires.firesAt {turn : Walk → Timed → Walk} {kept : List Timed → List Timed}
    {test : Position Timed → Bool} {report : Position Timed → Firing}
    {series : List Timed} {ready : Option ℤ} {witnessed : Position Timed → List Timed → Prop} {observed : Position Timed → List Timed → Option ℚ}
    (h : Fires rule turn kept test report) (hstart : kept [] = [])
    (htest : ∀ p ∈ positions series, test p = true ↔ ∃ witnesses, witnessed p witnesses)
    (hreport : ∀ p ∈ positions series, ∀ witnesses, witnessed p witnesses → report p = reportOf observed p witnesses) :
    FiresAt rule series ready witnessed observed (series.foldl turn { cooldownUntil := ready }).firings := by
  classical
  unfold FiresAt
  rw [h.foldl [] series { cooldownUntil := ready } hstart.symm, List.nil_append]
  have hfilter : (positions series).filter test = (positions series).filter fun p => decide (∃ witnesses, witnessed p witnesses) := by
    refine List.filter_congr fun p hp => ?_
    rw [Bool.eq_iff_iff, htest p hp, decide_eq_true_eq]
  rw [positions] at hfilter ⊢
  rw [hfilter, List.forall₂_map_right_iff, List.forall₂_same]
  intro p hp
  have hmem := (greedy_sublist _ _ _ _).subset hp
  obtain ⟨hposition, hwitnessed⟩ := List.mem_filter.1 hmem
  obtain ⟨witnesses, hw⟩ := of_decide_eq_true hwitnessed
  exact ⟨witnesses, hw, hreport p hposition witnesses hw⟩

/-! ### `evaluateSustained` -/

def runAt (rule : Rule) (allowance : ℚ) (p : Position Timed) : List Timed :=
  currentRun (Breaching rule) (Near allowance) (p.before ++ [p.item])

def sustainedValue (p : Position Timed) (_ : List Timed) : Option ℚ := p.item.sample.value

theorem sustainedTurn_eq (rule : Rule) (allowance : ℚ) (w : Walk) (p : Position Timed)
    {run : List Timed} (hrun : extend (Breaching rule) (Near allowance) w.kept p.item = run) :
    sustainedTurn rule allowance w p.item =
      if (Breaching rule p.item ∧ rule.durationMs ≤ p.item.time - (run.head?.getD p.item).time) ∧ w.coolingDown p.item.time = false then
        { firings := w.firings ++ [reportOf sustainedValue p run], cooldownUntil := some (p.item.time + rule.cooldownMs), kept := run }
      else { w with kept := run } := by
  have hgap : (w.kept.getLast?.any fun previous => allowance < (p.item.time - previous.time : ℤ)) =
      !w.kept.getLast?.all fun previous => Near allowance previous p.item := by
    cases w.kept.getLast? with
    | none => rfl
    | some previous =>
      rw [Option.any_some, Option.all_some, Bool.eq_iff_iff, Bool.not_eq_true',
        decide_eq_false_iff_not, decide_eq_true_eq]
      exact not_le.symm
  subst hrun
  unfold sustainedTurn extend
  rw [hgap]
  by_cases hbreach : Breaching rule p.item
  · have hb : breaches rule.conditionKind p.item.sample.value rule.threshold = true := hbreach
    rw [hb, if_pos hbreach]
    set run := if (!w.kept.getLast?.all fun previous => Near allowance previous p.item) = true then [] else w.kept with hrun
    have hkept : (if (w.kept.getLast?.all fun previous => Near allowance previous p.item) = true then w.kept ++ [p.item] else [p.item]) =
        run ++ [p.item] := by
      rw [hrun]
      cases w.kept.getLast?.all fun previous => Near allowance previous p.item <;> rfl
    have hstart : (run ++ [p.item]).head?.getD p.item = run.head?.getD p.item := by
      cases run <;> rfl
    rw [hkept, hstart]
    simp only [Bool.not_true, Bool.false_eq_true, if_false]
    by_cases hlong : p.item.time - (run.head?.getD p.item).time < rule.durationMs
    · rw [if_pos hlong, if_neg fun h => absurd h.1.2 (not_le.2 hlong)]
    · rw [if_neg hlong]
      cases hcool : w.coolingDown p.item.time with
      | true => rw [if_pos rfl, if_neg fun h => Bool.noConfusion h.2]
      | false =>
        rw [if_neg Bool.false_ne_true, if_pos ⟨⟨hbreach, not_lt.1 hlong⟩, rfl⟩]
        unfold reportOf
        rw [hstart]
        rfl
  · have hb : breaches rule.conditionKind p.item.sample.value rule.threshold = false := Bool.eq_false_iff.2 hbreach
    simp only [hb, Bool.not_false, if_true]
    rw [if_neg hbreach, if_neg fun h => hbreach h.1.1]

theorem sustained_fires (rule : Rule) (allowance : ℚ) :
    Fires rule (sustainedTurn rule allowance) (currentRun (Breaching rule) (Near allowance))
      (fun p => decide (Breaching rule p.item ∧ rule.durationMs ≤ p.item.time - ((runAt rule allowance p).head?.getD p.item).time))
      (fun p => reportOf sustainedValue p (runAt rule allowance p)) where
  keeps w before x hkept := by
    rw [sustainedTurn_eq rule allowance w { before, item := x, after := [] } rfl, currentRun_snoc, ← hkept]
    split <;> rfl
  rests w p hkept hno := by
    have hrun : extend (Breaching rule) (Near allowance) w.kept p.item = runAt rule allowance p := by rw [runAt, currentRun_snoc, hkept]
    rw [sustainedTurn_eq rule allowance w p hrun, if_neg]
    · exact ⟨rfl, rfl⟩
    · rintro ⟨htest, hcool⟩
      rcases hno with hno | hno
      · exact absurd htest (of_decide_eq_false hno)
      · rw [hcool] at hno
        exact Bool.false_ne_true hno
  fires w p hkept htest hcool := by
    have hrun : extend (Breaching rule) (Near allowance) w.kept p.item = runAt rule allowance p := by rw [runAt, currentRun_snoc, hkept]
    rw [sustainedTurn_eq rule allowance w p hrun, if_pos ⟨of_decide_eq_true htest, hcool⟩]
    exact ⟨rfl, rfl⟩

def allowanceOf (series : List Timed) : ℚ := sustainGapAllowanceMs (series.map Timed.time)

theorem sustainedBy_iff {allowance : ℚ} {p : Position Timed} :
    (Breaching rule p.item ∧ rule.durationMs ≤ p.item.time - ((runAt rule allowance p).head?.getD p.item).time) ↔
      ∃ run, SustainedBy rule allowance p run := by
  constructor
  · rintro ⟨hbreach, hlong⟩
    refine ⟨_, runUpTo_iff.2 ⟨hbreach, rfl⟩, fun start hstart => ?_⟩
    have hhead : (runAt rule allowance p).head?.getD p.item = start := by
      rw [runAt, show _ = some start from hstart, Option.getD_some]
    rw [hhead] at hlong
    exact hlong
  · rintro ⟨run, hrun, hlong⟩
    obtain ⟨hbreach, rfl⟩ := runUpTo_iff.1 hrun
    refine ⟨hbreach, ?_⟩
    cases hhead : (runAt rule allowance p).head? with
    | some start => exact hlong start hhead
    | none =>
      -- The run ends with the breaching item itself.
      rw [List.head?_eq_none_iff] at hhead
      obtain ⟨before, upTo, rest, after, -, -, -, hend⟩ := hrun
      rw [runAt, hend] at hhead
      simp at hhead

theorem evaluateSustained_firesAt (rule : Rule) (samples : List Sample) (lastFiredAt : Option ℤ) :
    FiresAt rule (ordered samples) (lastFiredAt.map (· + rule.cooldownMs)) (SustainedBy rule (allowanceOf (ordered samples))) sustainedValue
      (evaluateSustained rule samples lastFiredAt) := by
  refine (sustained_fires rule (allowanceOf (ordered samples))).firesAt rfl (fun p _ => ?_) fun p _ run hrun => ?_
  · rw [decide_eq_true_eq, sustainedBy_iff]
  · obtain ⟨-, rfl⟩ := runUpTo_iff.1 hrun.1
    rfl

/-! ### `evaluateWindow` -/

def windowValue (_ : Position Timed) (inWindow : List Timed) : Option ℚ := some inWindow.length

def windowAt (rule : Rule) (p : Position Timed) : List Timed :=
  ((p.before ++ [p.item]).reverse.takeWhile fun r => p.item.time - r.time < rule.durationMs).reverse

theorem takeWhile_eq_filter {q : Timed → Bool} {l : List Timed}
    (h : l.Pairwise fun a b => q a = false → q b = false) :
    l.takeWhile q = l.filter q := by
  induction l with
  | nil => rfl
  | cons a l ih =>
    obtain ⟨hle, hrest⟩ := List.pairwise_cons.1 h
    cases ha : q a with
    | true => rw [List.takeWhile_cons_of_pos ha, List.filter_cons_of_pos ha, ih hrest]
    | false =>
      rw [List.takeWhile_cons_of_neg (by rw [ha]; exact Bool.false_ne_true), eq_comm, List.filter_eq_nil_iff]
      intro b hb
      rcases List.mem_cons.1 hb with rfl | hb
      · rw [ha]
        exact Bool.false_ne_true
      · rw [hle b hb ha]
        exact Bool.false_ne_true

/-- In the order of time, walking back to the first record that has left the
window finds all that are in it. -/
theorem windowAt_eq {series : List Timed} (hsorted : series.Pairwise fun a b => a.time ≤ b.time)
    {p : Position Timed} (hp : p ∈ positions series) :
    windowAt rule p = (p.before ++ [p.item]).filter fun r => p.item.time - r.time < rule.durationMs := by
  have hback : (p.before ++ [p.item]).reverse.Pairwise fun a b => b.time ≤ a.time := by
    rw [List.pairwise_reverse]
    rw [mem_positions.1 hp, show p.before ++ p.item :: p.after = p.before ++ [p.item] ++ p.after by simp] at hsorted
    exact (List.pairwise_append.1 hsorted).1
  unfold windowAt
  rw [takeWhile_eq_filter, List.filter_reverse, List.reverse_reverse]
  refine hback.imp fun {a b} hab ha => ?_
  rw [decide_eq_false_iff_not] at ha ⊢
  omega

theorem windowTurn_eq (rule : Rule) (w : Walk) (p : Position Timed) (hkept : w.kept = p.before) :
    windowTurn rule w p.item =
      if ((windowAt rule p).length : ℚ) < rule.threshold ∨ w.coolingDown p.item.time = true then { w with kept := p.before ++ [p.item] }
      else
        { firings := w.firings ++ [reportOf windowValue p (windowAt rule p)]
          cooldownUntil := some (p.item.time + rule.cooldownMs), kept := p.before ++ [p.item] } := by
  unfold windowTurn
  rw [hkept]
  have hwindow : ((p.before ++ [p.item]).reverse.takeWhile fun r => p.item.time - r.time < rule.durationMs).reverse = windowAt rule p := rfl
  simp only [hwindow]
  by_cases hfew : ((windowAt rule p).length : ℚ) < rule.threshold
  · rw [if_pos hfew, if_pos (Or.inl hfew)]
  · rw [if_neg hfew]
    cases hcool : w.coolingDown p.item.time with
    | true => rw [if_pos rfl, if_pos (Or.inr rfl)]
    | false =>
      rw [if_neg Bool.false_ne_true, if_neg]
      · rfl
      · rintro (h | h)
        · exact hfew h
        · exact Bool.false_ne_true h

theorem window_fires (rule : Rule) :
    Fires rule (windowTurn rule) id (fun p => decide (rule.threshold ≤ (windowAt rule p).length))
      (fun p => reportOf windowValue p (windowAt rule p)) where
  keeps w before x hkept := by
    rw [windowTurn_eq rule w { before, item := x, after := [] } hkept]
    split <;> rfl
  rests w p hkept hno := by
    rw [windowTurn_eq rule w p hkept, if_pos]
    · exact ⟨rfl, rfl⟩
    · exact hno.imp (fun h => not_le.1 (of_decide_eq_false h)) id
  fires w p hkept htest hcool := by
    rw [windowTurn_eq rule w p hkept, if_neg]
    · exact ⟨rfl, rfl⟩
    · rintro (h | h)
      · exact absurd (of_decide_eq_true htest) (not_le.2 h)
      · rw [hcool] at h
        exact Bool.false_ne_true h

theorem countedBy_iff {series : List Timed} (hsorted : series.Pairwise fun a b => a.time ≤ b.time)
    {p : Position Timed}
    (hp : p ∈ positions series) :
    rule.threshold ≤ (windowAt rule p).length ↔ ∃ inWindow, CountedBy rule p inWindow := by
  constructor
  · exact fun hmany => ⟨_, windowAt_eq hsorted hp, hmany⟩
  · rintro ⟨inWindow, rfl, hmany⟩
    rw [windowAt_eq hsorted hp]
    exact hmany

theorem evaluateWindow_firesAt (rule : Rule) (records : List Sample) (lastFiredAt : Option ℤ) :
    FiresAt rule (ordered records) (lastFiredAt.map (· + rule.cooldownMs)) (CountedBy rule) windowValue
      (evaluateWindow rule records lastFiredAt) := by
  refine (window_fires rule).firesAt rfl (fun p hp => ?_) fun p hp inWindow hwindow => ?_
  · rw [decide_eq_true_eq, countedBy_iff (ordered_sorted records) hp]
  · rw [hwindow.1, windowAt_eq (ordered_sorted records) hp]

/-! ### The instants that qualify -/

/-- An instant of a maximal breaching run that starts at least the duration before it. -/
def SustainedInstant (rule : Rule) (allowance : ℚ) (series : List Timed) (t : ℤ) : Prop :=
  ∃ before run after, MaximalRun (Breaching rule) (Near allowance) series before run after ∧ (∃ sample ∈ run, sample.time = t) ∧
    ∀ start ∈ run.head?, rule.durationMs ≤ t - start.time

/-- The instant of a record, with as many records as the threshold in the
half-open window that ends with it. -/
def CountedInstant (rule : Rule) (series : List Timed) (t : ℤ) : Prop :=
  (∃ record ∈ series, record.time = t) ∧
    rule.threshold ≤ (series.filter fun r => t - rule.durationMs < r.time ∧ r.time ≤ t).length

theorem sustainedInstant_iff {allowance : ℚ} {series : List Timed} {t : ℤ} :
    SustainedInstant rule allowance series t ↔ ∃ p ∈ positions series, (∃ run, SustainedBy rule allowance p run) ∧ p.item.time = t := by
  have hhead : ∀ (upTo rest : List Timed) (x : Timed), (upTo ++ x :: rest).head? = (upTo ++ [x]).head? := by
    intro upTo rest x
    cases upTo <;> rfl
  constructor
  · rintro ⟨before, run, after, hmaximal, ⟨sample, hsample, rfl⟩, hlong⟩
    obtain ⟨upTo, rest, rfl⟩ := List.append_of_mem hsample
    have hseries := hmaximal.split
    rw [List.append_assoc, List.append_assoc, List.cons_append, ← List.append_assoc] at hseries
    refine ⟨{ before := before ++ upTo, item := sample, after := rest ++ after },
      mem_positions.2 hseries, ⟨upTo ++ [sample], ?_, ?_⟩, rfl⟩
    · rw [hseries] at hmaximal
      exact ⟨before, upTo, rest, after, hmaximal, rfl, rfl, rfl⟩
    · rw [← hhead upTo rest]
      exact hlong
  · rintro ⟨p, hp, ⟨run, ⟨before, upTo, rest, after, hmaximal, -, -, rfl⟩, hlong⟩, rfl⟩
    rw [← mem_positions.1 hp] at hmaximal
    refine ⟨before, _, after, hmaximal, ⟨p.item, by simp, rfl⟩, ?_⟩
    rw [hhead]
    exact hlong

theorem exists_last_at {series : List Timed} (hsorted : series.Pairwise fun a b => a.time ≤ b.time)
    {t : ℤ} (ht : ∃ record ∈ series, record.time = t) :
    ∃ p ∈ positions series, p.item.time = t ∧ ∀ r ∈ p.after, t < r.time := by
  induction series with
  | nil => simp at ht
  | cons x series ih =>
    obtain ⟨hle, hseries⟩ := List.pairwise_cons.1 hsorted
    by_cases hlater : ∃ record ∈ series, record.time = t
    · obtain ⟨p, hp, htime, hafter⟩ := ih hseries hlater
      refine ⟨{ p with before := x :: p.before }, mem_positions.2 ?_, htime, hafter⟩
      rw [mem_positions.1 hp, List.cons_append]
    · obtain ⟨record, hrecord, rfl⟩ := ht
      rcases List.mem_cons.1 hrecord with rfl | hrecord
      · refine ⟨{ before := [], item := record, after := series }, mem_positions.2 rfl, rfl, fun r hr => ?_⟩
        exact lt_of_le_of_ne (hle r hr) fun heq => hlater ⟨r, hr, heq.symm⟩
      · exact absurd ⟨record, hrecord, rfl⟩ hlater

theorem countedInstant_iff {series : List Timed}
    (hsorted : series.Pairwise fun a b => a.time ≤ b.time) {t : ℤ} :
    CountedInstant rule series t ↔ ∃ p ∈ positions series, (∃ inWindow, CountedBy rule p inWindow) ∧ p.item.time = t := by
  have hupTo : ∀ p ∈ positions series, ∀ r ∈ p.before ++ [p.item], r.time ≤ p.item.time := by
    intro p hp r hr
    rw [mem_positions.1 hp] at hsorted
    rcases List.mem_append.1 hr with hr | hr
    · exact (List.pairwise_append.1 hsorted).2.2 r hr p.item (List.mem_cons_self ..)
    · rw [List.mem_singleton.1 hr]
  have hfilter : ∀ p ∈ positions series, ((p.before ++ [p.item]).filter fun r => p.item.time - r.time < rule.durationMs) =
      (p.before ++ [p.item]).filter fun r => p.item.time - rule.durationMs < r.time ∧ r.time ≤ p.item.time := by
    intro p hp
    refine List.filter_congr fun r hr => ?_
    have := hupTo p hp r hr
    rw [Bool.eq_iff_iff, decide_eq_true_eq, decide_eq_true_eq]
    omega
  have hsplit : ∀ p ∈ positions series, series = p.before ++ [p.item] ++ p.after := by
    intro p hp
    rw [mem_positions.1 hp, List.append_assoc, List.singleton_append]
  constructor
  · rintro ⟨hrecord, hmany⟩
    obtain ⟨p, hp, rfl, hafter⟩ := exists_last_at hsorted hrecord
    refine ⟨p, hp, ⟨_, rfl, ?_⟩, rfl⟩
    have hnone : (p.after.filter fun r => p.item.time - rule.durationMs < r.time ∧ r.time ≤ p.item.time) = [] := by
      refine List.filter_eq_nil_iff.2 fun r hr => ?_
      have := hafter r hr
      rw [decide_eq_true_eq]
      omega
    rw [hsplit p hp, List.filter_append, hnone, List.append_nil] at hmany
    rw [hfilter p hp]
    exact hmany
  · rintro ⟨p, hp, ⟨inWindow, rfl, hmany⟩, rfl⟩
    refine ⟨⟨p.item, by rw [hsplit p hp]; simp, rfl⟩, hmany.trans ?_⟩
    have hin : ((p.before ++ [p.item]).filter fun r => p.item.time - rule.durationMs < r.time ∧ r.time ≤ p.item.time).Sublist
        (series.filter fun r => p.item.time - rule.durationMs < r.time ∧ r.time ≤ p.item.time) := by
      conv_rhs => rw [hsplit p hp]
      exact (List.sublist_append_left _ _).filter _
    rw [hfilter p hp]
    exact_mod_cast hin.length_le

/-! ### The specification -/

open Classical in
/-- What an evaluator fires: the instants that qualify, taken greedily with the cooldown, each with
the report of its witnesses. -/
structure MeetsSpecification (rule : Rule) (evaluate : List Sample → Option ℤ → List Firing)
    (qualifies : List Timed → ℤ → Prop)
    (witnessed : List Timed → Position Timed → List Timed → Prop) (observed : Position Timed → List Timed → Option ℚ) : Prop where
  instants : ∀ samples lastFiredAt, (evaluate samples lastFiredAt).map Firing.firedAt =
    greedy id rule.cooldownMs (lastFiredAt.map (· + rule.cooldownMs))
      (((ordered samples).map Timed.time).filter fun t => qualifies (ordered samples) t)
  reports : ∀ samples lastFiredAt,
    FiresAt rule (ordered samples) (lastFiredAt.map (· + rule.cooldownMs)) (witnessed (ordered samples)) observed (evaluate samples lastFiredAt)
  spaced : ∀ samples lastFiredAt, (evaluate samples lastFiredAt).Pairwise fun a b => a.firedAt + rule.cooldownMs ≤ b.firedAt
  unordered : ∀ samples samples' lastFiredAt, samples.Perm samples' → (samples.filterMap Sample.instant).Nodup →
    evaluate samples lastFiredAt = evaluate samples' lastFiredAt
  resumes : ∀ samples lastFiredAt, ∀ firing ∈ evaluate samples lastFiredAt,
    evaluate samples (some firing.firedAt) = (evaluate samples lastFiredAt).filter fun later => firing.firedAt < later.firedAt

theorem positions_sorted {series : List Timed}
    (hsorted : series.Pairwise fun a b => a.time ≤ b.time) :
    (positions series).Pairwise fun p q => p.item.time ≤ q.item.time := by
  have hitems : ((positions series).map Position.item).Pairwise fun a b => a.time ≤ b.time := by
    rw [map_item_positions]
    exact hsorted
  exact List.Pairwise.of_map (S := fun a b => a.time ≤ b.time) Position.item (fun _ _ h => h) hitems

section Evaluator

variable {evaluate : List Sample → Option ℤ → List Firing} {turn : List Timed → Walk → Timed → Walk} {kept : List Timed → List Timed → List Timed}
  {test : List Timed → Position Timed → Bool} {report : List Timed → Position Timed → Firing}

structure Loops (rule : Rule) (evaluate : List Sample → Option ℤ → List Firing)
    (turn : List Timed → Walk → Timed → Walk)
    (kept : List Timed → List Timed → List Timed) (test : List Timed → Position Timed → Bool) (report : List Timed → Position Timed → Firing) :
    Prop where
  evaluate_eq : ∀ samples lastFiredAt, evaluate samples lastFiredAt =
    ((ordered samples).foldl (turn (ordered samples)) { cooldownUntil := lastFiredAt.map (· + rule.cooldownMs) }).firings
  fires : ∀ series, Fires rule (turn series) (kept series) (test series) (report series)
  kept_nil : ∀ series, kept series [] = []
  firedAt : ∀ series p, (report series p).firedAt = p.item.time

theorem Loops.evaluate_map (h : Loops rule evaluate turn kept test report) (samples : List Sample)
    (lastFiredAt : Option ℤ) :
    evaluate samples lastFiredAt =
      (greedy (fun p => p.item.time) rule.cooldownMs (lastFiredAt.map (· + rule.cooldownMs))
        ((positions (ordered samples)).filter (test (ordered samples)))).map (report (ordered samples)) := by
  rw [h.evaluate_eq, (h.fires (ordered samples)).foldl [] (ordered samples) _ (h.kept_nil (ordered samples)).symm, List.nil_append]
  rfl

theorem Loops.map_firedAt (h : Loops rule evaluate turn kept test report) (series : List Timed)
    (l : List (Position Timed)) :
    (l.map (report series)).map Firing.firedAt = l.map fun p => p.item.time := by
  rw [List.map_map]
  exact List.map_congr_left fun p _ => h.firedAt series p

theorem Loops.spaced (h : Loops rule evaluate turn kept test report) (samples : List Sample)
    (lastFiredAt : Option ℤ) :
    (evaluate samples lastFiredAt).Pairwise fun a b => a.firedAt + rule.cooldownMs ≤ b.firedAt := by
  rw [h.evaluate_map, List.pairwise_map]
  refine (greedy_spaced rule.cooldownMs_pos.le _ _).imp fun {p q} hpq => ?_
  rw [h.firedAt, h.firedAt]
  exact hpq

theorem Loops.unordered (h : Loops rule evaluate turn kept test report)
    {samples samples' : List Sample} (lastFiredAt : Option ℤ)
    (hperm : samples.Perm samples') (hdistinct : (samples.filterMap Sample.instant).Nodup) :
    evaluate samples lastFiredAt = evaluate samples' lastFiredAt := by
  rw [h.evaluate_eq, h.evaluate_eq, ordered_perm hperm hdistinct]

theorem Loops.resumes (h : Loops rule evaluate turn kept test report) (samples : List Sample)
    (lastFiredAt : Option ℤ) {firing : Firing} (hfiring : firing ∈ evaluate samples lastFiredAt) :
    evaluate samples (some firing.firedAt) = (evaluate samples lastFiredAt).filter fun later => firing.firedAt < later.firedAt := by
  have hsorted : ((positions (ordered samples)).filter (test (ordered samples))).Pairwise fun p q => p.item.time ≤ q.item.time :=
    (positions_sorted (ordered_sorted samples)).sublist List.filter_sublist
  rw [h.evaluate_map] at hfiring
  obtain ⟨p, hp, rfl⟩ := List.mem_map.1 hfiring
  rw [h.evaluate_map, h.evaluate_map, h.firedAt, Option.map_some,
    greedy_resume rule.cooldownMs_pos hsorted hp, List.filter_map]
  congr 1
  refine List.filter_congr fun q _ => ?_
  rw [Function.comp_apply, h.firedAt]

open Classical in
theorem Loops.instants (h : Loops rule evaluate turn kept test report) (samples : List Sample)
    (lastFiredAt : Option ℤ) {qualifies : ℤ → Prop}
    (hqualifies : ∀ t, qualifies t ↔ ∃ p ∈ positions (ordered samples), test (ordered samples) p = true ∧ p.item.time = t) :
    (evaluate samples lastFiredAt).map Firing.firedAt =
      greedy id rule.cooldownMs (lastFiredAt.map (· + rule.cooldownMs)) (((ordered samples).map Timed.time).filter fun t => qualifies t) := by
  rw [h.evaluate_map, h.map_firedAt]
  have hmap : (greedy (fun p : Position Timed => p.item.time) rule.cooldownMs (lastFiredAt.map (· + rule.cooldownMs))
      ((positions (ordered samples)).filter (test (ordered samples)))).map (fun p => p.item.time) =
        greedy id rule.cooldownMs (lastFiredAt.map (· + rule.cooldownMs))
          (((positions (ordered samples)).filter (test (ordered samples))).map fun p => p.item.time) := greedy_map id _ _ _
  rw [hmap]
  refine greedy_congr rule.cooldownMs_pos ?_ ?_ fun t => ?_
  · exact List.pairwise_map.2 ((positions_sorted (ordered_sorted samples)).sublist List.filter_sublist)
  · exact (List.pairwise_map.2 (ordered_sorted samples)).sublist List.filter_sublist
  · rw [List.mem_filter, decide_eq_true_eq, hqualifies]
    constructor
    · intro ht
      obtain ⟨p, hp, rfl⟩ := List.mem_map.1 ht
      obtain ⟨hposition, htest⟩ := List.mem_filter.1 hp
      refine ⟨List.mem_map.2 ⟨p.item, ?_, rfl⟩, p, hposition, htest, rfl⟩
      rw [mem_positions.1 hposition]
      simp
    · rintro ⟨-, p, hposition, htest, rfl⟩
      exact List.mem_map.2 ⟨p, List.mem_filter.2 ⟨hposition, htest⟩, rfl⟩

end Evaluator

theorem sustained_loops (rule : Rule) :
    Loops rule (evaluateSustained rule) (fun series => sustainedTurn rule (allowanceOf series))
      (fun series => currentRun (Breaching rule) (Near (allowanceOf series)))
      (fun series p => decide (Breaching rule p.item ∧ rule.durationMs ≤ p.item.time - ((runAt rule (allowanceOf series) p).head?.getD p.item).time))
      (fun series p => reportOf sustainedValue p (runAt rule (allowanceOf series) p)) where
  evaluate_eq _ _ := rfl
  fires series := sustained_fires rule (allowanceOf series)
  kept_nil _ := rfl
  firedAt _ _ := rfl

theorem window_loops (rule : Rule) :
    Loops rule (evaluateWindow rule) (fun _ => windowTurn rule) (fun _ => id) (fun _ p => decide (rule.threshold ≤ (windowAt rule p).length))
      (fun _ p => reportOf windowValue p (windowAt rule p)) where
  evaluate_eq _ _ := rfl
  fires _ := window_fires rule
  kept_nil _ := rfl
  firedAt _ _ := rfl

/-- The evaluator of the sustained conditions and that of the counted ones. -/
theorem evaluators_meet_specification (rule : Rule) :
    MeetsSpecification rule (evaluateSustained rule) (fun series => SustainedInstant rule (allowanceOf series) series)
        (fun series => SustainedBy rule (allowanceOf series)) sustainedValue ∧
      MeetsSpecification rule (evaluateWindow rule) (CountedInstant rule) (fun _ => CountedBy rule) windowValue := by
  constructor
  · have hloops := sustained_loops rule
    refine ⟨fun samples lastFiredAt => hloops.instants samples lastFiredAt fun t => ?_,
      evaluateSustained_firesAt rule, hloops.spaced,
      fun _ _ => hloops.unordered, fun samples lastFiredAt _ => hloops.resumes samples lastFiredAt⟩
    rw [sustainedInstant_iff]
    refine exists_congr fun p => and_congr_right fun _ => and_congr_left fun _ => ?_
    rw [decide_eq_true_eq, sustainedBy_iff]
  · have hloops := window_loops rule
    refine ⟨fun samples lastFiredAt => hloops.instants samples lastFiredAt fun t => ?_,
      evaluateWindow_firesAt rule, hloops.spaced,
      fun _ _ => hloops.unordered, fun samples lastFiredAt _ => hloops.resumes samples lastFiredAt⟩
    rw [countedInstant_iff (ordered_sorted samples)]
    refine exists_congr fun p => and_congr_right fun hp => and_congr_left fun _ => ?_
    rw [decide_eq_true_eq, countedBy_iff (ordered_sorted samples) hp]

end TokenProxy.Notifications
