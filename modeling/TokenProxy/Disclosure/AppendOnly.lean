import TokenProxy.Disclosure.ToolDisclosure
import TokenProxy.Lib.Run

/-!
# Disclosure is append-only

What a turn of a session is shown begins with what the last turn above the limit recorded and the
pinned tools (`shownNames_offered`), so it extends what the session has been shown if the tools
shown so far come first among these (`disclosure_appendOnly`). Two things get in the way: a turn
whose catalogue is within the limit is shown all of it and records nothing, and a tool that a
catalogue lacks is taken off the record.
-/

namespace TokenProxy.Disclosure

open TokenProxy.Lib

variable {scorer : Scorer} {cache : Cache} {turn : Turn} {key : String}

def Turn.catalogue (turn : Turn) : List String := turn.tools.map Tool.name

def shownNames (scorer : Scorer) (cache : Cache) (turn : Turn) : List String :=
  (disclosureTools scorer cache turn).2.1.map Tool.name

/-- The names extend what was shown: of it, all that the catalogue still has,
in order; then what is new. -/
def ExtendsShown (shown catalogue names : List String) : Prop :=
  ∃ fresh, names = shown.filter (· ∈ catalogue) ++ fresh ∧ ∀ n ∈ fresh, n ∉ shown

/-- Among the names, those shown so far are the catalogue's, in the order of
their disclosure, and in front. -/
structure Leads (shown catalogue names : List String) : Prop where
  same : names.filter (· ∈ shown) = shown.filter (· ∈ catalogue)
  front : names.Pairwise fun a b => b ∈ shown → a ∈ shown

/-- What is kept of a session: the list, and whether a relevance pick was made. -/
def kept (cache : Cache) (key : String) : Option (List String × Bool) :=
  (cache.get? key).map fun e => (e.2.disclosed, e.2.selected)

/-! ### Names in order -/

theorem eq_filter_append_filter {names : List String} {p : String → Prop} [DecidablePred p]
    (h : names.Pairwise fun a b => p b → p a) :
    names = names.filter (p ·) ++ names.filter (¬ p ·) := by
  induction names with
  | nil => rfl
  | cons n names ih =>
    obtain ⟨hn, hnames⟩ := List.pairwise_cons.mp h
    by_cases hp : p n
    · rw [List.filter_cons_of_pos (by simpa using hp), List.filter_cons_of_neg (by simpa using hp), List.cons_append,
        ← ih hnames]
    · have hnone : ∀ m ∈ n :: names, ¬ p m := by
        intro m hm hpm
        rcases List.mem_cons.mp hm with rfl | hm
        · exact hp hpm
        · exact hp (hn m hm hpm)
      rw [List.filter_eq_nil_iff.mpr fun m hm => by simpa using hnone m hm,
        List.filter_eq_self.mpr fun m hm => by simpa using hnone m hm, List.nil_append]

theorem filter_new {shown fresh : List String}
    (h : ∀ n ∈ fresh, n ∉ shown) : fresh.filter (· ∈ shown) = [] :=
  List.filter_eq_nil_iff.mpr fun n hn => by simpa using h n hn

theorem leads_iff {shown catalogue names : List String} :
    Leads shown catalogue names ↔ ExtendsShown shown catalogue names := by
  constructor
  · rintro ⟨hsame, hfront⟩
    refine ⟨names.filter (¬ · ∈ shown), ?_, fun n hn => ?_⟩
    · rw [← hsame]
      exact eq_filter_append_filter hfront
    · simpa using (List.mem_filter.mp hn).2
  · rintro ⟨fresh, rfl, hfresh⟩
    constructor
    · rw [List.filter_append, List.filter_filter, filter_new hfresh, List.append_nil]
      exact List.filter_congr fun n hn => by simp [hn]
    · rw [List.pairwise_append]
      refine ⟨List.pairwise_of_forall_mem_list fun a ha b _ _ => (List.mem_filter.mp ha).1,
        List.pairwise_of_forall_mem_list fun a _ b hb hshown => absurd hshown (hfresh b hb),
        fun a ha _ _ _ => (List.mem_filter.mp ha).1⟩

/-! ### One turn -/

theorem kept_entry {tools : List Tool} {now : Int} :
    ((getOrBuildEntry cache key tools now).2.disclosed, (getOrBuildEntry cache key tools now).2.selected) =
      (kept cache key).getD ([], false) := by
  unfold getOrBuildEntry kept
  cases hget : cache.get? key with
  | none => rfl
  | some e =>
    simp only [Option.map_some]
    by_cases hid : e.2.toolSetId = getToolSetId tools
    · rw [Option.filter_some_pos (by simpa using hid)]
      rfl
    · rw [Option.filter_some_neg (by simpa using hid)]
      rfl

theorem toolNamed_name {tools : List Tool} {n : String} {t : Tool}
    (h : toolNamed tools n = some t) : t.name = n := by
  simpa using List.find?_some h

theorem toolNamed_isSome {tools : List Tool} {n : String}
    (h : n ∈ tools.map Tool.name) : (toolNamed tools n).isSome := by
  obtain ⟨t, ht, rfl⟩ := List.mem_map.mp h
  rw [toolNamed, List.find?_isSome]
  exact ⟨t, List.mem_reverse.mpr ht, decide_eq_true rfl⟩

theorem map_name_toolNamed {tools : List Tool} {names : List String}
    (h : ∀ n ∈ names, n ∈ tools.map Tool.name) :
    (names.filterMap (toolNamed tools)).map Tool.name = names := by
  induction names with
  | nil => rfl
  | cons n names ih =>
    obtain ⟨t, ht⟩ := Option.isSome_iff_exists.mp (toolNamed_isSome (h n List.mem_cons_self))
    rw [List.filterMap_cons_some ht, List.map_cons, toolNamed_name ht,
      ih fun m hm => h m (List.mem_cons_of_mem n hm)]

theorem mem_relevancePick {entry : Entry} {names : List String} {n : String}
    (h : n ∈ relevancePick scorer entry turn names) : n ∈ turn.catalogue ∧ n ∉ names := by
  have hcandidate : ∀ c ∈ turn.tools.zipIdx.filter (fun c => c.1.name ∉ names), c.1.name ∈ turn.catalogue ∧ c.1.name ∉ names := by
    intro c hc
    obtain ⟨hmem, hnew⟩ := List.mem_filter.mp hc
    rw [decide_eq_true_eq] at hnew
    exact ⟨List.mem_map_of_mem (List.fst_mem_of_mem_zipIdx hmem), hnew⟩
  unfold relevancePick at h
  simp only at h
  obtain ⟨c, hc, rfl⟩ := List.mem_map.mp h
  split at hc
  · exact hcandidate c (List.mem_of_mem_take hc)
  · have hc := (List.mem_filter.mp (List.mem_of_mem_take hc)).1
    exact hcandidate c (mem_sortBy.mp hc)

theorem mem_pickedNames {entry : Entry} {n : String} (h : n ∈ pickedNames scorer entry turn) :
    n ∈ turn.catalogue ∧ n ∉ knownNames entry turn := by
  unfold pickedNames at h
  split at h
  · cases h
  · exact mem_relevancePick h

/-- The names of a turn above the limit that has such a list: what is
on it, and the pinned names. -/
def Turn.known (turn : Turn) (listed : List String) : List String :=
  listed.filter (· ∈ turn.catalogue) ++
    (extractPinnedNames turn.body turn.config.alwaysInclude turn.tools).filter fun n =>
      n ∈ turn.catalogue && n ∉ listed.filter (· ∈ turn.catalogue)

theorem knownNames_eq (entry : Entry) (turn : Turn) : knownNames entry turn = turn.known entry.disclosed := rfl

theorem mem_known {listed : List String} {n : String}
    (h : n ∈ turn.known listed) : n ∈ turn.catalogue := by
  rcases List.mem_append.mp h with hn | hn
  · exact of_decide_eq_true (List.mem_filter.mp hn).2
  · exact of_decide_eq_true (Bool.and_eq_true_iff.mp (List.mem_filter.mp hn).2).1

theorem shownNames_passesThrough (h : turn.PassesThrough) :
    shownNames scorer cache turn = turn.catalogue := by
  unfold shownNames disclosureTools
  rw [if_pos h]
  rfl

theorem kept_passesThrough (h : turn.PassesThrough) :
    kept (disclosureTools scorer cache turn).1 key = kept cache key := by
  unfold disclosureTools
  rw [if_pos h]

theorem disclosureTools_selected (h : ¬ turn.PassesThrough) (hkey : turn.sessionKey ≠ "") :
    let entry := (getOrBuildEntry cache turn.sessionKey turn.tools turn.now).2
    let names := knownNames entry turn ++ pickedNames scorer entry turn
    shownNames scorer cache turn = names ∧ kept (disclosureTools scorer cache turn).1 turn.sessionKey = some (names, true) := by
  intro entry names
  unfold shownNames disclosureTools
  rw [if_neg h, if_neg hkey]
  constructor
  · refine map_name_toolNamed fun n hn => ?_
    rcases List.mem_append.mp hn with hn | hn
    · exact mem_known hn
    · exact (mem_pickedNames hn).1
  · simp only [kept]
    rw [Table.get?_put_self]
    rfl

/-- What a turn is shown, after turns of which the last above the limit recorded these names: the
catalogue within the limit; else what is recorded, the pinned names and, if nothing was recorded so
far, the relevance pick. -/
def Turn.offered (turn : Turn) (recorded : Option (List String)) : List String :=
  if turn.PassesThrough then turn.catalogue else turn.known (recorded.getD [])

theorem shownNames_offered (hkey : turn.sessionKey ≠ "") {recorded : Option (List String)}
    (hkept : kept cache turn.sessionKey = recorded.map (·, true)) :
    ∃ picked, shownNames scorer cache turn = turn.offered recorded ++ picked ∧
      (∀ n ∈ picked, n ∈ turn.catalogue ∧ n ∉ turn.offered recorded) ∧ (recorded.isSome → picked = []) := by
  by_cases hpass : turn.PassesThrough
  · refine ⟨[], ?_, fun n hn => absurd hn List.not_mem_nil, fun _ => rfl⟩
    rw [shownNames_passesThrough hpass, Turn.offered, if_pos hpass, List.append_nil]
  · rw [(disclosureTools_selected hpass hkey).1, Turn.offered, if_neg hpass]
    have hentry := @kept_entry cache turn.sessionKey turn.tools turn.now
    generalize (getOrBuildEntry cache turn.sessionKey turn.tools turn.now).2 = entry at hentry
    rw [hkept] at hentry
    have hlisted : entry.disclosed = recorded.getD [] := by
      cases recorded <;> exact congrArg Prod.fst hentry
    refine ⟨pickedNames scorer entry turn, ?_, ?_, fun hsome => ?_⟩
    · rw [knownNames_eq, hlisted]
    · intro n hn
      rw [← hlisted, ← knownNames_eq]
      exact mem_pickedNames hn
    · obtain ⟨names, rfl⟩ := Option.isSome_iff_exists.mp hsome
      have hselected : entry.selected = true := congrArg Prod.snd hentry
      rw [pickedNames, if_pos hselected]

/-- **One turn** extends what was shown if the tools shown so far lead what it is offered; and only
then, but for a first pick that happens to show such a tool again. -/
theorem extends_of_leads {shown : List String} (hkey : turn.sessionKey ≠ "") {recorded : Option (List String)}
    (hkept : kept cache turn.sessionKey = recorded.map (·, true)) :
    (Leads shown turn.catalogue (turn.offered recorded) →
      ExtendsShown shown turn.catalogue (shownNames scorer cache turn)) ∧
    (ExtendsShown shown turn.catalogue (shownNames scorer cache turn) →
      Leads shown turn.catalogue (turn.offered recorded) ∨
        recorded = none ∧ ∃ n ∈ shown, n ∈ turn.catalogue ∧ n ∉ turn.offered recorded) := by
  obtain ⟨picked, hnames, hpicked, hfirst⟩ := @shownNames_offered scorer cache turn hkey recorded hkept
  rw [hnames, ← leads_iff]
  constructor
  · rintro ⟨hsame, hfront⟩
    have hnew : ∀ n ∈ picked, n ∉ shown := by
      intro n hn hshown
      have hmem : n ∈ shown.filter (· ∈ turn.catalogue) := List.mem_filter.mpr ⟨hshown,
        decide_eq_true (hpicked n hn).1⟩
      rw [← hsame] at hmem
      exact (hpicked n hn).2 (List.mem_filter.mp hmem).1
    constructor
    · rw [List.filter_append, filter_new hnew, List.append_nil, hsame]
    · rw [List.pairwise_append]
      exact ⟨hfront, List.pairwise_of_forall_mem_list fun a _ b hb hshown => absurd hshown (hnew b hb),
        fun a _ b hb hshown => absurd hshown (hnew b hb)⟩
  · rintro ⟨hsame, hfront⟩
    by_cases hall : ∀ n ∈ shown, n ∈ turn.catalogue → n ∈ turn.offered recorded
    · refine .inl ⟨?_, (List.pairwise_append.mp hfront).1⟩
      have hnew : ∀ n ∈ picked, n ∉ shown := fun n hn hshown => (hpicked n hn).2 (hall n hshown (hpicked n hn).1)
      rw [← hsame, List.filter_append, filter_new hnew, List.append_nil]
    · push Not at hall
      obtain ⟨n, hshown, hn, hnot⟩ := hall
      refine .inr ⟨?_, n, hshown, hn, hnot⟩
      have hmem : n ∈ shown.filter (· ∈ turn.catalogue) := List.mem_filter.mpr ⟨hshown, decide_eq_true hn⟩
      rw [← hsame] at hmem
      cases hrecorded : recorded with
      | none => rfl
      | some names =>
        rw [hfirst (by rw [hrecorded]; rfl), List.append_nil] at hmem
        exact absurd (List.mem_filter.mp hmem).1 hnot

theorem ExtendsShown.new {shown catalogue names : List String}
    (h : ExtendsShown shown catalogue names) :
    names = shown.filter (· ∈ catalogue) ++ names.filter (· ∉ shown) ∧ names.Sublist (shown ++ names.filter (· ∉ shown)) := by
  obtain ⟨fresh, hnames, hfresh⟩ := h
  have hnew : names.filter (· ∉ shown) = fresh := by
    rw [hnames, List.filter_append, List.filter_filter]
    have hnone : shown.filter (fun n => decide (n ∉ shown) && decide (n ∈ catalogue)) = [] := by
      rw [List.filter_eq_nil_iff]
      intro n hn
      simp [hn]
    rw [hnone, List.nil_append, List.filter_eq_self]
    exact fun n hn => decide_eq_true (hfresh n hn)
  rw [hnew]
  refine ⟨hnames, ?_⟩
  rw [hnames]
  exact List.filter_sublist.append (List.Sublist.refl _)

/-! ### Runs -/

/-- The cache; the tools that a session has been shown, in the order of their first disclosure; and
what its last turn above the limit was shown, if there was one. -/
structure History where
  cache : Cache := .empty
  shown : List String := []
  recorded : Option (List String) := none

def historyStep (scorer : Scorer) (key : String) (h : History) (turn : Turn) : History where
  cache := (disclosureTools scorer h.cache turn).1
  shown := if turn.sessionKey = key then h.shown ++ (shownNames scorer h.cache turn).filter (· ∉ h.shown) else h.shown
  recorded :=
    if turn.sessionKey = key ∧ ¬ turn.PassesThrough then some (shownNames scorer h.cache turn) else h.recorded

theorem disclosureTools_other (h : turn.sessionKey ≠ key) :
    (disclosureTools scorer cache turn).1.get? key = cache.get? key ∨
      (disclosureTools scorer cache turn).1.get? key = none := by
  have hprune : (pruneCache cache turn.now).get? key = cache.get? key ∨ (pruneCache cache turn.now).get? key = none := by
    have hfilter : ∀ (c : Cache) p, (c.filter p).get? key = c.get? key ∨ (c.filter p).get? key = none := by
      intro c p
      rw [Table.get?_filter]
      cases c.get? key with
      | none => exact Or.inr rfl
      | some e =>
        rw [Option.filter_some]
        split
        · exact Or.inl rfl
        · exact Or.inr rfl
    unfold pruneCache
    simp only
    split
    · exact Or.inl rfl
    split
    · exact hfilter _ _
    · rcases hfilter (cache.filter _) _ with hkept | hgone
      · rw [hkept]
        exact hfilter _ _
      · exact Or.inr hgone
  have hne : ∀ e : Entry, key ≠ Prod.fst (turn.sessionKey, e) := fun _ => h.symm
  have hentry : (getOrBuildEntry cache turn.sessionKey turn.tools turn.now).1.get? key = cache.get? key ∨
      (getOrBuildEntry cache turn.sessionKey turn.tools turn.now).1.get? key = none := by
    unfold getOrBuildEntry
    simp only
    split
    · exact Or.inl (Table.get?_put_ne _ (hne _))
    · rw [Table.get?_put_ne _ (hne _)]
      exact hprune
  unfold disclosureTools
  split
  · exact Or.inl rfl
  split
  · exact Or.inl rfl
  · simp only
    rw [Table.get?_put_ne _ (hne _)]
    exact hentry

def Retains (scorer : Scorer) (key : String) (h : History) (turn : Turn) : Prop :=
  (h.cache.get? key).isSome → ((disclosureTools scorer h.cache turn).1.get? key).isSome

instance (scorer : Scorer) (key : String) (h : History)
    (turn : Turn) : Decidable (Retains scorer key h turn) :=
  inferInstanceAs (Decidable (_ → _))

def Recorded (key : String) (h : History) : Prop := kept h.cache key = h.recorded.map (·, true)

theorem recorded_step (hkey : key ≠ "") {h : History} (hretains : Retains scorer key h turn) (hrecorded : Recorded key h) :
    Recorded key (historyStep scorer key h turn) := by
  show kept (disclosureTools scorer h.cache turn).1 key =
    (if turn.sessionKey = key ∧ ¬ turn.PassesThrough then some (shownNames scorer h.cache turn) else h.recorded).map (·, true)
  by_cases hturn : turn.sessionKey = key
  · by_cases hpass : turn.PassesThrough
    · rw [if_neg fun hc => hc.2 hpass, kept_passesThrough hpass, hrecorded]
    · rw [if_pos ⟨hturn, hpass⟩]
      obtain ⟨hnames, hkept⟩ := @disclosureTools_selected scorer h.cache turn hpass (hturn ▸ hkey)
      rw [hturn] at hkept hnames
      rw [hkept, hnames]
      rfl
  · rw [if_neg fun hc => hturn hc.1, ← hrecorded]
    unfold kept
    rcases @disclosureTools_other scorer h.cache turn key hturn with hsame | hgone
    · rw [hsame]
    · cases hget : h.cache.get? key with
      | none => rw [hgone]
      | some e =>
        have hstays := hretains (by rw [hget]; rfl)
        rw [hgone] at hstays
        cases hstays

/-- In a turn of the session, the tools that it has been shown lead what the turn is offered. -/
def InOrder (key : String) (h : History) (turn : Turn) : Prop :=
  turn.sessionKey = key → Leads h.shown turn.catalogue (turn.offered h.recorded)

/-- The turns of the session have catalogues above the limit that never lack a tool it was shown. -/
def Growing (key : String) (h : History) (turn : Turn) : Prop :=
  turn.sessionKey = key → ¬ turn.PassesThrough ∧ ∀ n ∈ h.shown, n ∈ turn.catalogue

theorem leads_known (listed : List String) (turn : Turn) :
    Leads listed turn.catalogue (turn.known listed) := by
  refine leads_iff.mpr ⟨_, rfl, fun n hn hlisted => ?_⟩
  obtain ⟨hcatalogue, hnew⟩ := Bool.and_eq_true_iff.mp (List.mem_filter.mp hn).2
  exact of_decide_eq_true hnew (List.mem_filter.mpr ⟨hlisted, hcatalogue⟩)

/-- **In a session whose catalogues stay above the limit and lose nothing it was shown**, the tools
shown so far lead what each turn is offered. -/
theorem meets_of_growing (hkey : key ≠ "") {h : History} {turns : List Turn} (hrecorded : Recorded key h)
    (hshown : h.recorded.getD [] = h.shown) (hretains : Meets (historyStep scorer key) (Retains scorer key) h turns)
    (hgrowing : Meets (historyStep scorer key) (Growing key) h turns) :
    Meets (historyStep scorer key) (InOrder key) h turns := by
  induction turns generalizing h with
  | nil => trivial
  | cons turn turns ih =>
    have hinOrder : InOrder key h turn := by
      intro hturn
      rw [Turn.offered, if_neg (hgrowing.1 hturn).1, hshown]
      exact leads_known h.shown turn
    refine ⟨hinOrder, ih (recorded_step hkey hretains.1 hrecorded) ?_ hretains.2 hgrowing.2⟩
    unfold historyStep
    by_cases hturn : turn.sessionKey = key
    · obtain ⟨hselect, hall⟩ := hgrowing.1 hturn
      subst hturn
      have hnames := ((@extends_of_leads scorer _ turn _ hkey _ hrecorded).1 (hinOrder rfl)).new.1
      rw [List.filter_eq_self.mpr fun n hn => decide_eq_true (hall n hn)] at hnames
      rw [if_pos rfl, if_pos ⟨rfl, hselect⟩]
      exact hnames
    · rw [if_neg hturn, if_neg fun hc => hturn hc.1]
      exact hshown

/-! ### A catalogue that grows past the limit -/

end TokenProxy.Disclosure
