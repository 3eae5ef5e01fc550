import TokenProxy.Ranking.Repin

/-!
# The order in which a request tries accounts

The ranking, the decision about the pin and the plan agree on who is usable: what the decision names
is eligible, or the pin is held while no account is (`decideRepin_names`). So a request is sent to
usable accounts, or to the account of its pin alone (`planAccountSelection_safe`); and a pin whose
account is usable, on evidence, is kept whatever the other accounts are (`decideRepin_keeps`).

The failure locks of an account are not looked at.
-/

namespace TokenProxy.Ranking

open TokenProxy.Lib TokenProxy.Scheduler

variable {accounts : List (Candidate Account)} {now : Int} {pin : Option Pin} {activeLoad : Option (String → Load)}
  {model : String}

/-! ### What the decision names -/

theorem truthy_eq_some {id : Option String} {x : String} : truthy id = some x ↔ id = some x ∧ x ≠ "" := by
  unfold truthy
  rw [Option.filter_eq_some_iff]
  simp

def Holds (pin : Option Pin) (repin : Repin) : Prop :=
  repin.action = .keep ∧ repin.connectionId = pin.map Pin.connectionId

/-- What is moved to is an eligible account; where nothing is named, no eligible account can be. -/
def Names (ranking : RankedAccounts) (repin : Repin) : Prop :=
  repin.action ≠ .keep ∧
    match repin.connectionId with
    | some id => ∃ r ∈ ranking.eligible, r.id = id
    | none => True

theorem names_winner {ranking : RankedAccounts} (hwinner : ranking.winner = ranking.eligible.head?)
    {previous : Option String} {trigger reason otherwise : String} :
    Names ranking (moveOrNothing (truthy (ranking.winner.map Record.id)) previous trigger reason otherwise) := by
  unfold moveOrNothing
  split
  · rename_i id hid
    obtain ⟨hid, -⟩ := truthy_eq_some.mp hid
    obtain ⟨r, hr, rfl⟩ := Option.map_eq_some_iff.mp hid
    rw [hwinner] at hr
    exact ⟨nofun, r, List.mem_of_head? hr, rfl⟩
  · exact ⟨nofun, trivial⟩

/-- **`decideRepin`** keeps the pin, or names an eligible account. It keeps the pin of an account
that is ranked and not denied; that account is eligible, or none is. -/
theorem decideRepin_names [Collation] (accounts : List (Candidate Account)) (pin : Option Pin)
    (now : Int) (activeLoad : Option (String → Load)) (model : String) :
    let ranking := rankAccounts accounts now (pin.map Pin.connectionId) activeLoad model
    let repin := decideRepin pin accounts now [] activeLoad model
    Names ranking repin ∨
      (Holds pin repin ∧ ∃ r, (ranking.ranked.find? fun r => some r.id = pin.map Pin.connectionId) = some r ∧
        r.hardBlocked = false ∧ r.id ≠ "" ∧
        (ranking.eligible = [] ∨ ∃ r' ∈ ranking.eligible, some r'.id = pin.map Pin.connectionId)) := by
  intro ranking repin
  obtain ⟨-, heligible, hwinner, hdegraded, -⟩ := rankAccounts_spec accounts now (pin.map Pin.connectionId) activeLoad model
  have hcohort : (accounts.filter fun a => a.id ∉ ([] : List String)) = accounts := by simp
  -- the pinned account is ranked once it is not gone
  have hranked : ∀ id, truthy (pin.map Pin.connectionId) = some id → (accounts.any fun a => decide (a.id = id)) = true →
      (∀ r, (ranking.ranked.find? fun r => some r.id = pin.map Pin.connectionId) = some r → r.hardBlocked = false) →
      ∃ r, (ranking.ranked.find? fun r => some r.id = pin.map Pin.connectionId) = some r ∧ r.hardBlocked = false ∧
        r.id ≠ "" := by
    intro id hid hany hblocked
    obtain ⟨hpin, hne⟩ := truthy_eq_some.mp hid
    obtain ⟨c, hc, hcid⟩ := List.any_eq_true.mp hany
    rw [decide_eq_true_eq] at hcid
    obtain ⟨i, hi, rfl⟩ := List.mem_iff_getElem.mp hc
    have hmem : toRecord now activeLoad model i accounts[i] ∈ ranking.ranked :=
      mem_ranked.mpr (mem_recordsOf.mpr ⟨accounts[i], List.getElem?_eq_getElem hi, rfl⟩)
    have hsome : (ranking.ranked.find? fun r => some r.id = pin.map Pin.connectionId).isSome = true := by
      rw [List.find?_isSome]
      exact ⟨_, hmem, by rw [hpin, ← hcid]; simp [toRecord]⟩
    obtain ⟨r, hr⟩ := Option.isSome_iff_exists.mp hsome
    have hrid := List.find?_some hr
    rw [decide_eq_true_eq, hpin, Option.some.injEq] at hrid
    exact ⟨r, hr, hblocked r hr, hrid ▸ hne⟩
  show Names ranking (decideRepin pin accounts now [] activeLoad model) ∨
    (Holds pin (decideRepin pin accounts now [] activeLoad model) ∧ _)
  unfold decideRepin
  rw [hcohort]
  simp only
  split
  · exact Or.inl ⟨fun h => (by cases h), trivial⟩
  split
  · exact Or.inl (names_winner hwinner)
  rename_i hblocked
  have hblocked : ∀ r, (ranking.ranked.find? fun r => some r.id = pin.map Pin.connectionId) = some r →
      r.hardBlocked = false := by
    intro r hr
    rw [hr] at hblocked
    simpa using hblocked
  split
  · exact Or.inl (names_winner hwinner)
  rename_i hgone
  have hhere : ∀ id, truthy (pin.map Pin.connectionId) = some id → (accounts.any fun a => decide (a.id = id)) = true := by
    intro id hid
    rw [hid] at hgone
    simpa using hgone
  split
  · rename_i hnone
    split
    · -- no account has evidence: the pinned one is usable, for it is not denied
      rename_i hpinned
      obtain ⟨id, hid⟩ := Option.isSome_iff_exists.mp hpinned
      obtain ⟨r, hr, hrblocked, hrid⟩ := hranked id hid (hhere id hid) hblocked
      have hmem := mem_ranked.mp (List.mem_of_find?_eq_some hr)
      have hblind : r.windows = [] := by
        have := List.any_eq_false.mp (hdegraded hnone) r hmem
        simpa using this
      have husable := usable_of_blind hmem hblind hrblocked
      have hrpin := List.find?_some hr
      rw [decide_eq_true_eq] at hrpin
      exact Or.inr ⟨⟨rfl, rfl⟩, r, hr, hrblocked, hrid, Or.inr ⟨r, mem_eligible.mpr ⟨hmem, husable⟩, hrpin⟩⟩
    · exact Or.inl (names_winner hwinner)
  split
  · exact Or.inl (names_winner hwinner)
  rename_i hpinned
  obtain ⟨id, hid⟩ : ∃ id, truthy (pin.map Pin.connectionId) = some id :=
    Option.ne_none_iff_exists'.mp (by simpa using hpinned)
  obtain ⟨r, hr, hrblocked, hrid⟩ := hranked id hid (hhere id hid) hblocked
  split
  · rename_i hempty
    exact Or.inr ⟨⟨rfl, rfl⟩, r, hr, hrblocked, hrid, Or.inl (List.isEmpty_iff.mp hempty)⟩
  split
  · rename_i pinnedRecord hfind
    have hpinnedMem := List.mem_of_find?_eq_some hfind
    have hpinnedId := List.find?_some hfind
    rw [decide_eq_true_eq] at hpinnedId
    have hkeeps : Holds pin (keep pin "pin-healthy") ∧ ∃ r,
        (ranking.ranked.find? fun r => some r.id = pin.map Pin.connectionId) = some r ∧ r.hardBlocked = false ∧ r.id ≠ "" ∧
          (ranking.eligible = [] ∨ ∃ r' ∈ ranking.eligible, some r'.id = pin.map Pin.connectionId) :=
      ⟨⟨rfl, rfl⟩, r, hr, hrblocked, hrid, Or.inr ⟨pinnedRecord, hpinnedMem, hpinnedId⟩⟩
    unfold repinEligible
    split
    · split
      · exact Or.inr hkeeps
      · rename_i alternative halternative
        exact Or.inl ⟨fun h => (by cases h), alternative, List.mem_of_find?_eq_some halternative, rfl⟩
    · exact Or.inr hkeeps
  · unfold repinDepleted
    split
    · exact Or.inl ⟨fun h => (by cases h), trivial⟩
    · rename_i id' hid'
      obtain ⟨hid', -⟩ := truthy_eq_some.mp hid'
      obtain ⟨w, hw, rfl⟩ := Option.map_eq_some_iff.mp hid'
      have hmem : w ∈ ranking.eligible := List.mem_of_head? (hwinner ▸ hw)
      split
      · exact Or.inl ⟨fun h => (by cases h), w, hmem, rfl⟩
      · exact Or.inl ⟨fun h => (by cases h), w, hmem, rfl⟩

/-! ### The plan -/

theorem preferred_cases [Collation] (accounts : List (Candidate Account)) (pin : Option Pin)
    (activeLoad : Option (String → Load)) (model : String) (now : Int) :
    let ranking := rankAccounts accounts now (pin.map Pin.connectionId) activeLoad model
    let preferred := (planAccountSelection accounts pin activeLoad model now).preferred
    preferred = ranking.eligible ∨
      (∃ r ∈ ranking.eligible, preferred = [r] ∨ preferred = r :: ranking.eligible.filter fun x => x.id ≠ r.id) ∨
      (ranking.eligible = [] ∧ ∃ r ∈ ranking.ranked, preferred = [r] ∧ some r.id = pin.map Pin.connectionId ∧
        r.hardBlocked = false) := by
  intro ranking preferred
  have hpreferred : preferred = (decidedRecord ranking (decideRepin pin accounts now [] activeLoad model)).elim
      ranking.eligible fun decided =>
        if (decideRepin pin accounts now [] activeLoad model).action = .keep then [decided]
        else decided :: ranking.eligible.filter fun r =>
          some r.id ≠ (decideRepin pin accounts now [] activeLoad model).connectionId := by
    unfold preferred planAccountSelection
    simp only
    cases decidedRecord ranking (decideRepin pin accounts now [] activeLoad model) with
    | none => rfl
    | some decided => rfl
  rw [hpreferred]
  have hnames := decideRepin_names accounts pin now activeLoad model
  simp only at hnames
  generalize decideRepin pin accounts now [] activeLoad model = repin at hnames
  rcases hnames with ⟨hmove, hnamed⟩ | ⟨⟨hkeep, hid⟩, r, hfind, hblocked, hrid, hor⟩
  · unfold decidedRecord
    cases htruthy : truthy repin.connectionId with
    | none => exact Or.inl rfl
    | some id =>
      obtain ⟨hconnection, -⟩ := truthy_eq_some.mp htruthy
      rw [hconnection] at hnamed
      obtain ⟨r, hr, rfl⟩ := hnamed
      obtain ⟨r', hr'⟩ : ∃ r', ranking.eligible.find? (fun x => decide (x.id = r.id)) = some r' := by
        rw [← Option.isSome_iff_exists, List.find?_isSome]
        exact ⟨r, hr, by simp⟩
      have hid' := List.find?_some hr'
      rw [decide_eq_true_eq] at hid'
      simp only [hr', Option.elim_some, if_neg hmove, hconnection]
      refine Or.inr (Or.inl ⟨r', List.mem_of_find?_eq_some hr', Or.inr ?_⟩)
      simp only [hid', ne_eq, Option.some.injEq]
  · have hrpin := List.find?_some hfind
    rw [decide_eq_true_eq] at hrpin
    have htruthy : truthy repin.connectionId = some r.id := truthy_eq_some.mpr ⟨hid.trans hrpin.symm, hrid⟩
    have hsame : (fun x : Record => decide (x.id = r.id)) = fun x => decide (some x.id = pin.map Pin.connectionId) := by
      funext x
      rw [← hrpin]
      simp
    unfold decidedRecord
    simp only [htruthy, if_pos hkeep, hsame]
    cases heligible : ranking.eligible.find? fun x => decide (some x.id = pin.map Pin.connectionId) with
    | some r' => exact Or.inr (Or.inl ⟨r', List.mem_of_find?_eq_some heligible, Or.inl rfl⟩)
    | none =>
      have hfind : (ranking.ranked.find? fun x => decide (some x.id = pin.map Pin.connectionId)) = some r := hfind
      simp only [hfind]
      rcases hor with hempty | ⟨r', hr', hrid'⟩
      · exact Or.inr (Or.inr ⟨hempty, r, List.mem_of_find?_eq_some hfind, rfl, hrpin, hblocked⟩)
      · have hnone := List.find?_eq_none.mp heligible r' hr'
        rw [decide_eq_true_eq] at hnone
        exact absurd hrid' hnone

theorem nodup_cons_filter {κ : Type} {f : Record → κ} {l : List Record} {r : Record}
    {p : Record → Bool}
    (h : (l.map f).Nodup) (hr : r ∈ l) (hp : p r = false) : ((r :: l.filter p).map f).Nodup := by
  rw [List.map_cons, List.nodup_cons]
  constructor
  · intro hmem
    obtain ⟨x, hx, hfx⟩ := List.mem_map.mp hmem
    obtain ⟨hx, hpx⟩ := List.mem_filter.mp hx
    rw [List.inj_on_of_nodup_map h hx hr hfx, hp] at hpx
    cases hpx
  · exact h.sublist (List.filter_sublist.map f)

/-- The records that a plan tries are all different, in any respect in which the ranked ones are. -/
theorem preferred_nodup [Collation] {κ : Type} {f : Record → κ}
    (h : ((rankAccounts accounts now (pin.map Pin.connectionId) activeLoad model).ranked.map f).Nodup) :
    ((planAccountSelection accounts pin activeLoad model now).preferred.map f).Nodup := by
  have heligible : ((rankAccounts accounts now (pin.map Pin.connectionId) activeLoad model).eligible.map f).Nodup := by
    rw [(rankAccounts_spec accounts now (pin.map Pin.connectionId) activeLoad model).2.1]
    exact h.sublist (List.filter_sublist.map f)
  rcases preferred_cases accounts pin activeLoad model now with hall | ⟨r, hr, hone | hfirst⟩ | ⟨-, r, -, hone, -⟩
  · rw [hall]
    exact heligible
  · rw [hone]
    exact List.nodup_singleton _
  · rw [hfirst]
    exact nodup_cons_filter heligible hr (by simp)
  · rw [hone]
    exact List.nodup_singleton _

theorem preferred_mem [Collation] {r : Record}
    (h : r ∈ (planAccountSelection accounts pin activeLoad model now).preferred) :
    r ∈ recordsOf accounts now activeLoad model := by
  rcases preferred_cases accounts pin activeLoad model now with hall | ⟨r', hr', hone | hfirst⟩ | ⟨-, r', hr', hone, -⟩
  · exact (mem_eligible.mp (hall ▸ h)).1
  · rw [hone, List.mem_singleton] at h
    exact h ▸ (mem_eligible.mp hr').1
  · rw [hfirst, List.mem_cons] at h
    rcases h with rfl | h
    · exact (mem_eligible.mp hr').1
    · exact (mem_eligible.mp (List.mem_filter.mp h).1).1
  · rw [hone, List.mem_singleton] at h
    exact h ▸ mem_ranked.mp hr'

theorem usable_candidate [Collation] {r : Record}
    (h : r ∈ recordsOf accounts now activeLoad model) :
    r.usable = true ↔ Usable now model r.candidate := by
  obtain ⟨c, -, hr⟩ := mem_recordsOf.mp h
  rw [hr]
  exact usable_toRecord_iff

/-- **A request is sent to usable accounts**, each once and each a candidate; if no candidate is
usable, at most to the account of the pin, which is not denied. -/
theorem planAccountSelection_safe [Collation] (accounts : List (Candidate Account))
    (pin : Option Pin) (activeLoad : Option (String → Load)) (model : String) (now : Int) :
    let preferred := (planAccountSelection accounts pin activeLoad model now).preferred
    ((∀ r ∈ preferred, Usable now model r.candidate) ∨
      ∃ r, preferred = [r] ∧ some r.id = pin.map Pin.connectionId ∧ ¬ HardBlocked model r.candidate ∧
        ∀ c ∈ accounts, ¬ Usable now model c) ∧
    (∀ r ∈ preferred, accounts[r.index]? = some r.candidate) ∧
    (preferred.map Record.index).Nodup ∧
    ((accounts.map Candidate.id).Nodup → (preferred.map Record.id).Nodup) := by
  intro preferred
  refine ⟨?_, ?_, ?_, ?_⟩
  · rcases preferred_cases accounts pin activeLoad model now with hall | ⟨r, hr, hone | hfirst⟩ |
      ⟨hempty, r, hr, hone, hpin, hblocked⟩
    · left
      intro r hr
      rw [show preferred = _ from hall] at hr
      obtain ⟨hmem, husable⟩ := mem_eligible.mp hr
      exact (usable_candidate hmem).mp husable
    · left
      intro x hx
      rw [show preferred = _ from hone] at hx
      obtain rfl := List.mem_singleton.mp hx
      exact (usable_candidate (mem_eligible.mp hr).1).mp (mem_eligible.mp hr).2
    · left
      intro x hx
      have hx : x ∈ (rankAccounts accounts now (pin.map Pin.connectionId) activeLoad model).eligible := by
        rw [show preferred = _ from hfirst] at hx
        rcases List.mem_cons.mp hx with rfl | hx
        · exact hr
        · exact (List.mem_filter.mp hx).1
      exact (usable_candidate (mem_eligible.mp hx).1).mp (mem_eligible.mp hx).2
    · right
      refine ⟨r, hone, hpin, ?_, fun c hc husable => ?_⟩
      · obtain ⟨c, -, hrc⟩ := mem_recordsOf.mp (mem_ranked.mp hr)
        rw [hrc] at hblocked ⊢
        rw [← Bool.not_eq_true, hardBlocked_iff] at hblocked
        exact hblocked
      · obtain ⟨i, hi, rfl⟩ := List.mem_iff_getElem.mp hc
        have hmem : toRecord now activeLoad model i accounts[i] ∈ recordsOf accounts now activeLoad model :=
          mem_recordsOf.mpr ⟨accounts[i], List.getElem?_eq_getElem hi, rfl⟩
        have heligible : toRecord now activeLoad model i accounts[i] ∈
            (rankAccounts accounts now (pin.map Pin.connectionId) activeLoad model).eligible :=
          mem_eligible.mpr ⟨hmem, usable_toRecord_iff.mpr husable⟩
        rw [hempty] at heligible
        cases heligible
  · intro r hr
    obtain ⟨c, hc, hrc⟩ := mem_recordsOf.mp (preferred_mem hr)
    rw [hc, hrc]
    rfl
  · apply preferred_nodup
    rw [((ranked_perm accounts now _ activeLoad model).map Record.index).nodup_iff, recordsOf_index]
    exact List.nodup_range
  · intro hids
    apply preferred_nodup
    rw [((ranked_perm accounts now _ activeLoad model).map Record.id).nodup_iff]
    have hcandidate := congrArg (List.map Candidate.id) (@recordsOf_candidate accounts now activeLoad model _)
    rw [List.map_map] at hcandidate
    exact (show (recordsOf accounts now activeLoad model).map Record.id = accounts.map Candidate.id from hcandidate) ▸ hids

/-! A failure lock does not keep an account out. -/

/-- `getModelLockKey(model)` -/
def getModelLockKey (model : String) : String := if model = "" then "modelLock___all" else "modelLock_" ++ model

/-- `isActiveLockUntil(until, now)`, of the lock of a model or of the whole account. -/
def isTimedLockActive (account : Account) (model : String) (now : Int) : Bool :=
  [getModelLockKey model, getModelLockKey ""].any fun key => (account.modelLocks.lookup key).any fun until_ => now < until_

/-- An account with a quarter of its week left, that failed for a model a moment ago. -/
def lockedAccount : Candidate Account :=
  ⟨"locked", ⟨"claude", none, none, [some ⟨"weekly (7d)", .finite 25, .finite 100, some 604800000, .fresh⟩],
    [("modelLock_opus", 60000)]⟩⟩

section Locked

attribute [local instance] byCodePoint

theorem lockedAccount_preferred :
    isTimedLockActive lockedAccount.account "opus" 0 = true ∧
      (planAccountSelection [lockedAccount] none none "opus" 0).preferred.map Record.id = ["locked"] := by
  constructor
  · decide
  · decide +kernel

end Locked

/-! ### A healthy pin -/

def HasEvidence (now : Int) (model : String) (c : Candidate Account) : Prop :=
  ∃ w ∈ readable model c.account.windows, resolveWindow now w ≠ none

theorem windows_of_hasEvidence [Collation] {index : Nat} {c : Candidate Account}
    (h : HasEvidence now model c) :
    (toRecord now activeLoad model index c).windows ≠ [] := by
  obtain ⟨w, hw, hresolve⟩ := h
  obtain ⟨r, hr⟩ := Option.ne_none_iff_exists'.mp hresolve
  have hmem : w ∈ (normalizeAccountWindows c.account.windows model).windows :=
    (normalizeAccountWindows_spec c.account.windows model).1.mem_iff.mpr hw
  intro hnone
  simp only [toRecord, resolveWindows, sortBy_eq_nil] at hnone
  exact List.not_mem_nil (hnone ▸ List.mem_filterMap.mpr ⟨w, hmem, hr⟩)

/-- What a scheduling decision reads besides the pin, the model and the clock. -/
structure Inputs where
  accounts : List (Candidate Account)
  activeLoad : Option (String → Load)
  unavailableIds : List String

/-- The account is a candidate, the only one of its id, and is not left out. -/
structure Inputs.Has (inputs : Inputs) (pinned : Candidate Account) : Prop where
  mem : pinned ∈ inputs.accounts
  only : ∀ c ∈ inputs.accounts, c.id = pinned.id → c = pinned
  available : pinned.id ∉ inputs.unavailableIds

variable {pinned : Candidate Account} {inputs : Inputs}

theorem Inputs.Has.record [Collation] (h : inputs.Has pinned) (husable : Usable now model pinned)
    (hevidence : HasEvidence now model pinned)
    {r : Record} (hr : r ∈ recordsOf (inputs.accounts.filter fun a => a.id ∉ inputs.unavailableIds) now activeLoad model)
    (hid : r.id = pinned.id) :
    r.candidate = pinned ∧ r.usable = true ∧ r.hardBlocked = false ∧ r.windows.isEmpty = false := by
  obtain ⟨c, hc, hrc⟩ := mem_recordsOf.mp hr
  have hcid : c.id = pinned.id := by
    rw [← hid, hrc]
    rfl
  have hcmem := (List.mem_filter.mp (List.mem_of_getElem? hc)).1
  obtain rfl := h.only c hcmem hcid
  have hu : r.usable = true := by
    rw [hrc]
    exact usable_toRecord_iff.mpr husable
  refine ⟨by rw [hrc]; rfl, hu, hardBlocked_of_usable hr hu, ?_⟩
  rw [hrc, List.isEmpty_eq_false_iff]
  exact windows_of_hasEvidence hevidence

/-- **A pin is kept** while its account is usable, on evidence. -/
theorem decideRepin_keeps [Collation] {pin : Pin} (hpin : pinned.id = pin.connectionId) (hne : pinned.id ≠ "")
    (husable : Usable now model pinned) (hevidence : HasEvidence now model pinned) (h : inputs.Has pinned) :
    decideRepin (some pin) inputs.accounts now inputs.unavailableIds inputs.activeLoad model =
      keep (some pin) "pin-healthy" := by
  unfold decideRepin
  simp only [Option.map_some]
  generalize hcohort : (inputs.accounts.filter fun a => decide (a.id ∉ inputs.unavailableIds)) = cohort
  have hmem : pinned ∈ cohort := by
    rw [← hcohort, List.mem_filter, decide_eq_true_eq]
    exact ⟨h.mem, h.available⟩
  have hrecord : ∀ r ∈ recordsOf cohort now inputs.activeLoad model, r.id = pinned.id →
      r.usable = true ∧ r.hardBlocked = false ∧ r.windows.isEmpty = false := by
    intro r hr hid
    rw [← hcohort] at hr
    exact (h.record husable hevidence hr hid).2
  obtain ⟨i, hi, hget⟩ := List.mem_iff_getElem.mp hmem
  have hrmem : toRecord now inputs.activeLoad model i pinned ∈ recordsOf cohort now inputs.activeLoad model :=
    mem_recordsOf.mpr ⟨pinned, by rw [← hget]; exact List.getElem?_eq_getElem hi, rfl⟩
  obtain ⟨hu, -, hwindows⟩ := hrecord _ hrmem rfl
  obtain ⟨-, -, -, -, hdegraded⟩ := rankAccounts_spec cohort now (some pin.connectionId) inputs.activeLoad model
  generalize hranking : rankAccounts cohort now (some pin.connectionId) inputs.activeLoad model = ranking at hdegraded ⊢
  have heligible : ∀ r, r ∈ ranking.eligible ↔ r ∈ recordsOf cohort now inputs.activeLoad model ∧ r.usable = true := by
    intro r
    rw [← hranking]
    exact mem_eligible
  have htruthy : truthy (some pin.connectionId) = some pinned.id := truthy_eq_some.mpr ⟨by rw [hpin], hne⟩
  have hsome : cohort.isEmpty = false := by
    rw [List.isEmpty_eq_false_iff]
    exact List.ne_nil_of_mem hmem
  have hnotblocked : ¬ (ranking.ranked.find? fun r => some r.id = some pin.connectionId).any Record.hardBlocked = true := by
    intro hblocked
    obtain ⟨r, hr, hrblocked⟩ := (Option.any_eq_true _ _).mp hblocked
    have hrid := List.find?_some hr
    rw [decide_eq_true_eq, Option.some.injEq, ← hpin] at hrid
    have hrmem : r ∈ recordsOf cohort now inputs.activeLoad model := by
      have := List.mem_of_find?_eq_some hr
      rw [← hranking] at this
      exact mem_ranked.mp this
    rw [(hrecord r hrmem hrid).2.1] at hrblocked
    cases hrblocked
  have hhere : ¬ (truthy (some pin.connectionId)).any (fun id => !cohort.any fun a => a.id = id) = true := by
    rw [htruthy, Option.any_some, Bool.not_eq_true, Bool.not_eq_false', List.any_eq_true]
    exact ⟨pinned, hmem, decide_eq_true rfl⟩
  have hevidenced : anyEvidence (recordsOf cohort now inputs.activeLoad model) = true := by
    rw [anyEvidence, List.any_eq_true]
    exact ⟨_, hrmem, by rw [hwindows]; rfl⟩
  have hnotdegraded : ¬ ranking.degraded = true := by
    intro h
    have hnone := (rankAccounts_spec cohort now (some pin.connectionId) inputs.activeLoad model).2.2.2.1
    rw [hranking] at hnone
    rw [hnone h] at hevidenced
    cases hevidenced
  have hpinnedEligible : toRecord now inputs.activeLoad model i pinned ∈ ranking.eligible := (heligible _).mpr ⟨hrmem, hu⟩
  have heligibleSome : ¬ ranking.eligible.isEmpty = true := by
    rw [Bool.not_eq_true, List.isEmpty_eq_false_iff]
    exact List.ne_nil_of_mem hpinnedEligible
  rw [if_neg (by rw [hsome]; exact Bool.false_ne_true), if_neg hnotblocked, if_neg hhere, if_neg hnotdegraded,
    if_neg (by rw [htruthy]; exact Bool.false_ne_true), if_neg heligibleSome]
  cases hfind : ranking.eligible.find? fun r => decide (some r.id = some pin.connectionId) with
  | none =>
    have hnone := List.find?_eq_none.mp hfind _ hpinnedEligible
    rw [← hpin] at hnone
    exact absurd (decide_eq_true rfl) hnone
  | some r =>
    have hrid := List.find?_some hfind
    rw [decide_eq_true_eq, Option.some.injEq, ← hpin] at hrid
    have hr := ((heligible r).mp (List.mem_of_find?_eq_some hfind)).1
    simp only [repinEligible, (hrecord r hr hrid).2.2]
    rfl

theorem preferred_keeps [Collation] {pin : Pin} (hpin : pinned.id = pin.connectionId) (hne : pinned.id ≠ "")
    (husable : Usable now model pinned) (hevidence : HasEvidence now model pinned) (h : inputs.Has pinned) :
    (planAccountSelection inputs.accounts (some pin) inputs.activeLoad model now).preferred.map Record.candidate =
      [pinned] := by
  have hall : (Inputs.mk inputs.accounts inputs.activeLoad []).Has pinned := ⟨h.mem, h.only, List.not_mem_nil⟩
  have hkeep : decideRepin (some pin) inputs.accounts now [] inputs.activeLoad model = keep (some pin) "pin-healthy" :=
    decideRepin_keeps hpin hne husable hevidence hall
  have hrecord : ∀ r ∈ recordsOf inputs.accounts now inputs.activeLoad model, r.id = pinned.id →
      r.candidate = pinned ∧ r.usable = true := by
    intro r hr hid
    have hfilter : (inputs.accounts.filter fun a => a.id ∉ ([] : List String)) = inputs.accounts := by simp
    obtain ⟨hcandidate, hu, -⟩ := hall.record husable hevidence (hfilter ▸ hr) hid
    exact ⟨hcandidate, hu⟩
  obtain ⟨i, hi, hget⟩ := List.mem_iff_getElem.mp h.mem
  have hrmem : toRecord now inputs.activeLoad model i pinned ∈ recordsOf inputs.accounts now inputs.activeLoad model :=
    mem_recordsOf.mpr ⟨pinned, by rw [← hget]; exact List.getElem?_eq_getElem hi, rfl⟩
  obtain ⟨r, hr⟩ : ∃ r, (rankAccounts inputs.accounts now (some pin.connectionId) inputs.activeLoad model).eligible.find?
      (fun x => decide (x.id = pin.connectionId)) = some r := by
    rw [← Option.isSome_iff_exists, List.find?_isSome]
    exact ⟨_, mem_eligible.mpr ⟨hrmem, (hrecord _ hrmem rfl).2⟩, decide_eq_true hpin⟩
  have hrid := List.find?_some hr
  rw [decide_eq_true_eq, ← hpin] at hrid
  have htruthy : truthy (keep (some pin) "pin-healthy").connectionId = some pin.connectionId :=
    truthy_eq_some.mpr ⟨rfl, hpin ▸ hne⟩
  unfold planAccountSelection
  simp only [hkeep, decidedRecord, htruthy, Option.map_some, hr]
  have haction : (keep (some pin) "pin-healthy").action = .keep := rfl
  rw [if_pos haction, List.map_singleton, (hrecord r (mem_eligible.mp (List.mem_of_find?_eq_some hr)).1 hrid).1]

/-- **Other accounts do not disturb a healthy pin**: two decisions that agree on the
pinned account, the model and the clock both keep the pin, and try its account alone,
whatever else they differ in. -/
theorem decideRepin_undisturbed [Collation] (pin : Pin) (pinned : Candidate Account)
    (model : String) (now : Int)
    (inputs inputs' : Inputs) (hpin : pinned.id = pin.connectionId) (hne : pinned.id ≠ "")
    (husable : Usable now model pinned) (hevidence : HasEvidence now model pinned) (h : inputs.Has pinned)
    (h' : inputs'.Has pinned) :
    (decideRepin (some pin) inputs.accounts now inputs.unavailableIds inputs.activeLoad model =
        keep (some pin) "pin-healthy" ∧
      decideRepin (some pin) inputs'.accounts now inputs'.unavailableIds inputs'.activeLoad model =
        keep (some pin) "pin-healthy") ∧
      (planAccountSelection inputs.accounts (some pin) inputs.activeLoad model now).preferred.map Record.candidate =
        [pinned] ∧
      (planAccountSelection inputs'.accounts (some pin) inputs'.activeLoad model now).preferred.map Record.candidate =
        [pinned] :=
  ⟨⟨decideRepin_keeps hpin hne husable hevidence h, decideRepin_keeps hpin hne husable hevidence h'⟩,
    preferred_keeps hpin hne husable hevidence h, preferred_keeps hpin hne husable hevidence h'⟩

/-- An account with a week ahead, and one that is due in an hour and takes precedence. -/
def idleAccount : Candidate Account :=
  ⟨"idle", ⟨"claude", some 0, none, [some ⟨"weekly (7d)", .finite 100, .finite 100, some 3600000, .fresh⟩], []⟩⟩

attribute [local instance] byCodePoint

theorem decideRepin_undisturbed_idle :
    decideRepin (some ⟨"locked", 0⟩) [idleAccount, lockedAccount] 0 [] (some fun _ => ⟨0, 0⟩) "opus" =
      keep (some ⟨"locked", 0⟩) "pin-healthy" :=
  (decideRepin_undisturbed ⟨"locked", 0⟩ lockedAccount "opus" 0 ⟨[lockedAccount], none, []⟩
    ⟨[idleAccount, lockedAccount], some fun _ => ⟨0, 0⟩, []⟩ rfl (by decide)
    (usable_toRecord_iff.mp (by decide +kernel : (toRecord 0 none "opus" 0 lockedAccount).usable = true))
    (by unfold HasEvidence; decide +kernel)
    ⟨by simp, fun c hc _ => by simpa using hc, by simp⟩
    ⟨by simp, fun c hc hid => by
      rcases List.mem_cons.mp hc with rfl | hc
      · exact absurd hid (by decide)
      · simpa using hc, by simp⟩).1.2

end TokenProxy.Ranking
