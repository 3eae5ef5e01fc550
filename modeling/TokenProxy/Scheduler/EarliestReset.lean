import Mathlib.Order.Bounds.Basic
import TokenProxy.Ranking.Dispatch

/-!
# When an account comes back

A refusal tells the caller when to try again: `earliestReset` takes, over the accounts, the first
instant at which one has none of its windows exhausted any more. That is exact for the accounts it
looks at (`earliestReset_isEarliest`). The refusal of a pending reassignment concerns the command's
target alone, while the scan still looks at every candidate.
-/

namespace TokenProxy.Scheduler

open TokenProxy.Lib TokenProxy.Admission TokenProxy.Ranking

variable {model : String} {now : Int}

/-- When an account has cleared all of its exhausted windows; nothing
if it has none, or is denied. -/
def readyAt [Collation] (model : String) (now : Int) (c : Candidate Account) : Option Int :=
  if accountSupportsModel c.account model = false then none
  else
    let norm := normalizeAccountWindows c.account.windows model
    if norm.ok = false ∨ norm.blocked then none
    else
      norm.windows.foldl
        (fun readyAt w => if 0 < w.remaining ∨ w.resetAt ≤ now then readyAt else some (max (readyAt.getD 0) w.resetAt)) none

def sooner (soonest : Option Int) : Option Int → Option Int
  | none => soonest
  | some t => if soonest.all (t < ·) then some t else soonest

/-- `earliestReset(candidates, nowMs, model)` -/
def earliestReset [Collation] (candidates : List (Candidate Account)) (now : Int)
    (model : String) : Option Int :=
  candidates.foldl (fun soonest c => sooner soonest (readyAt model now c)) none

/-! ### One account -/

theorem usable_mono {c : Candidate Account} {t t' : Int} (h : t ≤ t')
    (husable : Usable t model c) : Usable t' model c :=
  ⟨husable.1, fun w hw hexhausted => husable.2 w hw ⟨hexhausted.1, h.trans_lt hexhausted.2⟩⟩

/-- The latest reset of the exhausted windows. -/
theorem foldl_readyAt (windows : List Window) (init : Option Int) (hinit : ∀ t ∈ init, now < t)
    (hnow : 0 ≤ now) :
    match windows.foldl
      (fun readyAt w => if 0 < w.remaining ∨ w.resetAt ≤ now then readyAt else some (max (readyAt.getD 0) w.resetAt)) init with
    | none => init = none ∧ ∀ w ∈ windows, ¬ w.Exhausted now
    | some r => now < r ∧ (init ≠ none ∨ ∃ w ∈ windows, w.Exhausted now) ∧
        ∀ t, r ≤ t ↔ (∀ s ∈ init, s ≤ t) ∧ ∀ w ∈ windows, w.Exhausted now → w.resetAt ≤ t := by
  induction windows generalizing init with
  | nil =>
    cases init with
    | none => exact ⟨rfl, fun w hw => absurd hw List.not_mem_nil⟩
    | some r =>
      refine ⟨hinit r rfl, Or.inl nofun, fun t => ?_⟩
      simp
  | cons w windows ih =>
    rw [List.foldl_cons]
    by_cases hw : 0 < w.remaining ∨ w.resetAt ≤ now
    · have hnot : ¬ w.Exhausted now := by
        rintro ⟨hremaining, hreset⟩
        rcases hw with hw | hw
        · exact absurd hw (not_lt.mpr hremaining)
        · exact absurd hw (not_le.mpr hreset)
      rw [if_pos hw]
      have h := ih init hinit
      split at h
      · exact ⟨h.1, by simpa [hnot] using h.2⟩
      · refine ⟨h.1, ?_, fun t => ?_⟩
        · simpa [hnot] using h.2.1
        · simpa [hnot] using h.2.2 t
    · have hexhausted : w.Exhausted now := ⟨not_lt.mp fun h => hw (Or.inl h), not_le.mp fun h => hw (Or.inr h)⟩
      rw [if_neg hw]
      have hpos : ∀ s ∈ init, 0 ≤ s := fun s hs => hnow.trans (hinit s hs).le
      have h := ih (some (max (init.getD 0) w.resetAt)) (by
        rintro t ⟨⟩
        exact lt_max_of_lt_right hexhausted.2)
      split at h
      · exact absurd h.1 nofun
      · refine ⟨h.1, Or.inr ⟨w, List.mem_cons_self, hexhausted⟩, fun t => ?_⟩
        have hreset : 0 ≤ w.resetAt := hnow.trans hexhausted.2.le
        rw [h.2.2 t]
        cases init with
        | none => simp [hexhausted, hreset]
        | some s => simp [hexhausted, and_assoc]

/-- **`readyAt`** is the instant from which the account is usable, if it is not
usable now and ever will be. -/
theorem readyAt_spec [Collation] (hnow : 0 ≤ now) (c : Candidate Account) :
    match readyAt model now c with
    | none => Usable now model c ∨ ∀ t, ¬ Usable t model c
    | some r => now < r ∧ ¬ Usable now model c ∧ ∀ t, now < t → (Usable t model c ↔ r ≤ t) := by
  obtain ⟨hperm, -, hblocked, hok⟩ := normalizeAccountWindows_spec c.account.windows model
  have hdenied : HardBlocked model c ↔ accountSupportsModel c.account model = false ∨
      (normalizeAccountWindows c.account.windows model).blocked = true := by
    rw [← @hardBlocked_iff _ 0 none model 0 c]
    simp only [toRecord, Bool.or_eq_true, Bool.not_eq_true']
    exact or_comm
  unfold readyAt
  simp only
  by_cases hsupport : accountSupportsModel c.account model = false
  · rw [if_pos hsupport]
    exact Or.inr fun t husable => husable.1 (hdenied.mpr (Or.inl hsupport))
  rw [if_neg hsupport]
  by_cases hskip : (normalizeAccountWindows c.account.windows model).ok = false ∨
      (normalizeAccountWindows c.account.windows model).blocked = true
  · rw [if_pos hskip]
    by_cases hb : (normalizeAccountWindows c.account.windows model).blocked = true
    · exact Or.inr fun t husable => husable.1 (hdenied.mpr (Or.inr hb))
    · -- no window was read
      left
      have hnone := hok (hskip.resolve_right hb)
      rw [hnone] at hperm
      refine ⟨fun h => (hdenied.mp h).elim hsupport hb, fun w hw => ?_⟩
      rw [hperm.symm.eq_nil] at hw
      cases hw
  rw [if_neg hskip]
  rw [not_or] at hskip
  have hgranted : ¬ HardBlocked model c := fun h => (hdenied.mp h).elim hsupport hskip.2
  have hfold := @foldl_readyAt now (normalizeAccountWindows c.account.windows model).windows none (fun _ h => by cases h) hnow
  split at hfold
  · exact Or.inl ⟨hgranted, fun w hw => hfold.2 w (hperm.mem_iff.mpr hw)⟩
  · obtain ⟨hr, hexists, hle⟩ := hfold
    obtain ⟨w, hw, hexhausted⟩ := hexists.resolve_left fun h => h rfl
    refine ⟨hr, fun husable => husable.2 w (hperm.mem_iff.mp hw) hexhausted, fun t ht => ?_⟩
    rw [hle t]
    constructor
    · rintro ⟨-, husable⟩
      refine ⟨fun _ h => (by cases h), fun w hw hexhausted => ?_⟩
      by_contra hreset
      exact husable w (hperm.mem_iff.mp hw) ⟨hexhausted.1, not_le.mp hreset⟩
    · rintro ⟨-, hall⟩
      refine ⟨hgranted, fun w hw hexhausted => ?_⟩
      exact absurd (hall w (hperm.mem_iff.mpr hw) ⟨hexhausted.1, ht.trans hexhausted.2⟩) (not_le.mpr hexhausted.2)

/-! ### All accounts -/

theorem foldl_sooner {α : Type} (f : α → Option Int) (l : List α) (init : Option Int) :
    l.foldl (fun soonest c => sooner soonest (f c)) init = (init.toList ++ l.filterMap f).min? := by
  induction l generalizing init with
  | nil => cases init <;> simp
  | cons c l ih =>
    rw [List.foldl_cons, ih]
    cases hc : f c with
    | none => simp [sooner, hc]
    | some t =>
      rw [List.filterMap_cons_some hc]
      cases init with
      | none => rfl
      | some s =>
        simp only [sooner, Option.all_some, decide_eq_true_eq]
        by_cases hlt : t < s
        · rw [if_pos hlt]
          show (t :: l.filterMap f).min? = (s :: t :: l.filterMap f).min?
          rw [List.min?_cons', List.min?_cons', List.foldl_cons, min_eq_right hlt.le]
        · rw [if_neg hlt]
          show (s :: l.filterMap f).min? = (s :: t :: l.filterMap f).min?
          rw [List.min?_cons', List.min?_cons', List.foldl_cons, min_eq_left (not_lt.mp hlt)]

/-- The least of the instants at which an account comes back. -/
theorem earliestReset_eq [Collation] (candidates : List (Candidate Account)) (now : Int)
    (model : String) :
    earliestReset candidates now model = (candidates.filterMap (readyAt model now)).min? :=
  foldl_sooner (readyAt model now) candidates none

theorem earliestReset_none [Collation] {candidates : List (Candidate Account)}
    (h : earliestReset candidates now model = none) :
    ∀ c ∈ candidates, readyAt model now c = none := by
  rw [earliestReset_eq, List.min?_eq_none_iff, List.filterMap_eq_nil_iff] at h
  exact h

theorem earliestReset_some [Collation] {candidates : List (Candidate Account)} {s : Int}
    (h : earliestReset candidates now model = some s) :
    (∃ c ∈ candidates, readyAt model now c = some s) ∧
      ∀ c ∈ candidates, ∀ r, readyAt model now c = some r → s ≤ r := by
  rw [earliestReset_eq, List.min?_eq_some_iff] at h
  refine ⟨List.mem_filterMap.mp h.1, fun c hc r hr => ?_⟩
  exact h.2 r (List.mem_filterMap.mpr ⟨c, hc, hr⟩)

/-- `reported` is the first instant after `now` at which `P` holds, and nothing if it never does. -/
def IsEarliest (P : Int → Prop) (now : Int) : Option Int → Prop
  | some t => IsLeast {t | now < t ∧ P t} t
  | none => ∀ t, now < t → ¬ P t

/-- When the first instant of what never ends is that of something else, which may end. -/
theorem IsEarliest.iff {P Q : Int → Prop} {reported : Option Int} (h : IsEarliest P now reported)
    (hP : ∀ t t', t ≤ t' → P t → P t') :
    IsEarliest Q now reported ↔
      (∀ t, now < t → P t → ∃ t', now < t' ∧ t' ≤ t ∧ Q t') ∧ ∀ t, now < t → Q t → P t := by
  cases reported with
  | none =>
    refine ⟨fun hnever => ⟨fun t ht hp => absurd hp (h t ht), fun t ht hq => absurd hq (hnever t ht)⟩, fun hiff t ht hq => ?_⟩
    exact h t ht (hiff.2 t ht hq)
  | some s =>
    obtain ⟨⟨hs, hps⟩, hleast⟩ := h
    constructor
    · rintro ⟨⟨-, hqs⟩, hqleast⟩
      exact ⟨fun t ht hp => ⟨s, hs, hleast ⟨ht, hp⟩, hqs⟩, fun t ht hq => hP s t (hqleast ⟨ht, hq⟩) hps⟩
    · rintro ⟨hreached, honly⟩
      refine ⟨⟨hs, ?_⟩, fun t ht => hleast ⟨ht.1, honly t ht.1 ht.2⟩⟩
      obtain ⟨t, ht, hle, hq⟩ := hreached s hs hps
      obtain rfl : t = s := le_antisymm hle (hleast ⟨ht, honly t ht hq⟩)
      exact hq

/-- An account that is not usable now has come back by `t`. -/
def ComesBack (candidates : List (Candidate Account)) (model : String) (now t : Int) : Prop :=
  ∃ c ∈ candidates, ¬ Usable now model c ∧ Usable t model c

/-- **The scan is exact** for the accounts it looks at. -/
theorem earliestReset_isEarliest [Collation] (hnow : 0 ≤ now)
    (candidates : List (Candidate Account)) (model : String) :
    IsEarliest (ComesBack candidates model now) now (earliestReset candidates now model) := by
  cases hreset : earliestReset candidates now model with
  | none =>
    rintro t - ⟨c, hc, hunusable, husable⟩
    have hready := earliestReset_none hreset c hc
    have hspec := @readyAt_spec model now _ hnow c
    rw [hready] at hspec
    exact hspec.elim hunusable fun hnever => hnever t husable
  | some s =>
    obtain ⟨⟨c, hc, hready⟩, hleast⟩ := earliestReset_some hreset
    have hspec := @readyAt_spec model now _ hnow c
    rw [hready] at hspec
    obtain ⟨hs, hunusable, hback⟩ := hspec
    refine ⟨⟨hs, c, hc, hunusable, (hback s hs).mpr le_rfl⟩, ?_⟩
    rintro t ⟨ht, c', hc', hunusable', husable'⟩
    have hspec' := @readyAt_spec model now _ hnow c'
    cases hready' : readyAt model now c' with
    | none =>
      rw [hready'] at hspec'
      exact absurd husable' (hspec'.resolve_left hunusable' t)
    | some r =>
      rw [hready'] at hspec'
      exact (hleast c' hc' r hready').trans ((hspec'.2.2 t ht).mp husable')

/-! ### The refusal -/

def schedulerPolicy [Collation] (windowsJson : Account → String)
    (hash : Binding → String) : Policy Account where
  plan accounts pin load model now :=
    let planned := planAccountSelection accounts pin (some load) model now
    { preferred := planned.preferred.map Record.candidate
      degraded := planned.ranking.degraded
      rankReason := planned.ranking.reason
      repinAction := planned.repin.action
      repinTrigger := planned.repin.trigger }
  earliestReset := earliestReset
  windowsJson
  hash

def pendingCommand (hash : Binding → String) (db : SchedulerDb)
    (input : Input Account) : Option PendingAction :=
  (db.getPendingPinAction hash input.now input.sessionHash input.model).2

/-- The accounts that a call looks at: all candidates, or the target of the pending command. -/
def considered (hash : Binding → String) (db : SchedulerDb)
    (input : Input Account) : List (Candidate Account) :=
  targetsOf (pendingCommand hash db input) (candidatesOf input)

def Unavailable.NoneEligible (u : Unavailable) : Prop :=
  u.reason ≠ "pin-command-changed" ∧ u.reason ≠ "no-accounts" ∧ u.reason ≠ "at-capacity"

variable {windowsJson : Account → String} {hash : Binding → String} {leases : LeaseSystem} {db : SchedulerDb}
  {input : Input Account} {faults : Faults} {u : Unavailable}

/-- A plan that tries nothing found no account usable. -/
theorem unusable_of_preferred_nil [Collation] {accounts : List (Candidate Account)}
    {pin : Option Pin}
    {activeLoad : Option (String → Load)} (h : (planAccountSelection accounts pin activeLoad model now).preferred = []) :
    ∀ c ∈ accounts, ¬ Usable now model c := by
  have hempty : (rankAccounts accounts now (pin.map Pin.connectionId) activeLoad model).eligible = [] := by
    rcases preferred_cases accounts pin activeLoad model now with hall | ⟨r, hr, hone | hfirst⟩ | ⟨hempty, -⟩
    · rw [← hall, h]
    · rw [h] at hone
      cases hone
    · rw [h] at hfirst
      cases hfirst
    · exact hempty
  intro c hc husable
  obtain ⟨i, hi, rfl⟩ := List.mem_iff_getElem.mp hc
  have hmem : toRecord now activeLoad model i accounts[i] ∈
      (rankAccounts accounts now (pin.map Pin.connectionId) activeLoad model).eligible :=
    mem_eligible.mpr ⟨mem_recordsOf.mpr ⟨accounts[i], List.getElem?_eq_getElem hi, rfl⟩, usable_toRecord_iff.mpr husable⟩
  rw [hempty] at hmem
  cases hmem

/-- The check of `prepare` on the command that it finds pending. -/
def Input.accepts (input : Input Account) (pinAction : Option PendingAction) : Prop :=
  ¬ (pinAction.any PendingAction.storageUnavailable ∨ ∃ id ∈ input.pinActionId, pinAction.map (fun a => a.action.id) ≠ id)

/-- A refusal after the ranking scans all candidates, and the plan for the
accounts it looked at tries none. -/
theorem prepare_refuse {policy : Policy Account} {db' : SchedulerDb}
    (h : prepare policy leases input faults db = .ok (db', .refuse u)) (hnone : u.NoneEligible) :
    input.accepts (pendingCommand policy.hash db input) ∧
      u.earliestResetAt = policy.earliestReset (candidatesOf input) input.now input.model ∧
      ∃ pin load, (policy.plan (considered policy.hash db input) pin load input.model input.now).preferred = [] := by
  obtain ⟨hchanged, hempty, -⟩ := hnone
  unfold considered pendingCommand
  unfold prepare at h
  obtain ⟨-, -, h⟩ := bind_ok h
  simp only at h
  generalize db.getPendingPinAction policy.hash input.now input.sessionHash input.model = x at h ⊢
  obtain ⟨db₁, pending⟩ := x
  simp only at h ⊢
  split at h
  · cases h
    exact absurd rfl hchanged
  rename_i haccepted
  split at h
  · cases h
    exact absurd rfl hempty
  obtain ⟨-, -, h⟩ := bind_ok h
  obtain ⟨-, -, h⟩ := bind_ok h
  split at h
  · rename_i hpreferred
    cases h
    exact ⟨haccepted, rfl, _, _, List.isEmpty_iff.mp hpreferred⟩
  · cases h

/-- The reason of a full house is `at-capacity`, so a refusal for want of an eligible
account is that of `prepare`. -/
theorem selectAndReserve_unavailable {policy : Policy Account}
    (h : (selectAndReserve policy leases db input faults).outcome = .unavailable u) (hnone : u.NoneEligible) :
    ∃ db', prepare policy leases input faults db = .ok (db', .refuse u) := by
  unfold selectAndReserve at h
  split at h
  · cases h
  · rename_i db' refused hprepare
    refine ⟨db', ?_⟩
    unfold transaction at h
    cases hcommit : faults.commit with
    | some e => simp [hcommit] at h
    | none =>
      simp only [hcommit, Outcome.unavailable.injEq] at h
      rw [hprepare, h]
  · split at h
    · unfold transaction at h
      cases hcommit : faults.commit with
      | some e => simp [hcommit] at h
      | none =>
        simp only [hcommit, Outcome.unavailable.injEq] at h
        exact absurd (congrArg Unavailable.reason h.symm) hnone.2.2
    · split at h <;> cases h

/-! ### What the same request finds later -/

def Input.at (input : Input Account) (t : Int) : Input Account := { input with now := t }

/-- The same request, at `t` and on the same store, passes the check of its command and finds a
usable account among those it looks at then. -/
def Finds (hash : Binding → String) (db : SchedulerDb) (input : Input Account) (t : Int) : Prop :=
  input.accepts (pendingCommand hash db (input.at t)) ∧ ∃ c ∈ considered hash db (input.at t), Usable t input.model c

theorem PinRow.expired_mono {row : PinRow} {t t' : Int} (h : t ≤ t')
    (hexpired : row.expired t = true) :
    row.expired t' = true := by
  unfold PinRow.expired at hexpired ⊢
  split
  · rename_i expiresAt hrow
    rw [hrow, decide_eq_true_eq] at hexpired
    exact decide_eq_true (hexpired.trans h)
  · rename_i hrow
    rw [hrow] at hexpired
    cases hexpired

/-- A command does not come to be pending as time passes. -/
theorem pendingCommand_mono {t t' : Int} (h : t ≤ t') {command : PendingAction}
    (hpending : pendingCommand hash db (input.at t') = some command) :
    pendingCommand hash db (input.at t) = some command := by
  unfold pendingCommand SchedulerDb.getPendingPinAction Input.at at hpending ⊢
  simp only at hpending ⊢
  split at hpending
  · cases hpending
  rename_i action haction
  split at hpending
  · rename_i hsqljs
    rw [if_pos hsqljs]
    exact hpending
  rename_i hsqljs
  rw [if_neg hsqljs]
  split at hpending
  · cases hpending
  rename_i hbinding
  rw [if_neg]
  · exact hpending
  rintro (hnone | hhash | ⟨p, hp, hexpired⟩)
  · exact hbinding (Or.inl hnone)
  · exact hbinding (Or.inr (Or.inl hhash))
  · exact hbinding (Or.inr (Or.inr ⟨p, hp, PinRow.expired_mono h hexpired⟩))

theorem considered_subset {t : Int} {c : Candidate Account}
    (h : c ∈ considered hash db (input.at t)) :
    c ∈ candidatesOf input := by
  unfold considered targetsOf at h
  split at h
  · exact (List.mem_filter.mp h).1
  · exact h

/-- The caller named no command, or what it saw pending is pending still. -/
def SeenStill (hash : Binding → String) (db : SchedulerDb) (input : Input Account)
    (t : Int) : Prop :=
  input.pinActionId = none ∨ pendingCommand hash db (input.at t) = pendingCommand hash db input

/-- A request that passed the check passes it until the command that it named has ended. -/
theorem accepts_iff {t : Int} (h : input.now ≤ t)
    (hnow : input.accepts (pendingCommand hash db input)) :
    input.accepts (pendingCommand hash db (input.at t)) ↔ SeenStill hash db input t := by
  have hkept (command : PendingAction) (hcommand : pendingCommand hash db (input.at t) = some command) :
      pendingCommand hash db input = some command := pendingCommand_mono (t := input.now) h hcommand
  unfold SeenStill
  cases hlater : pendingCommand hash db (input.at t) with
  | some command => exact ⟨fun _ => Or.inr (hkept command hlater).symm, fun _ => hkept command hlater ▸ hnow⟩
  | none =>
    cases hearlier : pendingCommand hash db input with
    | none => exact ⟨fun _ => Or.inr rfl, fun _ => hearlier ▸ hnow⟩
    | some command =>
      -- the command has ended, which a caller that named it is refused for
      rw [hearlier] at hnow
      cases hid : input.pinActionId with
      | none => exact ⟨fun _ => Or.inl rfl, fun _ => by simp [Input.accepts, hid]⟩
      | some id =>
        simp only [Input.accepts, hid, Option.mem_some_iff, exists_eq_left', Option.map_some, not_or, not_not] at hnow
        simp [Input.accepts, hid, ← hnow.2]

/-- The pending command does not come between the scan and the accounts it looks at. -/
structure Unhindered (hash : Binding → String) (db : SchedulerDb)
    (input : Input Account) : Prop where
  /-- When a candidate comes back, the target has come back before, with the command that the caller
  named still pending, or the command has ended and the caller named none. -/
  target : ∀ t, input.now < t → ∀ c ∈ candidatesOf input, ¬ Usable input.now input.model c → Usable t input.model c →
    ∃ t', input.now < t' ∧ t' ≤ t ∧ SeenStill hash db input t' ∧ ∃ c' ∈ considered hash db (input.at t'), Usable t' input.model c'
  /-- For a caller that named none, the command does not end, with a candidate left that is usable
  now, before a candidate comes back. -/
  ended : input.pinActionId = none → ∀ t, input.now < t → ∀ c ∈ considered hash db (input.at t), Usable input.now input.model c →
    ∃ c' ∈ candidatesOf input, ¬ Usable input.now input.model c' ∧ Usable t input.model c'

/-- **When the reported reset is exact**: a call that refuses for want of an eligible account
reports the first instant at which the same request would find one just when the pending command
does not hinder that, so in particular when no command is pending. -/
theorem earliestResetAt_exact [Collation] (windowsJson : Account → String) (hash : Binding → String)
    (leases : LeaseSystem)
    (db : SchedulerDb) (input : Input Account) (faults : Faults) (u : Unavailable) (hnow : 0 ≤ input.now)
    (hrefused : (selectAndReserve (schedulerPolicy windowsJson hash) leases db input faults).outcome = .unavailable u)
    (hnone : u.NoneEligible) :
    (IsEarliest (Finds hash db input) input.now u.earliestResetAt ↔ Unhindered hash db input) ∧
      (pendingCommand hash db input = none → IsEarliest (Finds hash db input) input.now u.earliestResetAt) := by
  obtain ⟨db', hprepare⟩ := selectAndReserve_unavailable hrefused hnone
  obtain ⟨haccepted, hreported, pin, load, hempty⟩ := prepare_refuse hprepare hnone
  have hunusable : ∀ c ∈ considered hash db input, ¬ Usable input.now input.model c :=
    unusable_of_preferred_nil (List.map_eq_nil_iff.mp hempty)
  have hscan : IsEarliest (ComesBack (candidatesOf input) input.model input.now) input.now u.earliestResetAt := by
    rw [hreported]
    exact earliestReset_isEarliest hnow (candidatesOf input) input.model
  have hfinds (t : Int) (ht : input.now < t) :
      Finds hash db input t ↔ SeenStill hash db input t ∧ ∃ c ∈ considered hash db (input.at t), Usable t input.model c :=
    and_congr_left fun _ => accepts_iff ht.le haccepted
  have hiff : IsEarliest (Finds hash db input) input.now u.earliestResetAt ↔ Unhindered hash db input := by
    rw [hscan.iff fun t t' h => Exists.imp fun c hc => ⟨hc.1, hc.2.1, usable_mono h hc.2.2⟩]
    constructor
    · rintro ⟨hreached, honly⟩
      refine ⟨fun t ht c hc hbefore hafter => ?_, fun hid t ht c hc hbefore => ?_⟩
      · obtain ⟨t', ht', hle, hfound⟩ := hreached t ht ⟨c, hc, hbefore, hafter⟩
        exact ⟨t', ht', hle, (hfinds t' ht').mp hfound⟩
      · exact honly t ht ((hfinds t ht).mpr ⟨Or.inl hid, c, hc, usable_mono ht.le hbefore⟩)
    · intro h
      constructor
      · rintro t ht ⟨c, hc, hbefore, hafter⟩
        obtain ⟨t', ht', hle, hfound⟩ := h.target t ht c hc hbefore hafter
        exact ⟨t', ht', hle, (hfinds t' ht').mpr hfound⟩
      · intro t ht hfound
        obtain ⟨hseen, c, hc, hafter⟩ := (hfinds t ht).mp hfound
        by_cases hbefore : Usable input.now input.model c
        · rcases hseen with hid | hsame
          · exact h.ended hid t ht c hc hbefore
          · -- the same accounts are looked at as in the refusal
            have hconsidered : considered hash db (input.at t) = considered hash db input := by
              unfold considered
              rw [hsame]
              rfl
            exact absurd hbefore (hunusable c (hconsidered ▸ hc))
        · exact ⟨c, considered_subset hc, hbefore, hafter⟩
  refine ⟨hiff, fun hnopending => hiff.mpr ?_⟩
  -- without a command now there is none later, and the request looks at every candidate
  have hlater (t : Int) (ht : input.now < t) : pendingCommand hash db (input.at t) = none := by
    rw [Option.eq_none_iff_forall_ne_some]
    intro command hcommand
    have := @pendingCommand_mono hash db input input.now t ht.le command hcommand
    rw [show pendingCommand hash db (input.at input.now) = none from hnopending] at this
    cases this
  have hall (t : Int) (ht : input.now < t) : considered hash db (input.at t) = candidatesOf input := by
    unfold considered
    rw [hlater t ht]
    rfl
  have hnow' : considered hash db input = candidatesOf input := by
    unfold considered
    rw [hnopending]
    rfl
  refine ⟨fun t ht c hc _ husable => ⟨t, ht, le_rfl, Or.inr ((hlater t ht).trans hnopending.symm), c, ?_, husable⟩, fun _ t ht c hc husable => ?_⟩
  · rw [hall t ht]
    exact hc
  · rw [hall t ht] at hc
    exact absurd husable (hunusable c (hnow' ▸ hc))

/-! ### A reassignment -/

/-- A week is used up until `resetAt`. -/
def usedUp (id : String) (resetAt : Int) : Candidate Account :=
  ⟨id, ⟨"claude", none, none, [some ⟨"weekly (7d)", .finite 0, .finite 100, some resetAt, .fresh⟩], []⟩⟩

def pinnedSession : PinRow where
  sessionHash := "session"
  model := "opus"
  connectionId := "pinned"
  providerNode := none
  pinnedAt := 0
  expiresAt := some 86400000
  operatorExpiresAt := none
  lastSeenAt := 0

def queuedReassignment : PinAction where
  id := "command"
  sessionHash := "session"
  model := "opus"
  action := .reassign
  targetConnectionId := some "target"
  deadline := none
  expectedRevision := ""
  expectedBinding := ""
  status := .queued
  reason := none
  beforeState := pinnedSession
  afterState := none
  createdAt := 0
  previewExpiresAt := 300000
  appliedAt := none

def reassigning : SchedulerDb where
  pins := Table.empty.put pinnedSession
  actions := Table.empty.put queuedReassignment

/-- A request with two accounts, whose weeks are used up for one and for two seconds; its
caller saw the reassignment. -/
def usedUpRequest : Input Account where
  sessionHash := "session"
  model := "opus"
  sessionHash_ne := by decide
  model_ne := by decide
  accounts := [usedUp "pinned" 1000, usedUp "target" 2000]
  now := 0
  pinActionId := some (some "command")
  uuid := "switch"

def Outcome.refusal {α : Type} : Outcome α → Option Unavailable
  | .unavailable u => some u
  | _ => none

theorem Outcome.refusal_eq {α : Type} {o : Outcome α}
    (h : o.refusal = some u) : o = .unavailable u := by
  cases o with
  | unavailable u' => exact congrArg Outcome.unavailable (Option.some.inj h)
  | selected s => cases h
  | threw e => cases h

attribute [local instance] byCodePoint

/-- With the reassignment queued, the reset of the pinned account is reported, when
the target is still used up. -/
theorem reassigning_reset :
    (selectAndReserve (schedulerPolicy (fun _ => "") fun _ => "") (createLeaseSystem (fun _ => 0) admissionDefaults)
        reassigning usedUpRequest {}).outcome =
      .unavailable { reason := "operator-target-unavailable", mustWait := true, earliestResetAt := some 1000 } ∧
      ¬ IsEarliest (Finds (fun _ => "") reassigning usedUpRequest) 0 (some 1000) := by
  constructor
  · exact Outcome.refusal_eq (by decide +kernel)
  · rintro ⟨⟨-, -, c, hc, husable⟩, -⟩
    have htarget : considered (fun _ => "") reassigning (usedUpRequest.at 1000) = [usedUp "target" 2000] := by rfl
    rw [htarget, List.mem_singleton] at hc
    rw [hc] at husable
    exact absurd (usable_toRecord_iff.mpr husable)
      (by decide +kernel : ¬ (toRecord 1000 none "opus" 0 (usedUp "target" 2000)).usable = true)

/-- Without a command the same reset is right. -/
theorem earliestResetAt_exact_noCommand :
    IsEarliest (Finds (fun _ => "") {} { usedUpRequest with pinActionId := some none }) 0 (some 1000) :=
  (earliestResetAt_exact (fun _ => "") (fun _ => "") (createLeaseSystem (fun _ => 0) admissionDefaults) {}
    { usedUpRequest with pinActionId := some none } {} { reason := "no-eligible-account:all-depleted", earliestResetAt := some 1000 } le_rfl
    (Outcome.refusal_eq (by decide +kernel)) (by unfold Unavailable.NoneEligible; decide)).2 rfl

end TokenProxy.Scheduler
