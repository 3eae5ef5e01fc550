import TokenProxy.Ranking.Windows
import TokenProxy.Scheduler.SelectAndReserve

/-!
# Ranking accounts

`rankAccounts` of `quotaRanking.js`. Every account gets a record, made from the account alone; the
records are sorted by a chain of keys. Where no account has a window that carries a deadline, a
shorter chain is used.

The decision traces are left out.
-/

namespace TokenProxy.Ranking

open TokenProxy.Lib TokenProxy.Scheduler

/-- What the ranking reads of a connection, and its failure locks: the flat fields `modelLock_…`
with the instants they name. -/
structure Account where
  provider : String
  /-- what `Number` makes of it, if that is finite -/
  priority : Option ℚ
  /-- `providerSpecificData.enabledModels`, if it is an array -/
  enabledModels : Option (List String)
  windows : List (Option RawWindow)
  modelLocks : List (String × Int)
  deriving DecidableEq

/-- `accountSupportsModel(account, model)`; no model is the empty one. -/
def accountSupportsModel (account : Account) (model : String) : Bool :=
  match account.enabledModels with
  | none => true
  | some enabled => model = "" ∨ enabled = [] ∨ model ∈ enabled ∨ (account.provider ++ "/" ++ model) ∈ enabled

/-! ## The record of an account -/

variable [Collation]

/-- `CONFIDENCE_BAND[confidence] ?? 2` as `Math.max` takes it; `⊥` is `NaN`. -/
def CONFIDENCE_BAND : Confidence → WithBot Nat
  | .fresh => 0
  | .stale => 1
  | .unknown => 2
  | .inherited => ⊥

/-- `Math.max(x, y)` -/
def mathMax : WithBot Nat → WithBot Nat → WithBot Nat
  | some x, some y => (max x y : Nat)
  | _, _ => ⊥

/-- `bandOf(orderable)` -/
def bandOf (orderable : List ResolvedWindow) : WithBot Nat :=
  if orderable.isEmpty then CONFIDENCE_BAND .unknown
  else orderable.foldr (fun w worst => mathMax worst (CONFIDENCE_BAND w.confidence)) 0

/-- `evidenceBandOf(orderable, unreadable)` -/
def evidenceBandOf (orderable : List ResolvedWindow) (unreadable : Nat) : Nat :=
  if orderable.isEmpty then 2 else if 0 < unreadable then 1 else 0

/-- `priorityOf(account)` -/
def priorityOf (account : Account) : WithTop ℚ := account.priority.elim ⊤ fun p => (p : WithTop ℚ)

/-- `headroomFloorOf(limit)`: a twentieth of the limit, one unit at least. -/
def headroomFloorOf (limit : ℚ) : ℚ := if limit ≤ 0 then 1 else max 1 (limit / 20)

/-- `hasHeadroom(orderable)` -/
def hasHeadroom (orderable : List ResolvedWindow) : Bool :=
  orderable.all fun w => headroomFloorOf w.limit ≤ w.effectiveRemaining

/-- `loadOf(activeLoad, id)` -/
def loadOf (activeLoad : Option (String → Load)) (id : String) : Int :=
  match activeLoad with
  | none => 0
  | some load => (load id).pins + max (load id).inFlight 0

def deadlinesOf (general : List ResolvedWindow) : Dict (WithBot ℚ) ℚ :=
  general.foldl
    (fun deadlines w =>
      deadlines.put (w.horizonMs, (deadlines.get? w.horizonMs).elim w.effectiveResetAt (min ·.2 w.effectiveResetAt)))
    .empty

structure Record where
  id : String
  account : Account
  index : Nat
  priority : WithTop ℚ
  windows : List ResolvedWindow
  usable : Bool
  hardBlocked : Bool
  deadlines : Dict (WithBot ℚ) ℚ
  load : Int
  headroom : Bool
  evidenceBand : Nat
  band : WithBot Nat

def toRecord (now : Int) (activeLoad : Option (String → Load)) (model : String) (index : Nat)
    (c : Candidate Account) :
    Record :=
  let structural := normalizeAccountWindows c.account.windows model
  let resolved := resolveWindows structural now
  let general := resolved.orderable.filter fun w => !w.isScoped
  let entitled := accountSupportsModel c.account model
  { id := c.id
    account := c.account
    index
    priority := priorityOf c.account
    windows := resolved.orderable
    usable := resolved.usable && entitled
    hardBlocked := structural.blocked || !entitled
    deadlines := deadlinesOf general
    load := loadOf activeLoad c.id
    headroom := hasHeadroom resolved.orderable
    evidenceBand := evidenceBandOf general resolved.unreadable
    band := bandOf general }

def recordsOf (accounts : List (Candidate Account)) (now : Int)
    (activeLoad : Option (String → Load)) (model : String) :
    List Record :=
  accounts.mapIdx (toRecord now activeLoad model)

/-! ## The comparison -/

/-- `a.deadlines.get(horizon) ?? Infinity` -/
def Record.deadline (r : Record) (horizon : WithBot ℚ) : WithTop ℚ :=
  (r.deadlines.get? horizon).elim ⊤ fun p => (p.2 : WithTop ℚ)

/-- `deadlineBucket(resetAt, horizonMs)`: a deadline counts in 24ths of its horizon. -/
def deadlineBucket (resetAt : WithTop ℚ) (horizon : WithBot ℚ) : WithTop ℚ :=
  match resetAt, horizon with
  | none, _ => ⊤
  | some t, none => (t : WithTop ℚ)
  | some t, some horizon =>
    if horizon < MIN_REAL_HORIZON_MS then (t : WithTop ℚ) else ((⌊t / (horizon / 24)⌋ : ℚ) : WithTop ℚ)

def Record.bucket (r : Record) (horizon : WithBot ℚ) : WithTop ℚ := deadlineBucket (r.deadline horizon) horizon

def Record.horizons (r : Record) : List (WithBot ℚ) := r.deadlines.rows.map Prod.fst

/-- `compareHorizons(a, b)`: the longest horizon at which they differ. -/
def compareHorizons (a b : Record) : Ordering :=
  compareAt (sortBy (fun x y => compareNumbers y x) (a.horizons ++ b.horizons).dedup) a.bucket b.bucket

/-- `stickyThenDeclared`: the pinned account, the configured priority, the place in the list. -/
def stickyThenDeclared (previousPinId : Option String) : Record → Record → Ordering :=
  compareLex (compareOn fun r => decide (some r.id ≠ previousPinId))
    (compareLex (compareOn Record.priority) (compareOn Record.index))

def byLoad (spreadByLoad : Bool) (a b : Record) : Ordering := if spreadByLoad then compare a.load b.load else .eq

def byHeadroom (spreadByLoad : Bool) (a b : Record) : Ordering :=
  if spreadByLoad then compare (!a.headroom) (!b.headroom) else .eq

def byFallback (spreadByLoad : Bool) (previousPinId : Option String) : Record → Record → Ordering :=
  compareLex (byHeadroom spreadByLoad) (compareLex (byLoad spreadByLoad) (stickyThenDeclared previousPinId))

/-- `if (a.band !== b.band) return a.band - b.band`: `NaN` differs from every band,
and the difference is a tie. -/
def byBand (rest : Record → Record → Ordering) (a b : Record) : Ordering :=
  match a.band, b.band with
  | some x, some y => (compare x y).then (rest a b)
  | _, _ => .eq

def byEvidence (spreadByLoad : Bool) (previousPinId : Option String) : Record → Record → Ordering :=
  compareLex (compareOn fun r => !r.usable) <| compareLex (byHeadroom spreadByLoad) <|
    compareLex (compareOn Record.evidenceBand) <| byBand <| compareLex compareHorizons <|
    compareLex (byLoad spreadByLoad) (stickyThenDeclared previousPinId)

/-! ## The ranking -/

/-- Load spreads a new placement: there is no pin, or the pinned account is gone or not usable. -/
def spreadsByLoad (records : List Record) (previousPinId : Option String)
    (activeLoad : Option (String → Load)) : Bool :=
  activeLoad.isSome &&
    match previousPinId with
    | none => true
    | some id =>
      match records.find? fun r => r.id = id with
      | some pinned => !pinned.usable
      | none => true

def anyEvidence (records : List Record) : Bool := records.any fun r => !r.windows.isEmpty

/-- What `rankAccounts` answers. -/
structure RankedAccounts where
  ranked : List Record
  eligible : List Record
  ineligible : List Record
  winner : Option Record
  degraded : Bool
  reason : Option String

/-- The comparison that `rankAccounts` sorts by. -/
def comparison (records : List Record) (previousPinId : Option String)
    (activeLoad : Option (String → Load)) :
    Record → Record → Ordering :=
  let spreadByLoad := spreadsByLoad records previousPinId activeLoad
  if anyEvidence records then byEvidence spreadByLoad previousPinId else byFallback spreadByLoad previousPinId

/-- `rankAccounts(accounts, { now, previousPinId, activeLoad, model })` -/
def rankAccounts (accounts : List (Candidate Account)) (now : Int) (previousPinId : Option String)
    (activeLoad : Option (String → Load)) (model : String) : RankedAccounts :=
  let records := recordsOf accounts now activeLoad model
  if records.isEmpty then
    { ranked := [], eligible := [], ineligible := [], winner := none, degraded := false, reason := some "empty-cohort" }
  else
    let ranked := sortBy (comparison records previousPinId activeLoad) records
    let eligible := ranked.filter fun r => r.usable
    { ranked
      eligible
      ineligible := ranked.filter fun r => !r.usable
      winner := eligible.head?
      degraded := !anyEvidence records
      reason := if anyEvidence records then if eligible.isEmpty then some "all-depleted" else none
        else some "no-quota-evidence" }

/-! ## What a ranking contains -/

variable {accounts : List (Candidate Account)} {now : Int} {previousPinId : Option String}
  {activeLoad : Option (String → Load)} {model : String}

theorem mem_recordsOf {r : Record} :
    r ∈ recordsOf accounts now activeLoad model ↔
      ∃ c, accounts[r.index]? = some c ∧ r = toRecord now activeLoad model r.index c := by
  unfold recordsOf
  rw [List.mem_mapIdx]
  constructor
  · rintro ⟨i, hi, rfl⟩
    exact ⟨accounts[i], List.getElem?_eq_getElem hi, rfl⟩
  · rintro ⟨c, hc, hr⟩
    obtain ⟨hi, rfl⟩ := List.getElem?_eq_some_iff.mp hc
    exact ⟨r.index, hi, hr.symm⟩

theorem toRecord_mem {i : Nat} {c : Candidate Account} (h : accounts[i]? = some c) :
    toRecord now activeLoad model i c ∈ recordsOf accounts now activeLoad model := mem_recordsOf.mpr ⟨c, h, rfl⟩

theorem recordsOf_index : ((recordsOf accounts now activeLoad model).map Record.index) = List.range accounts.length := by
  apply List.ext_getElem
  · simp [recordsOf]
  · intro i hi hi'
    simp [recordsOf, toRecord]

/-- **The ranking** lists the records by the comparison, and picks the usable ones out. -/
theorem rankAccounts_spec (accounts : List (Candidate Account)) (now : Int)
    (previousPinId : Option String) (activeLoad : Option (String → Load)) (model : String) :
    let records := recordsOf accounts now activeLoad model
    let r := rankAccounts accounts now previousPinId activeLoad model
    r.ranked = sortBy (comparison records previousPinId activeLoad) records ∧
      r.eligible = r.ranked.filter (fun x => x.usable) ∧ r.winner = r.eligible.head? ∧
      (r.degraded = true → anyEvidence records = false) ∧ (r.degraded = false → records = [] ∨ anyEvidence records = true) := by
  intro records r
  by_cases hempty : records.isEmpty
  · have hr : r = { ranked := [], eligible := [], ineligible := [], winner := none, degraded := false,
                    reason := some "empty-cohort" } := if_pos hempty
    rw [List.isEmpty_iff] at hempty
    rw [hr]
    refine ⟨?_, rfl, rfl, ?_, fun _ => Or.inl hempty⟩
    · exact (sortBy_eq_nil.mpr hempty).symm
    · intro h
      cases h
  · have hr : r = _ := if_neg hempty
    rw [hr]
    refine ⟨rfl, rfl, rfl, fun h => ?_, fun h => Or.inr ?_⟩
    · simpa using h
    · simpa using h

theorem mem_ranked {r : Record} :
    r ∈ (rankAccounts accounts now previousPinId activeLoad model).ranked ↔
      r ∈ recordsOf accounts now activeLoad model := by
  rw [(rankAccounts_spec accounts now previousPinId activeLoad model).1, mem_sortBy]

theorem mem_eligible {r : Record} :
    r ∈ (rankAccounts accounts now previousPinId activeLoad model).eligible ↔
      r ∈ recordsOf accounts now activeLoad model ∧ r.usable = true := by
  rw [(rankAccounts_spec accounts now previousPinId activeLoad model).2.1, List.mem_filter, mem_ranked]

/-! ## What holds an account back -/

/-- An account is denied a model: its model list leaves the model out, or a window states
that there is no entitlement. -/
def HardBlocked (model : String) (c : Candidate Account) : Prop :=
  accountSupportsModel c.account model = false ∨
    ∃ raw ∈ c.account.windows, ∃ reason, readWindow model raw = .blocked reason

/-- An account can serve a model: it is not denied, and no window that was
read is empty before its reset. -/
def Usable (now : Int) (model : String) (c : Candidate Account) : Prop :=
  ¬ HardBlocked model c ∧ ∀ w ∈ readable model c.account.windows, ¬ w.Exhausted now

theorem hardBlocked_iff {index : Nat} {c : Candidate Account} :
    (toRecord now activeLoad model index c).hardBlocked = true ↔ HardBlocked model c := by
  have hblocked : (normalizeAccountWindows c.account.windows model).blocked = true ↔
      ∃ raw ∈ c.account.windows, ∃ reason, readWindow model raw = .blocked reason := by
    rw [(normalizeAccountWindows_spec c.account.windows model).2.2.1, List.any_eq_true]
    refine exists_congr fun raw => and_congr_right fun _ => ?_
    cases readWindow model raw <;> simp [Reading.isBlocked]
  simp only [toRecord, HardBlocked, Bool.or_eq_true, Bool.not_eq_true', hblocked]
  exact or_comm

theorem usable_toRecord_iff {index : Nat} {c : Candidate Account} :
    (toRecord now activeLoad model index c).usable = true ↔ Usable now model c := by
  have hblocked := not_congr (@hardBlocked_iff _ now activeLoad model index c)
  simp only [toRecord, Bool.or_eq_true, Bool.not_eq_true', not_or, Bool.not_eq_true, Bool.not_eq_false] at hblocked
  simp only [toRecord, Bool.and_eq_true, usable_iff, Usable, ← hblocked]
  tauto

end TokenProxy.Ranking
