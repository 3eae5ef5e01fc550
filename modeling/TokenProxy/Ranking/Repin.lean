import TokenProxy.Ranking.Order

/-!
# Keeping and moving a pin

`decideRepin` of `repinPolicy.js`: what becomes of the pin of a session. It asks `rankAccounts` who
is eligible, and adds whether the pin should move at all. `planAccountSelection` of
`accountScheduler.js` makes of both the order in which a request tries accounts.

An id that is the empty text counts as none wherever the source tests it.
-/

namespace TokenProxy.Ranking

open TokenProxy.Lib TokenProxy.Scheduler

variable [Collation]

/-- What `decideRepin` answers. -/
structure Repin where
  action : RepinAction
  connectionId : Option String
  previous : Option String
  trigger : Option String
  reason : String
  deriving DecidableEq

def keep (pin : Option Pin) (reason : String) : Repin where
  action := .keep
  connectionId := pin.map Pin.connectionId
  previous := pin.map Pin.connectionId
  trigger := none
  reason := reason

def nothing (reason : String) : Repin where
  action := .none
  connectionId := none
  previous := none
  trigger := none
  reason := reason

def move (previous : Option String) (connectionId : String) (trigger reason : String) : Repin where
  action := .repin
  connectionId := some connectionId
  previous := previous
  trigger := some trigger
  reason := reason

/-- A text that the source's `if` takes for true. -/
def truthy (id : Option String) : Option String := id.filter (· ≠ "")

/-- `restockedSincePin(pin, cohort, targetId, nowMs, model)` -/
def restockedSincePin (pin : Pin) (cohort : List (Candidate Account)) (targetId : String)
    (now : Int) (model : String) :
    Bool :=
  if now < pin.pinnedAt then false
  else
    let atPin := rankAccounts cohort pin.pinnedAt (some pin.connectionId) none model
    if atPin.degraded then false else !atPin.eligible.any fun r => r.id = targetId

def moveOrNothing (winner previous : Option String) (trigger reason : String)
    (otherwise : String) : Repin :=
  match winner with
  | some id => move previous id trigger reason
  | none => nothing otherwise

/-- The decision for a pin whose account is no longer eligible. -/
def repinDepleted (pin : Option Pin) (cohort : List (Candidate Account)) (now : Int)
    (model : String) (winner : Option String) (reason : Option String) : Repin :=
  match winner with
  | none => nothing (reason.getD "no-eligible-account")
  | some id =>
    if pin.any fun pin => restockedSincePin pin cohort id now model then
      move (pin.map Pin.connectionId) id "reset" "pinned-window-exhausted:returning-to-restored"
    else move (pin.map Pin.connectionId) id "exhaustion" "pinned-window-exhausted"

def repinEligible (pin : Option Pin) (eligible : List Record) (pinnedRecord : Record) : Repin :=
  if pinnedRecord.windows.isEmpty then
    match eligible.find? fun r => some r.id ≠ pin.map Pin.connectionId ∧ r.windows.isEmpty = false with
    | none => keep pin "pin-healthy"
    | some r => move (pin.map Pin.connectionId) r.id "unavailable" "pinned-evidence-absent:moving-to-readable"
  else keep pin "pin-healthy"

/-- `decideRepin({ pin, accounts, now, unavailableIds, activeLoad, model })` -/
def decideRepin (pin : Option Pin) (accounts : List (Candidate Account)) (now : Int)
    (unavailableIds : List String) (activeLoad : Option (String → Load)) (model : String) : Repin :=
  let cohort := accounts.filter fun a => a.id ∉ unavailableIds
  let pinnedId := pin.map Pin.connectionId
  if cohort.isEmpty then nothing "no-accounts"
  else
    let ranked := rankAccounts cohort now pinnedId activeLoad model
    let winner := truthy (ranked.winner.map Record.id)
    if (ranked.ranked.find? fun r => some r.id = pinnedId).any Record.hardBlocked then
      moveOrNothing winner pinnedId "unavailable" "pinned-entitlement-unavailable" "no-eligible-account"
    else if (truthy pinnedId).any fun id => !cohort.any fun a => a.id = id then
      moveOrNothing winner pinnedId "unavailable" "pinned-connection-unavailable"
        (ranked.reason.getD "no-eligible-account")
    else if ranked.degraded then
      if (truthy pinnedId).isSome then keep pin ("ranking-degraded:" ++ ranked.reason.getD "null")
      else
        moveOrNothing winner none "initial-pin" ("no-existing-pin:" ++ ranked.reason.getD "null")
          (ranked.reason.getD "null")
    else if (truthy pinnedId).isNone then
      moveOrNothing winner none "initial-pin" "no-existing-pin" (ranked.reason.getD "no-eligible-account")
    else if ranked.eligible.isEmpty then
      keep pin ("all-depleted-holding-pin:" ++ ranked.reason.getD "all-depleted")
    else
      match ranked.eligible.find? fun r => some r.id = pinnedId with
      | some pinnedRecord => repinEligible pin ranked.eligible pinnedRecord
      | none => repinDepleted pin cohort now model winner ranked.reason

/-- What `planAccountSelection` answers. -/
structure Planned where
  ranking : RankedAccounts
  repin : Repin
  preferred : List Record

def decidedRecord (ranking : RankedAccounts) (repin : Repin) : Option Record :=
  match truthy repin.connectionId with
  | none => none
  | some id =>
    match ranking.eligible.find? fun r => r.id = id with
    | some r => some r
    | none => ranking.ranked.find? fun r => r.id = id

/-- `planAccountSelection({ accounts, pin, activeLoad, model, now })` -/
def planAccountSelection (accounts : List (Candidate Account)) (pin : Option Pin)
    (activeLoad : Option (String → Load)) (model : String) (now : Int) : Planned :=
  let ranking := rankAccounts accounts now (pin.map Pin.connectionId) activeLoad model
  let repin := decideRepin pin accounts now [] activeLoad model
  { ranking
    repin
    preferred :=
      match decidedRecord ranking repin with
      | none => ranking.eligible
      | some decided =>
        if repin.action = .keep then [decided]
        else decided :: ranking.eligible.filter fun r => some r.id ≠ repin.connectionId }

/-! ## What holds an account back -/

variable {accounts : List (Candidate Account)} {now : Int} {previousPinId : Option String}
  {activeLoad : Option (String → Load)} {model : String}

theorem hardBlocked_of_usable {r : Record} (h : r ∈ recordsOf accounts now activeLoad model)
    (husable : r.usable = true) :
    r.hardBlocked = false := by
  obtain ⟨c, -, hr⟩ := mem_recordsOf.mp h
  rw [hr] at husable ⊢
  rw [← Bool.not_eq_true, hardBlocked_iff]
  exact (usable_toRecord_iff.mp husable).1

theorem usable_of_blind {r : Record} (h : r ∈ recordsOf accounts now activeLoad model)
    (hblind : r.windows = []) (hblocked : r.hardBlocked = false) : r.usable = true := by
  obtain ⟨c, -, hr⟩ := mem_recordsOf.mp h
  rw [hr] at hblind hblocked ⊢
  simp only [toRecord, Bool.or_eq_false_iff, Bool.not_eq_false'] at hblind hblocked ⊢
  have hnone : (normalizeAccountWindows c.account.windows model).windows.filterMap (resolveWindow now) = [] := by
    rw [resolveWindows] at hblind
    exact sortBy_eq_nil.mp hblind
  simp only [resolveWindows, hnone, hblocked, List.all_nil, Bool.and_true, Bool.not_false]

end TokenProxy.Ranking
