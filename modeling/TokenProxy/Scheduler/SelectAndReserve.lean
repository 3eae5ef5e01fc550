import TokenProxy.Admission.LeaseGuarantees
import TokenProxy.Lib.Transaction
import TokenProxy.Scheduler.Pins

/-!
# Select and reserve

`selectAndReserve` of `accountScheduler.js`: eligibility, ranking, pin, reservation and receipt in
one database transaction. The lease lives in memory, where a rollback does not reach it, so the
wrapper `runInTransaction` gives it back when anything after the reservation throws, the commit
included.

The ranking itself (`planAccountSelection`) is pure and is a parameter: nothing here depends on how
it orders accounts. `Faults` says which call of one selection throws.
-/

namespace TokenProxy.Scheduler

open TokenProxy.Lib TokenProxy.Admission

/-- A candidate connection; `account` is everything else its record carries. -/
structure Candidate (α : Type) where
  id : String
  account : α

structure Load where
  pins : Nat
  inFlight : Int
  deriving DecidableEq

/-- What `decideRepin` answers, as far as the selection reads it. -/
inductive RepinAction
  | keep
  | repin
  | none
  deriving DecidableEq

/-- What `planAccountSelection` hands back. -/
structure Plan (α : Type) where
  preferred : List (Candidate α)
  degraded : Bool
  rankReason : Option String
  repinAction : RepinAction
  repinTrigger : Option String

structure Policy (α : Type) where
  plan : List (Candidate α) → Option Pin → (String → Load) → String → Int → Plan α
  earliestReset : List (Candidate α) → Int → String → Option Int
  /-- The normalized quota windows of an account, as JSON. -/
  windowsJson : α → String
  hash : Binding → String

/-- `TRIGGERS.EXHAUSTION` -/
def triggerExhaustion : String := "exhaustion"

structure Receipt where
  id : Option String
  fromConnectionId : Option String
  toConnectionId : String
  windows : String
  trigger : String
  model : String
  sessionHash : String
  switchedAt : Int
  deriving DecidableEq

/-- The input of one call. The callers pass the digest of a session and a model name, `*` where the
request names none, so neither is empty. -/
structure Input (α : Type) where
  sessionHash : String
  model : String
  sessionHash_ne : sessionHash ≠ ""
  model_ne : model ≠ ""
  accounts : List (Candidate α)
  now : Int
  /-- The pending command the caller saw; absent when the caller does not check. -/
  pinActionId : Option (Option String)
  /-- What `randomUUID()` returns for a recorded switch. -/
  uuid : String

structure Faults where
  getPendingPinAction : Option String := none
  getPin : Option String := none
  countActivePins : Option String := none
  setPin : Option String := none
  touchPin : Option String := none
  recordSwitch : Option String := none
  completePinAction : Option String := none
  commit : Option String := none

structure Unavailable where
  reason : String
  mustWait : Bool := false
  degraded : Bool := false
  earliestResetAt : Option Int := none
  deriving DecidableEq

/-- `RETRY_AFTER_SECONDS`, part of every refusal. -/
def retryAfterSeconds : Nat := 1

structure Selection (α : Type) where
  connection : Candidate α
  lease : AnyLease
  receipt : Option Receipt
  reason : String
  skipped : List String

inductive Outcome (α : Type)
  | selected (s : Selection α)
  | unavailable (u : Unavailable)
  | threw (error : String)

variable {α : Type}

def Outcome.lease : Outcome α → Option AnyLease
  | .selected s => some s.lease
  | _ => none

def throwing (fault : Option String) : Except String Unit :=
  match fault with
  | some e => .error e
  | none => .ok ()

def candidatesOf (input : Input α) : List (Candidate α) := input.accounts.filter fun c => c.id ≠ ""

def targetsOf (pinAction : Option PendingAction)
    (candidates : List (Candidate α)) : List (Candidate α) :=
  match pinAction with
  | some a => candidates.filter fun c => some c.id = a.action.targetConnectionId
  | none => candidates

def pinFor (pinAction : Option PendingAction) (pin : Option Pin) : Option Pin :=
  match pinAction with
  | some _ => none
  | none => pin

/-- What the transaction decides before it reserves: a refusal, or an order to walk, for the pin it
read and the command it found. -/
inductive Prepared (α : Type)
  | refuse (u : Unavailable)
  | walk (plan : Plan α) (previousPinId : Option String) (pinAction : Option PinAction)

def prepare (policy : Policy α) (leases : LeaseSystem) (input : Input α) (faults : Faults)
    (db : SchedulerDb) :
    Except String (SchedulerDb × Prepared α) := do
  throwing faults.getPendingPinAction
  let (db, pinAction) := db.getPendingPinAction policy.hash input.now input.sessionHash input.model
  if (pinAction.any PendingAction.storageUnavailable) ∨
      (∃ id ∈ input.pinActionId, pinAction.map (fun a => a.action.id) ≠ id) then
    return (db, .refuse { reason := "pin-command-changed", mustWait := true })
  let candidates := candidatesOf input
  if candidates.isEmpty then
    return (db, .refuse { reason := "no-accounts", mustWait := pinAction.isSome })
  throwing faults.getPin
  let pin := db.getPin input.now input.sessionHash input.model
  throwing faults.countActivePins
  let load : String → Load := fun id =>
    { pins := db.countActivePins input.now input.model id, inFlight := leases.inFlight id }
  let plan := policy.plan (targetsOf pinAction candidates) (pinFor pinAction pin) load input.model input.now
  if plan.preferred.isEmpty then
    return (db, .refuse {
      reason := if pinAction.isSome then "operator-target-unavailable"
        else "no-eligible-account" ++ (plan.rankReason.elim "" (":" ++ ·))
      mustWait := pinAction.isSome
      degraded := plan.degraded
      earliestResetAt := policy.earliestReset candidates input.now input.model })
  return (db, .walk plan (pin.map Pin.connectionId) (pinAction.map PendingAction.action))

/-- The slot walk: the first account of the order that gives a lease, and who was tried before. -/
def walk (leases : LeaseSystem) (skipped : List String) :
    List (Candidate α) → LeaseSystem × Option (Candidate α × AnyLease) × List String
  | [] => (leases, none, skipped)
  | record :: rest =>
    match leases.reserve record.id with
    | (leases, some lease) => (leases, some (record, lease), skipped)
    | (leases, none) => walk leases (skipped ++ [String.ofList (record.id.toList.take 8) ++ ":capacity"]) rest

/-- `buildSwitchReceipt` for this selection. -/
def buildSwitchReceipt (policy : Policy α) (input : Input α) (plan : Plan α)
    (previousPinId : Option String)
    (pinAction : Option PinAction) (record : Candidate α) : Receipt where
  id := none
  fromConnectionId := previousPinId
  toConnectionId := record.id
  windows := policy.windowsJson record.account
  trigger := if pinAction.isSome then "operator-reassignment"
    else if previousPinId.isNone then "first-pin"
    else match plan.repinTrigger with
      | some t => if t = "" then triggerExhaustion else t
      | none => triggerExhaustion
  model := input.model
  sessionHash := input.sessionHash
  switchedAt := input.now

def Receipt.row (r : Receipt) (uuid : String) : SwitchRow where
  id := uuid
  sessionHash := r.sessionHash
  model := r.model
  fromConnectionId := r.fromConnectionId
  toConnectionId := r.toConnectionId
  trigger := r.trigger
  windows := r.windows
  switchedAt := r.switchedAt

/-- The selection moves the pin: it switched, or it is the first one. -/
def Moves (previousPinId : Option String) (record : Candidate α) : Prop := previousPinId ≠ some record.id

instance (previousPinId : Option String) (record : Candidate α) :
    Decidable (Moves previousPinId record) :=
  inferInstanceAs (Decidable (previousPinId ≠ some record.id))

def writePin (input : Input α) (faults : Faults) (previousPinId : Option String)
    (record : Candidate α) (db : SchedulerDb) : Except String SchedulerDb :=
  if Moves previousPinId record then
    (throwing faults.setPin).map fun _ => db.setPin input.now input.sessionHash input.model record.id
  else (throwing faults.touchPin).map fun _ => db.touchPin input.now input.sessionHash input.model

def writeReceipt (policy : Policy α) (input : Input α) (faults : Faults) (plan : Plan α)
    (previousPinId : Option String) (pinAction : Option PinAction) (record : Candidate α) (db : SchedulerDb) :
    Except String (SchedulerDb × Option Receipt) :=
  if Moves previousPinId record then
    let receipt := buildSwitchReceipt policy input plan previousPinId pinAction record
    (throwing faults.recordSwitch).map fun _ =>
      (db.recordSwitch (receipt.row input.uuid), some { receipt with id := some input.uuid })
  else .ok (db, none)

/-- The completion of the operator's command, where there is one. -/
def writeCommand (input : Input α) (faults : Faults) (pinAction : Option PinAction)
    (db : SchedulerDb) :
    Except String SchedulerDb :=
  match pinAction with
  | some action => (throwing faults.completePinAction).map fun _ => db.completePinAction input.now action
  | none => .ok db

def selectionReason (previousPinId : Option String) (pinAction : Option PinAction)
    (record : Candidate α) : String :=
  if pinAction.isSome then "operator-reassignment"
  else if previousPinId.isNone then "first-pin"
  else if Moves previousPinId record then "repin" else "pinned"

/-- The transaction after a slot was taken: the pin, the receipt, the command. -/
def settle (policy : Policy α) (input : Input α) (faults : Faults) (plan : Plan α)
    (previousPinId : Option String)
    (pinAction : Option PinAction) (record : Candidate α) (db : SchedulerDb) :
    Except String (SchedulerDb × Option Receipt × String) := do
  let db ← writePin input faults previousPinId record db
  let (db, receipt) ← writeReceipt policy input faults plan previousPinId pinAction record db
  let db ← writeCommand input faults pinAction db
  return (db, receipt, selectionReason previousPinId pinAction record)

structure Result (α : Type) where
  db : SchedulerDb
  leases : LeaseSystem
  outcome : Outcome α

/-- `selectAndReserve(input)`: one transaction; its rollback gives the reserved lease back. -/
def selectAndReserve (policy : Policy α) (leases : LeaseSystem) (db : SchedulerDb) (input : Input α)
    (faults : Faults) : Result α :=
  match prepare policy leases input faults db with
  | .error e => { db, leases, outcome := .threw e }
  | .ok (db', .refuse u) =>
    match transaction (fun _ => .ok (db', u)) faults.commit db with
    | (db, .ok u) => { db, leases, outcome := .unavailable u }
    | (db, .error e) => { db, leases, outcome := .threw e }
  | .ok (db', .walk plan previousPinId pinAction) =>
    match walk leases [] plan.preferred with
    | (leases, none, _) =>
      match transaction (fun _ => .ok (db', ({ reason := "at-capacity", mustWait := pinAction.isSome } : Unavailable)))
          faults.commit db with
      | (db, .ok u) => { db, leases, outcome := .unavailable u }
      | (db, .error e) => { db, leases, outcome := .threw e }
    | (leases, some (record, lease), skipped) =>
      match transaction (fun _ => settle policy input faults plan previousPinId pinAction record db') faults.commit db with
      | (db, .ok (receipt, reason)) =>
        { db, leases, outcome := .selected { connection := record, lease, receipt, reason, skipped } }
      | (db, .error e) => { db, leases := (leases.release lease).1, outcome := .threw e }

end TokenProxy.Scheduler
