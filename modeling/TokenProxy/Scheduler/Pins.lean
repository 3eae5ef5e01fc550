import TokenProxy.Lib.Table

/-!
# The scheduler's store

The three tables that `selectAndReserve` reads and writes, through the synchronous facade of
`schedulerRepos.js` and the queued operator commands of `sessionPinControl.js`. Timestamps are the
instants that the stored ISO strings name, in milliseconds.
-/

namespace TokenProxy.Scheduler

open TokenProxy.Lib

/-- A row of `sessionAffinity`. -/
structure PinRow where
  sessionHash : String
  model : String
  connectionId : String
  providerNode : Option String
  pinnedAt : Int
  expiresAt : Option Int
  operatorExpiresAt : Option Int
  lastSeenAt : Int
  deriving DecidableEq

/-- `PRIMARY KEY(sessionHash, model)` -/
def PinRow.key (r : PinRow) : String × String := (r.sessionHash, r.model)

/-- What an operator asks for: end the pin, give it a deadline, or move it to another account. -/
inductive ActionKind
  | clear
  | expire
  | reassign
  deriving DecidableEq

inductive ActionStatus
  | preview
  | queued
  | applied
  | conflict
  | cancelled
  deriving DecidableEq

/-- A row of `sessionPinActions`. -/
structure PinAction where
  id : String
  sessionHash : String
  model : String
  action : ActionKind
  targetConnectionId : Option String
  deadline : Option Int
  expectedRevision : String
  expectedBinding : String
  status : ActionStatus
  reason : Option String
  beforeState : PinRow
  afterState : Option (Option PinRow)
  createdAt : Int
  previewExpiresAt : Int
  appliedAt : Option Int
  deriving DecidableEq

/-- A row of `accountSwitches`; `windows` is the JSON of the normalized quota windows. -/
structure SwitchRow where
  id : String
  sessionHash : String
  model : String
  fromConnectionId : Option String
  toConnectionId : String
  trigger : String
  windows : String
  switchedAt : Int
  deriving DecidableEq

structure SchedulerDb where
  /-- The `sql.js` driver, which cannot store operator commands. -/
  sqljs : Bool := false
  pins : Table PinRow.key := .empty
  actions : Table PinAction.id := .empty
  switches : List SwitchRow := []

/-- `PIN_IDLE_TTL_MS` -/
def pinIdleTtlMs : Int := 24 * 60 * 60 * 1000

/-- What `getPin` answers. -/
structure Pin where
  connectionId : String
  pinnedAt : Int
  deriving DecidableEq

/-- `row.expiresAt <= nowIso` -/
def PinRow.expired (row : PinRow) (now : Int) : Bool :=
  match row.expiresAt with
  | some at_ => at_ ≤ now
  | none => false

/-- `livePin(row, nowIso)` -/
def livePin (row : Option PinRow) (now : Int) : Option Pin :=
  match row with
  | none => none
  | some row =>
    if row.connectionId = "" then none
    else if row.expired now then none
    else some { connectionId := row.connectionId, pinnedAt := row.pinnedAt }

/-- What identifies a binding: `[sessionHash, model, connectionId, pinnedAt, operatorExpiresAt]`. -/
abbrev Binding := Option (String × String × String × Int × Option Int)

def bindingOf (pin : Option PinRow) : Binding :=
  pin.map fun p => (p.sessionHash, p.model, p.connectionId, p.pinnedAt, p.operatorExpiresAt)

/-- The pending command as `getPendingPinAction` hands it up. -/
structure PendingAction where
  action : PinAction
  storageUnavailable : Bool
  deriving DecidableEq

namespace SchedulerDb

def pinRow (db : SchedulerDb) (sessionHash model : String) : Option PinRow := db.pins.get? (sessionHash, model)

/-- `getPin({ sessionHash, model })` -/
def getPin (db : SchedulerDb) (now : Int) (sessionHash model : String) : Option Pin :=
  if sessionHash = "" ∨ model = "" then none else livePin (db.pinRow sessionHash model) now

/-- `setPin({ sessionHash, model, connectionId, at })`: the upsert, and the sweep that rides it. -/
def setPin (db : SchedulerDb) (now : Int) (sessionHash model connectionId : String) : SchedulerDb :=
  if sessionHash = "" ∨ model = "" ∨ connectionId = "" then db
  else
    let row : PinRow :=
      { sessionHash, model, connectionId
        providerNode := (db.pinRow sessionHash model).bind PinRow.providerNode
        pinnedAt := now, expiresAt := some (now + pinIdleTtlMs), operatorExpiresAt := none, lastSeenAt := now }
    { db with pins := (db.pins.put row).filter fun r => !r.expired now }

/-- `touchPin({ sessionHash, model, at })`: the stamp slides, up to the operator's own expiry. -/
def touchPin (db : SchedulerDb) (now : Int) (sessionHash model : String) : SchedulerDb :=
  if sessionHash = "" ∨ model = "" then db
  else
    match db.pinRow sessionHash model with
    | none => db
    | some row =>
      let idle := now + pinIdleTtlMs
      let expiresAt := match row.operatorExpiresAt with
        | some op => if op < idle then op else idle
        | none => idle
      { db with pins := db.pins.put { row with lastSeenAt := now, expiresAt := some expiresAt } }

/-- `countActivePins({ model, now })`, for one connection. -/
def countActivePins (db : SchedulerDb) (now : Int) (model connectionId : String) : Nat :=
  if model = "" ∨ connectionId = "" then 0
  else db.pins.rows.countP fun r => r.model = model && !r.expired now && r.connectionId = connectionId

/-- `PENDING_PIN_SELECT` -/
def pendingAction (db : SchedulerDb) (sessionHash model : String) : Option PinAction :=
  db.actions.rows.find? fun a => a.sessionHash = sessionHash && a.model = model && a.status = .queued

/-- `getPendingPinAction(db, sessionHash, model, nowIso)`: a command whose binding has ended becomes
a conflict. `hash` is the digest of a binding. -/
def getPendingPinAction (hash : Binding → String) (db : SchedulerDb) (now : Int)
    (sessionHash model : String) :
    SchedulerDb × Option PendingAction :=
  match db.pendingAction sessionHash model with
  | none => (db, none)
  | some action =>
    if db.sqljs then (db, some { action, storageUnavailable := true })
    else
      let pin := db.pinRow sessionHash model
      if pin.isNone ∨ hash (bindingOf pin) ≠ action.expectedBinding ∨ ∃ p ∈ pin, p.expired now then
        let ended := { action with status := .conflict, reason := some "binding-ended", appliedAt := some now }
        ({ db with actions := db.actions.put ended }, none)
      else (db, some { action, storageUnavailable := false })

/-- `completePinAction(db, action, nowIso)` -/
def completePinAction (db : SchedulerDb) (now : Int) (action : PinAction) : SchedulerDb :=
  match db.actions.get? action.id with
  | some stored =>
    if stored.status = .queued then
      let applied := { stored with
        status := .applied, reason := some "subsequent-selection"
        afterState := some (db.pinRow action.sessionHash action.model), appliedAt := some now }
      { db with actions := db.actions.put applied }
    else db
  | none => db

/-- `recordSwitch(receipt)` -/
def recordSwitch (db : SchedulerDb) (row : SwitchRow) : SchedulerDb :=
  if row.sessionHash = "" ∨ row.model = "" ∨ row.toConnectionId = "" then db
  else { db with switches := db.switches ++ [row] }

/-! ## What the operations do to the pins -/

variable (db : SchedulerDb) (now : Int) (sessionHash model : String)

@[simp] theorem getPendingPinAction_pins (hash : Binding → String) :
    (db.getPendingPinAction hash now sessionHash model).1.pins = db.pins ∧
      (db.getPendingPinAction hash now sessionHash model).1.switches = db.switches := by
  unfold getPendingPinAction
  split
  · exact ⟨rfl, rfl⟩
  split
  · exact ⟨rfl, rfl⟩
  simp only
  split <;> exact ⟨rfl, rfl⟩

theorem completePinAction_pins (action : PinAction) :
    (db.completePinAction now action).pins = db.pins ∧ (db.completePinAction now action).switches = db.switches := by
  unfold completePinAction
  split
  · split <;> exact ⟨rfl, rfl⟩
  · exact ⟨rfl, rfl⟩

theorem setPin_switches (connectionId : String) :
    (db.setPin now sessionHash model connectionId).switches = db.switches := by
  unfold setPin
  split <;> rfl

theorem touchPin_switches : (db.touchPin now sessionHash model).switches = db.switches := by
  unfold touchPin
  split
  · rfl
  split <;> rfl

theorem recordSwitch_pins (row : SwitchRow) : (db.recordSwitch row).pins = db.pins := by
  unfold recordSwitch
  split <;> rfl

variable {sessionHash model}

theorem setPin_pinRow {connectionId : String} (hs : sessionHash ≠ "") (hm : model ≠ "") (hc : connectionId ≠ "") :
    ((db.setPin now sessionHash model connectionId).pinRow sessionHash model).map PinRow.connectionId =
      some connectionId := by
  unfold setPin pinRow
  rw [if_neg (by simp [hs, hm, hc])]
  simp only [Table.get?_filter, Table.get?_put, PinRow.key, if_true]
  rw [Option.filter_some_pos]
  · rfl
  · simp [PinRow.expired, pinIdleTtlMs]

theorem touchPin_pinRow :
    ((db.touchPin now sessionHash model).pinRow sessionHash model).map PinRow.connectionId =
      (db.pinRow sessionHash model).map PinRow.connectionId := by
  unfold touchPin
  split
  · rfl
  split
  · rename_i hnone
    rw [hnone]
  · rename_i row hrow
    have hkey : row.key = (sessionHash, model) := Table.get?_key hrow
    simp only [pinRow, Table.get?_put]
    rw [if_pos (by rw [← hkey]; rfl)]
    rw [pinRow] at hrow
    rw [hrow]
    rfl

theorem pinRow_of_getPin {pin : Pin} (h : db.getPin now sessionHash model = some pin) :
    (db.pinRow sessionHash model).map PinRow.connectionId = some pin.connectionId := by
  unfold getPin at h
  split at h
  · cases h
  unfold livePin at h
  split at h
  · cases h
  · rename_i row hrow
    rw [hrow]
    split at h
    · cases h
    split at h
    · cases h
    · cases h
      rfl

end SchedulerDb

end TokenProxy.Scheduler
