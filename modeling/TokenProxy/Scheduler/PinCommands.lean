import TokenProxy.Scheduler.EarliestReset

/-!
# Operator commands on a pin

`sessionPinsRepo.js`: a command is previewed, then applied. `clear` and `expire` take effect when
they are applied; `reassign` is queued, and a later selection of the session consumes it, in
`selectAndReserve` or, for a request that names its account, in `persistOperatorPin` of `auth.js`.
Other requests rewrite the pins in between.

A binding and a revision of a pin are digests of its fields; the digests are parameters. Left out:
the evidence that a preview shows, and the decoding of a pin id, which names its session and model.
-/

namespace TokenProxy.Scheduler

open TokenProxy.Lib TokenProxy.Ranking

/-- What a command's transaction throws: a `PinControlError`, or a failure of the store. -/
inductive PinControlError
  | refused (code : String) (status : Nat)
  | storage (message : String)
  deriving DecidableEq

def throwPin {α : Type} (code : String) (status : Nat) : Except PinControlError α := .error (.refused code status)

/-! ## What is stated of a pin -/

def isHex (c : Char) : Bool := c.isDigit || ('a' ≤ c && c ≤ 'f')

/-- `uuid(value)` -/
def uuid (value : String) : Bool :=
  value.toList.length = 36 &&
    value.toList.zipIdx.all fun (c, i) => if i ∈ [8, 13, 18, 23] then c == '-' else isHex c

/-- `revision(value)` -/
def isRevision (value : String) : Bool := value.toList.length = 64 && value.toList.all isHex

/-- `publicPin(pin, now)` refuses a pin that it cannot represent. -/
def PinRow.representable (row : PinRow) : Bool :=
  row.sessionHash.toList.all isHex && 32 ≤ row.sessionHash.length && row.sessionHash.length ≤ 64 &&
    row.model ≠ "" && row.model.length ≤ 512 && row.connectionId.length ≤ 128

/-- `publicAction(row)` -/
def publicAction (row : PinAction) : Except PinControlError PinAction :=
  if row.beforeState.representable = false then throwPin "pin_record_unrepresentable" 422
  else
    match row.afterState with
    | some after => if after.any PinRow.representable then .ok row else throwPin "pin_record_unrepresentable" 422
    | none => .ok row

/-- The digest of a revision, of the digest of the binding and the pin's expiry. -/
structure Digests where
  binding : Binding → String
  revision : String → Option Int → String

/-- `pinRevision(pin)` -/
def Digests.pinRevision (digests : Digests) (pin : PinRow) : String :=
  digests.revision (digests.binding (bindingOf (some pin))) pin.expiresAt

/-! ## The commands -/

/-- The body of a preview, with the pin that its `pinId` names. -/
structure PinRequest where
  id : Option String
  sessionHash : String
  model : String
  expectedRevision : String
  action : ActionKind
  targetConnectionId : Option String
  deadline : Option Int
  deriving DecidableEq

/-- `validatePinAction(body)` -/
def validatePinAction (body : PinRequest) : Except PinControlError Unit :=
  if body.id.any fun id => uuid id = false then throwPin "invalid_action_id" 400
  else if isRevision body.expectedRevision = false then throwPin "invalid_revision" 400
  else if body.action = .reassign ∧ (body.targetConnectionId.all fun t => t = "" || 128 < t.length) then
    throwPin "invalid_target" 400
  else if body.action ≠ .reassign ∧ body.targetConnectionId.isSome then throwPin "invalid_target" 400
  else if body.action = .expire ∧ body.deadline.isNone then throwPin "invalid_deadline" 400
  else if body.action ≠ .expire ∧ body.deadline.isSome then throwPin "invalid_deadline" 400
  else .ok ()

def previewTtlMs : Int := 300000

def deadlineHorizonMs : Int := 30 * 86400000

def previewRow (digests : Digests) (body : PinRequest) (id : String) (pin : PinRow)
    (now : Int) : PinAction where
  id
  sessionHash := body.sessionHash
  model := body.model
  action := body.action
  targetConnectionId := body.targetConnectionId
  deadline := body.deadline
  expectedRevision := body.expectedRevision
  expectedBinding := digests.binding (bindingOf (some pin))
  status := .preview
  reason := none
  beforeState := pin
  afterState := none
  createdAt := now
  previewExpiresAt := now + previewTtlMs
  appliedAt := none

def PinAction.answers (previous : PinAction) (body : PinRequest) : Prop :=
  previous.sessionHash = body.sessionHash ∧ previous.model = body.model ∧
    previous.expectedRevision = body.expectedRevision ∧ previous.action = body.action ∧
    previous.targetConnectionId = body.targetConnectionId ∧ previous.deadline = body.deadline

instance (previous : PinAction) (body : PinRequest) : Decidable (previous.answers body) :=
  inferInstanceAs (Decidable (_ ∧ _))

/-- `previewSessionPin(body)`, in its transaction; `random` is what `randomUUID()` returns. -/
def previewSessionPin (digests : Digests) (body : PinRequest) (random : String) (now : Int)
    (db : SchedulerDb) :
    Except PinControlError (SchedulerDb × PinAction) := do
  validatePinAction body
  let id := body.id.getD random
  if db.sqljs then throwPin "durable_storage_required" 503
  else
    match db.actions.get? id with
    | some previous =>
      if previous.answers body then
        let shown ← publicAction previous
        return (db, shown)
      else throwPin "idempotency_conflict" 409
    | none =>
      match db.pinRow body.sessionHash body.model with
      | none => throwPin "pin_not_found" 404
      | some pin =>
        if digests.pinRevision pin ≠ body.expectedRevision then throwPin "pin_changed" 409
        else if body.action = .reassign ∧ pin.expired now then throwPin "pin_expired" 409
        else if body.action = .reassign ∧ some pin.connectionId = body.targetConnectionId then
          throwPin "target_is_current_account" 400
        else if body.action = .expire ∧ (body.deadline.any fun d => now + deadlineHorizonMs < d) then
          throwPin "deadline_too_far" 400
        else
          let row := previewRow digests body id pin now
          let shown ← publicAction row
          return ({ db with actions := db.actions.put row }, shown)

def conflictReason (digests : Digests) (action : PinAction) (pin : Option PinRow)
    (now : Int) : Option String :=
  if action.previewExpiresAt ≤ now then some "preview_expired"
  else
    match pin with
    | none => some "pin_changed"
    | some pin =>
      if digests.pinRevision pin ≠ action.expectedRevision then some "pin_changed"
      else if action.action = .reassign ∧ pin.expired now then some "pin_expired"
      else none

/-- A clear cancels the reassignment that is queued for the pin. -/
def SchedulerDb.cancelAction (db : SchedulerDb) (now : Int) (pending : PinAction) : SchedulerDb :=
  let cancelled := { pending with status := .cancelled, reason := some "affinity-cleared", appliedAt := some now }
  { db with actions := db.actions.put cancelled }

def SchedulerDb.effectAction (db : SchedulerDb) (action : PinAction) : SchedulerDb :=
  match action.action with
  | .clear => { db with pins := db.pins.erase (action.sessionHash, action.model) }
  | .expire =>
    match db.pinRow action.sessionHash action.model with
    | some pin =>
      let expiry := match pin.expiresAt, action.deadline with
        | some idle, some deadline => if idle < deadline then some idle else some deadline
        | _, deadline => deadline
      { db with pins := db.pins.put { pin with operatorExpiresAt := action.deadline, expiresAt := expiry } }
    | none => db
  | .reassign => db

def SchedulerDb.recordAction (db : SchedulerDb) (now : Int) (action : PinAction) : PinAction :=
  let after := (db.pinRow action.sessionHash action.model).map some
  if action.action = .reassign then
    { action with status := .queued, reason := some "awaiting-subsequent-selection", afterState := after, appliedAt := none }
  else { action with status := .applied, reason := some "operator-applied", afterState := after, appliedAt := some now }

/-- `applySessionPin({ id, expectedRevision })`, in its transaction. -/
def applySessionPin (digests : Digests) (id expectedRevision : String) (now : Int)
    (db : SchedulerDb) :
    Except PinControlError (SchedulerDb × PinAction) := do
  if uuid id = false ∨ isRevision expectedRevision = false then throwPin "invalid_apply" 400
  else if db.sqljs then throwPin "durable_storage_required" 503
  else
    match db.actions.get? id with
    | none => throwPin "preview_not_found" 404
    | some action =>
      if action.expectedRevision ≠ expectedRevision then throwPin "idempotency_conflict" 409
      else if action.status ≠ .preview then
        let shown ← publicAction action
        return (db, shown)
      else
        match conflictReason digests action (db.pinRow action.sessionHash action.model) now with
        | some reason =>
          let row := { action with status := .conflict, reason := some reason, appliedAt := some now }
          let shown ← publicAction row
          return ({ db with actions := db.actions.put row }, shown)
        | none =>
          let pending := db.pendingAction action.sessionHash action.model
          if pending.isSome ∧ action.action ≠ .clear then throwPin "reassignment_pending" 409
          else
            let cancelled := pending.elim db (db.cancelAction now)
            let effected := cancelled.effectAction action
            let row := effected.recordAction now action
            let shown ← publicAction row
            return ({ effected with actions := effected.actions.put row }, shown)

/-! ## A request that names its account -/

/-- The input of `persistOperatorPin`; `expectedPinAction` is the id of the
command that the caller saw. -/
structure OperatorPin where
  sessionHash : String
  model : String
  connection : Candidate Account
  now : Int
  expectedPinAction : Option String
  /-- What `randomUUID()` returns for a recorded switch. -/
  uuid : String

/-- `buildSwitchReceipt` for a request that names its account. -/
def OperatorPin.receipt (call : OperatorPin) (windowsJson : Account → String)
    (previousPinId : Option String) (action : Option PinAction) : SwitchRow where
  id := call.uuid
  sessionHash := call.sessionHash
  model := call.model
  fromConnectionId := previousPinId
  toConnectionId := call.connection.id
  trigger := if action.isSome then "operator-reassignment" else if previousPinId.isNone then "first-pin" else "operator-pin"
  windows := windowsJson call.connection.account
  switchedAt := call.now

/-- The command at hand is not the one that the caller saw, or not for this account. -/
def OperatorPin.mustWait (call : OperatorPin) (action : Option PendingAction) : Prop :=
  (action.any PendingAction.storageUnavailable = true) ∨
    (∃ a ∈ action, call.expectedPinAction = none ∨ a.action.targetConnectionId ≠ some call.connection.id) ∨
    ∃ expected ∈ call.expectedPinAction, action.map (fun a => a.action.id) ≠ some expected

instance (call : OperatorPin) (action : Option PendingAction) : Decidable (call.mustWait action) :=
  inferInstanceAs (Decidable (_ ∨ _ ∨ _))

/-- What a request that names its account is told; `none` is `{ mustWait: true }`. -/
abbrev OperatorPinned := Option (String × Option SwitchRow)

/-- `persistOperatorPin({ sessionHash, model, connection, … })`, in its transaction. -/
def persistOperatorPin [Collation] (windowsJson : Account → String) (digests : Digests)
    (call : OperatorPin) (faults : Faults)
    (db : SchedulerDb) : Except String (SchedulerDb × OperatorPinned) := do
  throwing faults.getPendingPinAction
  let (db, action) := db.getPendingPinAction digests.binding call.now call.sessionHash call.model
  if call.mustWait action then return (db, none)
  else if action.isSome ∧ (planAccountSelection [call.connection] none none call.model call.now).preferred.isEmpty then
    return (db, none)
  else
    throwing faults.getPin
    let previousPinId := (db.getPin call.now call.sessionHash call.model).map Pin.connectionId
    if previousPinId = some call.connection.id then
      throwing faults.touchPin
      return (db.touchPin call.now call.sessionHash call.model, some ("pinned", none))
    else
      throwing faults.setPin
      let db := db.setPin call.now call.sessionHash call.model call.connection.id
      let receipt := call.receipt windowsJson previousPinId (action.map PendingAction.action)
      throwing faults.recordSwitch
      let db := db.recordSwitch receipt
      match action with
      | some a =>
        throwing faults.completePinAction
        return (db.completePinAction call.now a.action, some (receipt.trigger, some receipt))
      | none => return (db, some (receipt.trigger, some receipt))

/-! ## What other requests do to the pins -/

/-- The options of `setPin` of `sessionAffinityRepo.js`. -/
structure SetPinOptions where
  providerNode : Option String := none
  expiresAt : Option Int := none
  pinnedAt : Option Int := none

/-- The writers of `sessionAffinityRepo.js`. -/
inductive PinWrite
  | setPin (sessionHash model connectionId : String) (opts : SetPinOptions) (now : Int)
  | clearPin (sessionHash model : String)
  | clearPinsForConnection (connectionId : String)
  | touchPin (sessionHash model : String) (now : Int)
  | sweepExpired (now : Int)

def SchedulerDb.writePins (db : SchedulerDb) : PinWrite → SchedulerDb
  | .setPin sessionHash model connectionId opts now =>
    if sessionHash = "" ∨ model = "" ∨ connectionId = "" then db
    else
      let row : PinRow :=
        { sessionHash, model, connectionId
          providerNode := opts.providerNode
          pinnedAt := opts.pinnedAt.getD now
          expiresAt := opts.expiresAt
          operatorExpiresAt := none
          lastSeenAt := now }
      { db with pins := db.pins.put row }
  | .clearPin sessionHash model =>
    if sessionHash = "" ∨ model = "" then db else { db with pins := db.pins.erase (sessionHash, model) }
  | .clearPinsForConnection connectionId =>
    if connectionId = "" then db else { db with pins := db.pins.filter fun r => r.connectionId ≠ connectionId }
  | .touchPin sessionHash model now =>
    if sessionHash = "" ∨ model = "" then db
    else
      match db.pinRow sessionHash model with
      | some row => { db with pins := db.pins.put { row with lastSeenAt := now } }
      | none => db
  | .sweepExpired now => { db with pins := db.pins.filter fun r => !r.expired now }

/-! ## Everyone's steps -/

/-- One transaction of anyone. A command, or a request, may fail at any of
its calls and at its commit. -/
inductive PinEvent
  | preview (body : PinRequest) (random : String) (now : Int) (commit : Option PinControlError)
  | apply (id expectedRevision : String) (now : Int) (commit : Option PinControlError)
  | select (leases : Admission.LeaseSystem) (input : Input Account) (faults : Faults)
  | pending (sessionHash model : String) (now : Int) (commit : Option String)
  | operatorPin (call : OperatorPin) (faults : Faults)
  | write (op : PinWrite)
  /-- The process opens the store with another driver. -/
  | driver (sqljs : Bool)

def pinStep [Collation] (windowsJson : Account → String) (digests : Digests)
    (db : SchedulerDb) : PinEvent → SchedulerDb
  | .preview body random now commit => (transaction (previewSessionPin digests body random now) commit db).1
  | .apply id expectedRevision now commit => (transaction (applySessionPin digests id expectedRevision now) commit db).1
  | .select leases input faults => (selectAndReserve (schedulerPolicy windowsJson digests.binding) leases db input faults).db
  | .pending sessionHash model now commit =>
    (transaction (fun db => .ok (db.getPendingPinAction digests.binding now sessionHash model)) commit db).1
  | .operatorPin call faults =>
    if call.sessionHash = "" ∨ call.model = "" ∨ call.connection.id = "" then db
    else (transaction (persistOperatorPin windowsJson digests call faults) faults.commit db).1
  | .write op => db.writePins op
  | .driver sqljs => { db with sqljs }

end TokenProxy.Scheduler
