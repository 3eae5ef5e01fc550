import TokenProxy.Critical.Journal
import TokenProxy.Lib.Attempt

/-!
# The transaction controller

`criticalTransaction` on one connection, with everything that may fail in it: the reads and writes
of the synchronous mode, `BEGIN`, the journal, the callback, `COMMIT`, `ROLLBACK`. The program is
the source's: a block that may throw, a handler that rolls back, a `finally` that restores the mode,
and the receipt.

* SQLite: a `COMMIT` that throws may have left the transaction open, made it durable or dropped it;
  `ROLLBACK` without an open transaction throws. A failing statement may roll the whole transaction
  back (`Body.abandon`); what follows it is not part of a transaction.
* A callback writes rows and calls the controller again, through the same connection. It does not
  send transaction statements of its own.

`log` records what happened, for the statements of the theorems; no function reads it.
-/

namespace TokenProxy.Critical

open TokenProxy.Lib

/-- The errors of `criticalError` and `criticalAckFailure`. -/
structure CriticalError where
  code : String
  commitState : Option CommitState
  /-- `acknowledgmentState: 'unknown'` -/
  unacknowledged : Bool
  deriving DecidableEq

/-- What is thrown: an error of the controller, or a value of the engine,
the journal or the callback. -/
inductive Thrown where
  | thrown (truthy : Bool)
  | critical (error : CriticalError)
  deriving DecidableEq

/-- `Boolean(failure)` -/
def Thrown.truthy : Thrown → Bool
  | .thrown truthy => truthy
  | .critical _ => true

/-- `failure.acknowledgmentState === 'unknown'` -/
def Thrown.unacknowledged : Thrown → Bool
  | .thrown _ => false
  | .critical e => e.unacknowledged

def criticalError (code : String) (commitState : Option CommitState) : Thrown :=
  .critical { code, commitState, unacknowledged := false }

def criticalAckFailure (commitState : CommitState) : Thrown :=
  .critical { code := "CRITICAL_TRANSACTION_ACK_UNCONFIRMED", commitState := some commitState, unacknowledged := true }

inductive Mark where
  | enter
  | committed
  | rolledBack
  | acknowledged (marker : Marker)
  | leave
  deriving DecidableEq

structure Controller (β : Type) where
  db : Database β
  /-- what the open transaction sees -/
  tx : Option (Database β)
  /-- `total_changes()` -/
  changes : Nat
  journal : Journal
  /-- `PRAGMA synchronous` -/
  mode : Nat
  criticalActive : Bool
  transactionDepth : Nat
  log : List Mark

/-- `PRAGMA synchronous = n`: set, ignored, or an error before or after it took effect. -/
inductive PragmaFault where
  | none
  | ignored
  | threw (applied : Bool)
  deriving DecidableEq

inductive CommitFault where
  | none
  | refused
  | landed
  | lost
  deriving DecidableEq

inductive RollbackFault where
  | none
  | refused
  | lost
  deriving DecidableEq

/-- Everything the environment decides in one call of `criticalTransaction`. -/
structure Faults where
  /-- the callback is an async function -/
  asyncFunction : Bool
  /-- the synchronous mode cannot be read, before the transaction, in it, after it -/
  readMode : Bool
  verifyMode : Bool
  rereadMode : Bool
  raise : PragmaFault
  restore : PragmaFault
  beginImmediate : Bool
  prepare : PrepareInput
  /-- the two statements of `mark` -/
  insertMarker : Bool
  advanceState : Bool
  commit : CommitFault
  rollback : RollbackFault
  now : Nat
  acknowledge : PublishFault
  failed : PublishFault

/-- A callback, up to its return. Its own calls of the controller throw out
of it unless it catches them. -/
inductive Body (β : Type) where
  | ret (result : Nat) (thenable : Bool)
  | raise (truthy : Bool)
  | write (rows : β → β) (changes : Nat) (next : Body β)
  /-- a statement fails and rolls the transaction back, and the callback goes on -/
  | abandon (next : Body β)
  | transaction (inner : Body β) (commit : Bool) (caught : Bool) (next : Body β)
  | critical (inner : Body β) (faults : Faults) (caught : Bool) (next : Body β)

variable {β : Type} (criticalAckDigest : Document → String)

namespace Controller

def view (c : Controller β) : Database β := c.tx.getD c.db

def put (c : Controller β) (db : Database β) : Controller β :=
  match c.tx with
  | some _ => { c with tx := some db }
  | none => { c with db }

def note (c : Controller β) (m : Mark) : Controller β := { c with log := c.log ++ [m] }

/-- `transaction(run)` of an adapter: a savepoint of an open transaction,
or a transaction of its own. -/
def transaction {α : Type} (commit : Bool) (run : Controller β → Controller β × Except Thrown α)
    (c : Controller β) :
    Controller β × Except Thrown α :=
  if c.criticalActive then (c, .error (criticalError "CRITICAL_TRANSACTION_NESTED" none))
  else
    match run { c with transactionDepth := c.transactionDepth + 1, tx := some c.view } with
    | (c', .error e) => ({ c' with transactionDepth := c.transactionDepth, tx := c.tx }, .error e)
    | (c', .ok a) =>
      if commit then ({ c' with transactionDepth := c.transactionDepth, tx := c.tx }, .error (.thrown true))
      else
        match c.tx with
        | some _ => ({ c' with transactionDepth := c.transactionDepth }, .ok a)
        | none => ({ c' with transactionDepth := c.transactionDepth, tx := none, db := c'.view }, .ok a)

end Controller

/-- The local variable `commitState`: `open`, or a state that is reported. -/
inductive Status where
  | open_
  | ended (commitState : CommitState)
  deriving DecidableEq

/-- What `prepare` returns and `mark` completes. -/
structure Acknowledgment where
  intent : Intent
  changesBefore : Nat
  marker : Option Marker
  deriving DecidableEq

/-- A call of `criticalTransaction`: the controller and the local variables. -/
structure Call (β : Type) where
  controller : Controller β
  previousMode : Nat
  modeChanged : Bool
  transactionOpen : Bool
  status : Status
  acknowledgment : Option Acknowledgment

def FULL_SYNCHRONOUS : Nat := 2

namespace Call

/-- `PRAGMA synchronous = mode`, as far as it takes effect. -/
def setMode (s : Call β) (mode : Nat) : PragmaFault → Call β × Except Thrown Unit
  | .none => ({ s with controller := { s.controller with mode } }, .ok ())
  | .ignored => (s, .ok ())
  | .threw true => ({ s with controller := { s.controller with mode } }, .error (.thrown true))
  | .threw false => (s, .error (.thrown true))

/-- `synchronousMode(readSynchronous)` -/
def readMode (s : Call β) (fault : Bool) : Except Thrown Nat :=
  if fault ∨ 3 < s.controller.mode then .error (criticalError "CRITICAL_TRANSACTION_SYNC_UNVERIFIED" none)
  else .ok s.controller.mode

def requiredMode (s : Call β) : Nat := max s.previousMode FULL_SYNCHRONOUS

def raiseMode (faults : Faults) : Attempt (Call β) Thrown Unit := fun s =>
  if s.requiredMode = s.previousMode then (s, .ok ())
  else
    match s.setMode s.requiredMode faults.raise with
    | (s, .ok ()) => ({ s with modeChanged := true }, .ok ())
    | (s, .error e) => (s, .error e)

def verifyMode (faults : Faults) : Attempt (Call β) Thrown Unit := fun s =>
  match s.readMode faults.verifyMode with
  | .error e => (s, .error e)
  | .ok mode =>
    (s, if mode = s.requiredMode then .ok () else .error (criticalError "CRITICAL_TRANSACTION_SYNC_UNVERIFIED" none))

def beginImmediate (faults : Faults) : Attempt (Call β) Thrown Unit := fun s =>
  if faults.beginImmediate ∨ s.controller.tx.isSome then (s, .error (.thrown true))
  else
    ({ s with
        controller := { s.controller with tx := some s.controller.db }
        transactionOpen := true
        status := .open_ }, .ok ())

def prepare (faults : Faults) : Attempt (Call β) Thrown Unit := fun s =>
  match Critical.prepare criticalAckDigest faults.prepare s.controller.journal s.controller.view with
  | (journal, .error _) => ({ s with controller := { s.controller with journal } }, .error (.thrown true))
  | (journal, .ok (db, intent)) =>
    ({ s with
        controller := { s.controller.put db with journal }
        acknowledgment := some { intent, changesBefore := s.controller.changes, marker := none } }, .ok ())

def callback (body : Controller β → Controller β × Except Thrown (Nat × Bool)) : Attempt (Call β) Thrown (Nat × Bool) :=
  fun s =>
  match body s.controller with
  | (controller, r) => ({ s with controller }, r)

def refuseThenable (thenable : Bool) : Attempt (Call β) Thrown Unit := fun s =>
  (s, if thenable then .error (criticalError "CRITICAL_TRANSACTION_ASYNC" none) else .ok ())

/-- `mark`: its statements, each of which may throw. -/
def mark (faults : Faults) : Attempt (Call β) Thrown Unit := fun s =>
  match s.acknowledgment with
  | none => (s, .error (.thrown true))
  | some ack =>
    let marker := ack.intent.toMarker criticalAckDigest (s.controller.changes - ack.changesBefore)
    match assertCriticalAckMarker criticalAckDigest marker, insertMarker s.controller.view marker, faults.insertMarker with
    | .ok (), .ok db, false =>
      let s := { s with controller := s.controller.put db }
      match advanceState s.controller.view marker, faults.advanceState with
      | .ok db, false =>
        ({ s with
            controller := s.controller.put db
            acknowledgment := some { ack with marker := some marker } }, .ok ())
      | _, _ => (s, .error (.thrown true))
    | _, _, _ => (s, .error (.thrown true))

/-- `COMMIT` -/
def commit (faults : Faults) : Attempt (Call β) Thrown Unit := fun s =>
  match s.controller.tx, faults.commit with
  | none, _ => (s, .error (.thrown true))
  | some db, .none =>
    ({ s with
        controller := { s.controller with db, tx := none }.note .committed
        transactionOpen := false
        status := .ended .committed }, .ok ())
  | some _, .refused => (s, .error (.thrown true))
  | some db, .landed => ({ s with controller := { s.controller with db, tx := none } }, .error (.thrown true))
  | some _, .lost => ({ s with controller := { s.controller with tx := none } }, .error (.thrown true))

/-- The `try` block. -/
def attempt (faults : Faults) (body : Controller β → Controller β × Except Thrown (Nat × Bool)) :
    Attempt (Call β) Thrown Nat := do
  raiseMode faults
  verifyMode faults
  beginImmediate faults
  prepare criticalAckDigest faults
  let (result, thenable) ← callback body
  refuseThenable thenable
  mark criticalAckDigest faults
  commit faults
  pure result

/-- `ROLLBACK` -/
def rollback (s : Call β) (fault : RollbackFault) : Call β × Bool :=
  match s.controller.tx, fault with
  | none, _ => (s, false)
  | some _, .none => ({ s with controller := { s.controller with tx := none }.note .rolledBack }, true)
  | some _, .refused => (s, false)
  | some _, .lost => ({ s with controller := { s.controller with tx := none } }, false)

/-- The `catch` block: the failure and the state to report. -/
def handle (isInTransaction : Bool) (faults : Faults) (error : Thrown)
    (s : Call β) : Call β × Thrown × CommitState :=
  if s.transactionOpen ∨ (isInTransaction ∧ s.controller.tx.isSome) then
    match s.rollback faults.rollback with
    | (s, true) => ({ s with transactionOpen := false }, error, .rolledBack)
    | (s, false) => (s, criticalError "CRITICAL_TRANSACTION_ROLLBACK_FAILED" (some .uncertain), .uncertain)
  else
    match s.status with
    | .open_ => (s, criticalError "CRITICAL_TRANSACTION_COMMIT_UNCERTAIN" (some .uncertain), .uncertain)
    | .ended commitState => (s, error, commitState)

/-- The `finally` block: a failed restoration is the failure if there is none before it. -/
def restoreMode (faults : Faults) (commitState : CommitState) (failure : Option Thrown)
    (s : Call β) :
    Call β × Option Thrown :=
  if s.modeChanged then
    let restored : Call β × Bool :=
      match s.setMode s.previousMode faults.restore with
      | (s, .error _) => (s, false)
      | (s, .ok ()) => (s, s.readMode faults.rereadMode = .ok s.previousMode)
    match restored with
    | (s, true) => (s, failure)
    | (s, false) =>
      (s, if failure.any Thrown.truthy then failure
        else some (criticalError "CRITICAL_TRANSACTION_RESTORE_FAILED" (some commitState)))
  else (s, failure)

/-- `acknowledgments.acknowledge(acknowledgment)` -/
def acknowledge (faults : Faults) (s : Call β) : Call β × Except Thrown Unit :=
  match s.acknowledgment with
  | some { marker := some marker, .. } =>
    match Critical.acknowledge criticalAckDigest s.controller.journal marker faults.now faults.acknowledge with
    | (journal, .ok ()) => ({ s with controller := { s.controller with journal }.note (.acknowledged marker) }, .ok ())
    | (journal, .error _) => ({ s with controller := { s.controller with journal } }, .error (.thrown true))
  | _ => (s, .error (.thrown true))

/-- `acknowledgments.failed(acknowledgment, commitState)` -/
def failed (faults : Faults) (commitState : CommitState) (s : Call β) : Call β :=
  match s.acknowledgment with
  | none => s
  | some ack =>
    { s with controller := { s.controller with
        journal := Critical.failed criticalAckDigest s.controller.journal ack.intent commitState faults.now faults.failed } }

def report (commitState : CommitState) (failure : Thrown) : Thrown :=
  if (commitState = .committed ∨ commitState = .uncertain) ∧ failure.unacknowledged = false then
    criticalAckFailure commitState
  else failure

def conclude (faults : Faults) (commitState : CommitState) (result : Nat) (failure : Option Thrown)
    (s : Call β) :
    Call β × Except Thrown Nat :=
  let acknowledged : Call β × Option Thrown :=
    match failure.filter Thrown.truthy with
    | some failure => (s, some failure)
    | none =>
      match s.acknowledge criticalAckDigest faults with
      | (s, .ok ()) => (s, none)
      | (s, .error _) => (s, some (criticalAckFailure commitState))
  match acknowledged with
  | (s, none) => (s, .ok result)
  | (s, some failure) => (s.failed criticalAckDigest faults commitState, .error (report commitState failure))

end Call

def refuseCall (isInTransaction : Bool) (faults : Faults) (c : Controller β) : Option Thrown :=
  if faults.asyncFunction then some (criticalError "CRITICAL_TRANSACTION_ASYNC" none)
  else if c.criticalActive ∨ 0 < c.transactionDepth ∨ (isInTransaction ∧ c.tx.isSome) then
    some (criticalError "CRITICAL_TRANSACTION_NESTED" none)
  else if faults.readMode ∨ 3 < c.mode then some (criticalError "CRITICAL_TRANSACTION_SYNC_UNVERIFIED" none)
  else none

/-- The local variables of a call, and `criticalActive = true`. -/
def Controller.enter (c : Controller β) : Call β where
  controller := { c with criticalActive := true }.note .enter
  previousMode := c.mode
  modeChanged := false
  transactionOpen := false
  status := .ended .notStarted
  acknowledgment := none

/-- `criticalActive = false` -/
def Controller.leave (c : Controller β) : Controller β := { c with criticalActive := false }.note .leave

/-- `criticalTransaction(fn)` -/
def criticalTransaction (isInTransaction : Bool) (faults : Faults)
    (body : Controller β → Controller β × Except Thrown (Nat × Bool)) (c : Controller β) :
    Controller β × Except Thrown Nat :=
  match refuseCall isInTransaction faults c with
  | some e => (c, .error e)
  | none =>
    let handled : Call β × Nat × Option Thrown × CommitState :=
      match Call.attempt criticalAckDigest faults body c.enter with
      | (s, .ok result) => (s, result, none, .committed)
      | (s, .error error) =>
        match s.handle isInTransaction faults error with
        | (s, failure, commitState) => (s, 0, some failure, commitState)
    match handled with
    | (s, result, failure, commitState) =>
      match s.restoreMode faults commitState failure with
      | (s, failure) =>
        match s.conclude criticalAckDigest faults commitState result failure with
        | (s, r) => (s.controller.leave, r)

/-- A callback after a call of the controller: it goes on, unless the call
threw and it does not catch. -/
def resume {α γ : Type} (caught : Bool) (next : Controller β → Controller β × Except Thrown γ) :
    Controller β × Except Thrown α → Controller β × Except Thrown γ
  | (c, .ok _) => next c
  | (c, .error e) => if caught then next c else (c, .error e)

/-- The callback: its statements, and its calls of the controller. -/
def runBody (isInTransaction : Bool) : Body β → Controller β → Controller β × Except Thrown (Nat × Bool)
  | .ret result thenable, c => (c, .ok (result, thenable))
  | .raise truthy, c => (c, .error (.thrown truthy))
  | .write rows changes next, c =>
    runBody isInTransaction next
      { c.put { c.view with rows := rows c.view.rows } with changes := c.changes + changes }
  | .abandon next, c => runBody isInTransaction next { c with tx := none }
  | .transaction inner commit caught next, c =>
    resume caught (runBody isInTransaction next) (c.transaction commit (runBody isInTransaction inner))
  | .critical inner faults caught next, c =>
    resume caught (runBody isInTransaction next)
      (criticalTransaction criticalAckDigest isInTransaction faults (runBody isInTransaction inner) c)

end TokenProxy.Critical
