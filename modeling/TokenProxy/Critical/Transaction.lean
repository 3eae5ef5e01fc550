import Mathlib.Logic.Function.Basic
import TokenProxy.Critical.Journal

/-!
# Critical transactions

`criticalTransaction` runs `BEGIN IMMEDIATE`, `prepare`, the callback, `mark`, `COMMIT` and
`acknowledge`. Any of them may throw, and the process may die between any two of them: the open
transaction is then lost, what the journal and the database hold is not.

A step below is one of these parts of one process's transaction, the death of a process, a recovery,
an ordinary write, or the restoration of the database file from an earlier version. The file is
restored while no process has it open.
-/

namespace TokenProxy.Critical

open TokenProxy.Lib

inductive Phase where
  | idle
  /-- the intent is published, the callback is next -/
  | prepared (intent : Intent)
  | called (intent : Intent) (changes : Nat)
  | marked (intent : Intent) (marker : Marker)
  | committed (intent : Intent) (marker : Marker)
  /-- a rollback failed: the transaction stays open until the process ends -/
  | stuck
  deriving DecidableEq

structure State (β : Type) where
  db : Database β
  /-- every version of the database that was durable -/
  versions : List (Database β)
  journal : Journal
  /-- the open write transaction, its process and what it sees -/
  tx : Option (Nat × Database β)
  phase : Nat → Phase

/-- How a transaction that threw ends: whether its rollback works, and the evidence it leaves. -/
structure Abort where
  rollback : Bool
  now : Nat
  failure : PublishFault

inductive CommitOutcome where
  | done
  /-- `COMMIT` throws and the transaction is still open -/
  | refused (abort : Abort)
  /-- `COMMIT` throws and the transaction is not open: it may have landed -/
  | unknown (landed : Bool) (now : Nat) (failure : PublishFault)

inductive AckOutcome where
  /-- the receipt is published, or its publication fails -/
  | publish (fault : PublishFault)
  /-- the synchronous mode could not be restored -/
  | restoreFailed

inductive Event (β : Type) where
  | prepare (p : Nat) (input : PrepareInput) (abort : Abort)
  /-- the callback leaves these rows and number of changes, or throws -/
  | callback (p : Nat) (outcome : Option (β × Nat)) (abort : Abort)
  | mark (p : Nat) (fault : Bool) (abort : Abort)
  | commit (p : Nat) (outcome : CommitOutcome)
  | acknowledge (p : Nat) (now : Nat) (outcome : AckOutcome) (failure : PublishFault)
  | crash (p : Nat)
  | recover (transactionId now : Nat) (fault : PublishFault)
  | write (rows : β)
  | restore (version : Nat)

variable {β : Type} (criticalAckDigest : Document → String)

namespace State

def setPhase (st : State β) (p : Nat) (phase : Phase) : State β :=
  { st with phase := Function.update st.phase p phase }

/-- A transaction that threw: rolled back, or stuck if that fails too. -/
def abort (st : State β) (p : Nat) (intent : Option Intent) (a : Abort) : State β :=
  let journal := match intent with
    | some intent =>
      failed criticalAckDigest st.journal intent (if a.rollback then .rolledBack else .uncertain) a.now a.failure
    | none => st.journal
  if a.rollback then { st with journal, tx := none }.setPhase p .idle
  else { st with journal }.setPhase p .stuck

def land (st : State β) (db : Database β) : State β :=
  { st with db, versions := st.versions ++ [db], tx := none }

def prepare (st : State β) (p : Nat) (input : PrepareInput) (a : Abort) : State β :=
  match st.phase p, st.tx with
  | .idle, none =>
    match Critical.prepare criticalAckDigest input st.journal st.db with
    | (journal, .error _) => { st with journal, tx := some (p, st.db) }.abort criticalAckDigest p none a
    | (journal, .ok (db, intent)) => { st with journal, tx := some (p, db) }.setPhase p (.prepared intent)
  | _, _ => st

def callback (st : State β) (p : Nat) (outcome : Option (β × Nat)) (a : Abort) : State β :=
  match st.phase p, st.tx with
  | .prepared intent, some (_, db) =>
    match outcome with
    | none => st.abort criticalAckDigest p (some intent) a
    | some (rows, changes) => { st with tx := some (p, { db with rows }) }.setPhase p (.called intent changes)
  | _, _ => st

def mark (st : State β) (p : Nat) (fault : Bool) (a : Abort) : State β :=
  match st.phase p, st.tx with
  | .called intent changes, some (_, db) =>
    match Critical.mark criticalAckDigest db intent changes, fault with
    | .ok (db, marker), false => { st with tx := some (p, db) }.setPhase p (.marked intent marker)
    | _, _ => st.abort criticalAckDigest p (some intent) a
  | _, _ => st

def commit (st : State β) (p : Nat) (outcome : CommitOutcome) : State β :=
  match st.phase p, st.tx with
  | .marked intent marker, some (_, db) =>
    match outcome with
    | .done => (st.land db).setPhase p (.committed intent marker)
    | .refused a => st.abort criticalAckDigest p (some intent) a
    | .unknown landed now failure =>
      let st := if landed then st.land db else { st with tx := none }
      { st with journal := failed criticalAckDigest st.journal intent .uncertain now failure }.setPhase p .idle
  | _, _ => st

def acknowledge (st : State β) (p : Nat) (now : Nat) (outcome : AckOutcome)
    (failure : PublishFault) : State β :=
  match st.phase p with
  | .committed intent marker =>
    match outcome with
    | .restoreFailed =>
      { st with journal := failed criticalAckDigest st.journal intent .committed now failure }.setPhase p .idle
    | .publish fault =>
      match Critical.acknowledge criticalAckDigest st.journal marker now fault with
      | (journal, .ok ()) => { st with journal }.setPhase p .idle
      | (journal, .error _) =>
        { st with journal := failed criticalAckDigest journal intent .committed now failure }.setPhase p .idle
  | _ => st

def crash (st : State β) (p : Nat) : State β :=
  match st.tx with
  | some (q, db) => { st with tx := if q = p then none else some (q, db) }.setPhase p .idle
  | none => st.setPhase p .idle

def recover (st : State β) (transactionId now : Nat) (fault : PublishFault) : State β :=
  { st with journal := (recoverCriticalAcknowledgment criticalAckDigest st.journal st.db transactionId now fault).1 }

def write (st : State β) (rows : β) : State β :=
  match st.tx with
  | none => st.land { st.db with rows }
  | some _ => st

def restore (st : State β) (version : Nat) : State β :=
  match st.versions[version]? with
  | some db => { st with db, tx := none, phase := fun _ => .idle }
  | none => st

end State

def step (st : State β) : Event β → State β
  | .prepare p input a => st.prepare criticalAckDigest p input a
  | .callback p outcome a => st.callback criticalAckDigest p outcome a
  | .mark p fault a => st.mark criticalAckDigest p fault a
  | .commit p outcome => st.commit criticalAckDigest p outcome
  | .acknowledge p now outcome failure => st.acknowledge criticalAckDigest p now outcome failure
  | .crash p => st.crash p
  | .recover transactionId now fault => st.recover criticalAckDigest transactionId now fault
  | .write rows => st.write rows
  | .restore version => st.restore version

def newState (rows : β) : State β :=
  let db : Database β := { rows, state := none, markers := [] }
  { db, versions := [db], journal := ⟨none, .empty, .empty, .empty⟩, tx := none, phase := fun _ => .idle }

end TokenProxy.Critical
