import TokenProxy.Lib.Table

/-!
# The critical acknowledgment journal

A critical transaction leaves evidence in two stores. The database gets a marker, in the transaction
of the mutation itself, and the directory `<database>.critical-acks` gets an intent before the
callback and a receipt after the commit. Receipts are never overwritten; each file appears whole.

* `prepare`, `mark`, `acknowledge`, `failed` are what a transaction calls, in this order;
* `recoverCriticalAcknowledgment` publishes a receipt that is missing.

The hash of a document is a parameter. Every call to the file system may fail before or after it
took effect.
-/

namespace TokenProxy.Critical

open TokenProxy.Lib

/-- Who runs a transaction: `processIdentity`, the driver and the build. -/
structure Process where
  processInstanceId : String
  pid : Nat
  driver : String
  buildSha : Option String
  deriving DecidableEq

structure IntentBody where
  epoch : Nat
  sequence : Nat
  transactionId : Nat
  process : Process
  recordedAt : Nat
  previousMarkerSha256 : String
  deriving DecidableEq

structure Intent extends IntentBody where
  intentSha256 : String
  deriving DecidableEq

structure MarkerBody extends Intent where
  mutationChanges : Nat
  deriving DecidableEq

structure Marker extends MarkerBody where
  markerSha256 : String
  deriving DecidableEq

structure ReceiptBody where
  marker : Marker
  ackEligibleAt : Nat
  deriving DecidableEq

structure Receipt extends ReceiptBody where
  receiptSha256 : String
  deriving DecidableEq

inductive CommitState where
  | notStarted
  | rolledBack
  | uncertain
  | committed
  deriving DecidableEq

structure FailureBody where
  epoch : Nat
  transactionId : Nat
  intentSha256 : String
  commitState : CommitState
  recordedAt : Nat
  deriving DecidableEq

structure Failure extends FailureBody where
  failureSha256 : String
  deriving DecidableEq

structure Header where
  epoch : Nat
  deriving DecidableEq

inductive Document where
  | header (h : Header)
  | intentBody (i : IntentBody)
  | intent (i : Intent)
  | markerBody (m : MarkerBody)
  | receiptBody (r : ReceiptBody)
  | receipt (r : Receipt)
  | failureBody (f : FailureBody)
  | failure (f : Failure)
  deriving DecidableEq

/-- `criticalAckState` -/
structure AckState where
  epoch : Nat
  sequence : Nat
  lastMarkerSha256 : String
  deriving DecidableEq

/-- The database: what the callbacks write, and the two tables of the journal. -/
structure Database (β : Type) where
  rows : β
  state : Option AckState
  markers : List Marker
  deriving DecidableEq

/-- The directory: a receipt is found by its sequence, an intent and a
failure by their transaction. -/
structure Journal where
  header : Option Header
  receipts : Table (fun r : Receipt => r.marker.sequence)
  intents : Table (fun i : Intent => i.transactionId)
  failures : Table (fun f : Failure => f.transactionId)

inductive AckError where
  /-- `Critical acknowledgment journal <message>` -/
  | invalid (message : String)
  | io
  | constraint
  deriving DecidableEq

/-- Where a publication fails: not at all, before or after its file appears. -/
inductive PublishFault where
  | none
  | unpublished
  | published
  deriving DecidableEq

def ZERO_HASH : String := "".pushn '0' 64

def MAX_SAFE_INTEGER : Nat := 2 ^ 53 - 1

variable {β : Type} (criticalAckDigest : Document → String)

/-- `publish`: what its file holds afterwards. -/
def publish {ρ : Type} (document : ρ → Document) (existing : Option ρ) (record : ρ) :
    PublishFault → Option ρ × Except AckError Unit
  | fault =>
    match existing with
    | some old =>
      if criticalAckDigest (document old) ≠ criticalAckDigest (document record) then
        (some old, .error (.invalid "refuses conflicting receipt"))
      else if fault = .none then (some old, .ok ())
      else (some old, .error .io)
    | none =>
      match fault with
      | .none => (some record, .ok ())
      | .unpublished => (none, .error .io)
      | .published => (some record, .error .io)

/-- `publish` to the file of the record's key. -/
def publishRow {ρ κ : Type} [DecidableEq κ] {key : ρ → κ} (document : ρ → Document)
    (files : Table key) (record : ρ) (fault : PublishFault) : Table key × Except AckError Unit :=
  match files.get? (key record), publish criticalAckDigest document (files.get? (key record)) record fault with
  | none, (some file, r) => (files.put file, r)
  | _, (_, r) => (files, r)

def assertCriticalAckMarker (marker : Marker) : Except AckError Unit :=
  if marker.sequence < 1 then .error (.invalid "marker shape mismatch")
  else if marker.markerSha256 ≠ criticalAckDigest (.markerBody marker.toMarkerBody) then
    .error (.invalid "digest mismatch")
  else .ok ()

def assertCriticalAckReceipt (receipt : Receipt) : Except AckError Unit := do
  assertCriticalAckMarker criticalAckDigest receipt.marker
  if receipt.receiptSha256 ≠ criticalAckDigest (.receiptBody receipt.toReceiptBody) then
    throw (.invalid "digest mismatch")

def assertIntent (intent : Intent) : Except AckError Unit :=
  if intent.sequence < 1 then .error (.invalid "marker shape mismatch")
  else if intent.intentSha256 ≠ criticalAckDigest (.intentBody intent.toIntentBody) then
    .error (.invalid "digest mismatch")
  else .ok ()

/-- What a transaction brings to `prepare`, and what fails in it. -/
structure PrepareInput where
  process : Process
  epoch : Nat
  transactionId : Nat
  recordedAt : Nat
  /-- the directory, the schema or a first read -/
  opening : Bool
  header : PublishFault
  /-- the row of the new epoch -/
  insertion : Bool
  intent : PublishFault

/-- The first part of `prepare`: the epoch of the database, a new one if it has none. -/
def openEpoch (input : PrepareInput) (journal : Journal) (db : Database β) :
    Journal × Except AckError (Database β × AckState) :=
  if input.opening then (journal, .error .io)
  else
    match db.state with
    | some state => (journal, .ok (db, state))
    | none =>
      if journal.receipts.rows ≠ [] then (journal, .error (.invalid "database history is missing"))
      else
        let header := journal.header.getD ⟨input.epoch⟩
        match publish criticalAckDigest .header journal.header header input.header with
        | (file, .error e) => ({ journal with header := file }, .error e)
        | (file, .ok ()) =>
          let state := { epoch := header.epoch, sequence := 0, lastMarkerSha256 := ZERO_HASH }
          ({ journal with header := file },
            if input.insertion then .error .io else .ok ({ db with state := some state }, state))

/-- The second part of `prepare`: the header and the last marker agree with the state. -/
def checkHead (journal : Journal) (db : Database β) (state : AckState) : Except AckError Unit :=
  match journal.header with
  | none => .error (.invalid "database epoch mismatch")
  | some header =>
    if header.epoch ≠ state.epoch then .error (.invalid "database epoch mismatch")
    else if state.sequence = 0 then .ok ()
    else
      match db.markers.find? fun m => m.sequence = state.sequence with
      | none => .error (.invalid "marker shape mismatch")
      | some previous =>
        match assertCriticalAckMarker criticalAckDigest previous with
        | .error e => .error e
        | .ok () =>
          if previous.markerSha256 ≠ state.lastMarkerSha256 ∨ previous.epoch ≠ state.epoch then
            .error (.invalid "database chain mismatch")
          else .ok ()

/-- The intent of the transaction that follows `state`. -/
def PrepareInput.toIntent (input : PrepareInput) (state : AckState) : Intent :=
  let body : IntentBody :=
    { epoch := state.epoch, sequence := state.sequence + 1, transactionId := input.transactionId,
      process := input.process, recordedAt := input.recordedAt, previousMarkerSha256 := state.lastMarkerSha256 }
  { body with intentSha256 := criticalAckDigest (.intentBody body) }

/-- `prepare`, inside the transaction that sees `db`. -/
def prepare (input : PrepareInput) (journal : Journal) (db : Database β) :
    Journal × Except AckError (Database β × Intent) :=
  match openEpoch criticalAckDigest input journal db with
  | (journal, .error e) => (journal, .error e)
  | (journal, .ok (db, state)) =>
    match checkHead criticalAckDigest journal db state with
    | .error e => (journal, .error e)
    | .ok () =>
      if MAX_SAFE_INTEGER < state.sequence + 1 ∨ (journal.receipts.get? (state.sequence + 1)).isSome then
        (journal, .error (.invalid "sequence has already been acknowledged"))
      else
        let intent := input.toIntent criticalAckDigest state
        match publishRow criticalAckDigest .intent journal.intents intent input.intent with
        | (intents, .error e) => ({ journal with intents := intents }, .error e)
        | (intents, .ok ()) => ({ journal with intents := intents }, .ok (db, intent))

/-- `INSERT INTO criticalAckMarkers`: sequence, transaction and hash are unique. -/
def insertMarker (db : Database β) (marker : Marker) : Except AckError (Database β) :=
  if db.markers.any fun m => m.sequence = marker.sequence ∨ m.transactionId = marker.transactionId ∨
      m.markerSha256 = marker.markerSha256 then .error .constraint
  else .ok { db with markers := db.markers ++ [marker] }

/-- `UPDATE criticalAckState … WHERE …`: the state must be the one the marker follows. -/
def advanceState (db : Database β) (marker : Marker) : Except AckError (Database β) :=
  match db.state with
  | none => .error (.invalid "database sequence changed")
  | some state =>
    if state.epoch = marker.epoch ∧ state.sequence = marker.sequence - 1 ∧
        state.lastMarkerSha256 = marker.previousMarkerSha256 then
      .ok { db with state := some { state with sequence := marker.sequence, lastMarkerSha256 := marker.markerSha256 } }
    else .error (.invalid "database sequence changed")

/-- The marker of an intent whose callback made `changes` changes. -/
def Intent.toMarker (intent : Intent) (changes : Nat) : Marker :=
  let body : MarkerBody := { intent with mutationChanges := changes }
  { body with markerSha256 := criticalAckDigest (.markerBody body) }

def mark (db : Database β) (intent : Intent) (changes : Nat) : Except AckError (Database β × Marker) := do
  let marker := intent.toMarker criticalAckDigest changes
  assertCriticalAckMarker criticalAckDigest marker
  let db ← insertMarker db marker
  let db ← advanceState db marker
  pure (db, marker)

def Marker.toReceipt (marker : Marker) (ackEligibleAt : Nat) : Receipt :=
  let body : ReceiptBody := { marker, ackEligibleAt }
  { body with receiptSha256 := criticalAckDigest (.receiptBody body) }

def acknowledge (journal : Journal) (marker : Marker) (now : Nat) (fault : PublishFault) :
    Journal × Except AckError Unit :=
  match publishRow criticalAckDigest .receipt journal.receipts (marker.toReceipt criticalAckDigest now) fault with
  | (receipts, r) => ({ journal with receipts := receipts }, r)

/-- `failed`: evidence of a failed attempt; failing to leave it is counted, not thrown. -/
def failed (journal : Journal) (intent : Intent) (commitState : CommitState) (now : Nat)
    (fault : PublishFault) : Journal :=
  let body : FailureBody :=
    { epoch := intent.epoch, transactionId := intent.transactionId, intentSha256 := intent.intentSha256,
      commitState, recordedAt := now }
  let failure : Failure := { body with failureSha256 := criticalAckDigest (.failureBody body) }
  { journal with failures := (publishRow criticalAckDigest .failure journal.failures failure fault).1 }

/-- What `recoverCriticalAcknowledgment` checks before it publishes. -/
def checkRecovery (journal : Journal) (db : Database β)
    (transactionId : Nat) : Except AckError Marker :=
  match db.markers.find? fun m => m.transactionId = transactionId with
  | none => .error (.invalid "marker shape mismatch")
  | some marker => do
    assertCriticalAckMarker criticalAckDigest marker
    match journal.header, journal.intents.get? transactionId with
    | none, _ => .error .io
    | some header, none => if header.epoch ≠ marker.epoch then .error (.invalid "recovery epoch mismatch") else .error .io
    | some header, some intent => do
      if header.epoch ≠ marker.epoch then .error (.invalid "recovery epoch mismatch")
      else do
        assertIntent criticalAckDigest intent
        if intent.intentSha256 ≠ marker.intentSha256 then .error (.invalid "recovery intent mismatch")
        else
          match journal.receipts.get? marker.sequence with
          | none => .ok marker
          | some existing => do
            assertCriticalAckReceipt criticalAckDigest existing
            if existing.marker.markerSha256 ≠ marker.markerSha256 then .error (.invalid "recovery marker mismatch")
            else .ok marker

def recoverCriticalAcknowledgment (journal : Journal) (db : Database β) (transactionId now : Nat)
    (fault : PublishFault) :
    Journal × Except AckError Unit :=
  match checkRecovery criticalAckDigest journal db transactionId with
  | .error e => (journal, .error e)
  | .ok marker =>
    let receipt := (journal.receipts.get? marker.sequence).getD (marker.toReceipt criticalAckDigest now)
    match publishRow criticalAckDigest .receipt journal.receipts receipt fault with
    | (receipts, r) => ({ journal with receipts := receipts }, r)

end TokenProxy.Critical
