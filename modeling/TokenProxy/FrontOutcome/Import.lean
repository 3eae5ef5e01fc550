import TokenProxy.Lib.Compare
import TokenProxy.Lib.Lines
import TokenProxy.Lib.Table

/-!
# The import of the front outcome journal

`frontOutcomeJournalRepo.js`: the front writes signed records to append-only segments; an ingest
reads the complete lines it has not read yet, and applies them in one transaction together with the
new offsets of its checkpoints. Requests that are pending under another clock than the active one
are then marked as interrupted.

What a line says (`JSON.parse`, its receipt, the shape of its fields) and the digests are
parameters, and so is the order of `localeCompare`. A segment that does not exist yet reads like an
empty one. Left out: the checks of file modes, and the cache of completed segments, which saves
reading them again.
-/

namespace TokenProxy.FrontOutcome

open TokenProxy.Lib

/-! ## Records -/

inductive OutcomeState
  | pending
  | succeeded
  | failed
  | cancelled
  | interrupted
  | unknown
  deriving DecidableEq

structure StartRecord where
  clockDomain : String
  recordedAt : String
  receiptId : String
  frontIngressId : String
  logicalRequestId : Option String
  firstObservedAt : String
  dataOrigin : String
  originReceiptId : Option String
  deriving DecidableEq

structure LinkRecord where
  clockDomain : String
  recordedAt : String
  receiptId : String
  frontIngressId : String
  logicalRequestId : String
  deriving DecidableEq

structure TerminalRecord where
  clockDomain : String
  recordedAt : String
  receiptId : String
  frontIngressId : String
  logicalRequestId : Option String
  state : OutcomeState
  firstObservedAt : String
  terminalAt : String
  terminalStatus : Option Int
  queueDurationMs : ℚ
  preheadersDurationMs : ℚ
  streamDurationMs : ℚ
  endToEndDurationMs : ℚ
  dataOrigin : String
  originReceiptId : Option String
  deriving DecidableEq

inductive Event
  | processStart (clockDomain recordedAt : String)
  | start (record : StartRecord)
  | link (record : LinkRecord)
  | terminal (record : TerminalRecord)
  deriving DecidableEq

def Event.clockDomain : Event → String
  | .processStart clockDomain _ => clockDomain
  | .start r => r.clockDomain
  | .link r => r.clockDomain
  | .terminal r => r.clockDomain

def Event.recordedAt : Event → String
  | .processStart _ recordedAt => recordedAt
  | .start r => r.recordedAt
  | .link r => r.recordedAt
  | .terminal r => r.recordedAt

def Event.frontIngressId : Event → Option String
  | .processStart _ _ => none
  | .start r => some r.frontIngressId
  | .link r => some r.frontIngressId
  | .terminal r => some r.frontIngressId

/-- `fail(message)` -/
def fail {α : Type} (message : String) : Except String α := .error ("Invalid front outcome journal: " ++ message)

structure Runtime where
  /-- The record of a line: `JSON.parse`, a receipt that verifies, and fields of the right shape. -/
  parse : Bytes → Except String Event
  checksum : Bytes → String
  /-- The id of a timing span, a digest of a receipt and a stage. -/
  spanId : String → String → String
  localeCompare : String → String → Ordering

/-- `validateEvent(record)`, as far as it is about values: the state, the status and the
timing of a terminal record. -/
def validateEvent (label : String) : Event → Except String Event
  | .terminal r =>
    if r.state = .pending ∨ r.terminalStatus.any fun s => s < 100 ∨ 599 < s then fail (label ++ " terminal state")
    else if r.endToEndDurationMs < 0 then fail (label ++ " end-to-end duration")
    else if r.queueDurationMs < 0 then fail (label ++ " queue duration")
    else if r.preheadersDurationMs < 0 then fail (label ++ " response header duration")
    else if r.streamDurationMs < 0 then fail (label ++ " stream duration")
    else if 3 < |r.queueDurationMs + r.preheadersDurationMs + r.streamDurationMs - r.endToEndDurationMs| then
      fail (label ++ " timing total")
    else .ok (.terminal r)
  | e => .ok e

/-! ## Segments -/

/-- `MAX_SEGMENT_BYTES` -/
def maxSegmentBytes : Nat := 16 * 1024 * 1024

/-- `MAX_LINE_BYTES` -/
def maxLineBytes : Nat := 8 * 1024

structure SegmentFile where
  dev : Nat
  ino : Nat
  content : Bytes
  deriving DecidableEq

structure Checkpoint where
  dev : Nat
  ino : Nat
  offset : Nat
  prefixSha256 : String
  deriving DecidableEq

/-- What was read of a segment; `lines` are the lines of the events. -/
structure SegmentData where
  name : String
  file : SegmentFile
  lines : List Bytes
  events : List Event
  nextOffset : Nat
  prefixSha256 : String
  pendingBytes : Nat

def readLine (rt : Runtime) (name : String) (line : Bytes) : Except String Event :=
  if line = [] ∨ maxLineBytes < line.length then fail ("segment " ++ name ++ " line")
  else rt.parse line >>= validateEvent ("segment " ++ name)

/-- `readSegment(directory, name, checkpoint, keyring)` -/
def readSegment (rt : Runtime) (name : String) (checkpoint : Option Checkpoint)
    (file : SegmentFile) :
    Except String SegmentData :=
  let continuing := checkpoint.filter fun c => c.dev = file.dev && c.ino = file.ino
  let offset := (continuing.map Checkpoint.offset).getD 0
  if maxSegmentBytes < file.content.length then fail ("segment " ++ name ++ " must be an owned mode-0600 regular file")
  else if file.content.length < offset then fail ("segment " ++ name ++ " shrank without rotation")
  else if continuing.any fun c => rt.checksum (file.content.take offset) ≠ c.prefixSha256 then
    fail ("segment " ++ name ++ " consumed prefix changed")
  else
    let (lines, rest) := splitLines (file.content.drop offset)
    (lines.mapM (readLine rt name)).map fun events =>
      let nextOffset := file.content.length - rest.length
      { name, file, lines, events, nextOffset
        prefixSha256 := rt.checksum (file.content.take nextOffset)
        pendingBytes := rest.length }

/-! ## The store -/

/-- A row of `frontRequestOutcomes`. -/
structure OutcomeRow where
  frontIngressId : String
  logicalRequestId : Option String
  state : OutcomeState
  firstObservedAt : String
  terminalAt : Option String
  queueDurationMs : Option ℚ
  endToEndDurationMs : Option ℚ
  terminalStatus : Option Int
  clockDomain : String
  receiptId : String
  dataOrigin : String
  originReceiptId : Option String
  updatedAt : String
  deriving DecidableEq

/-- A row of `requestTimingSpans`. -/
structure SpanRow where
  id : String
  logicalRequestId : Option String
  frontIngressId : String
  processRole : String
  stage : String
  ordinal : Nat
  relation : String
  clockDomain : String
  durationMs : ℚ
  outcome : OutcomeState
  recordedAt : Option String
  dataOrigin : String
  originReceiptId : Option String
  deriving DecidableEq

abbrev Outcomes := Table OutcomeRow.frontIngressId

structure OutcomeDb where
  outcomes : Outcomes := .empty
  spans : Table SpanRow.id := .empty
  /-- The checkpoints in `_meta`, by the name of their segment. -/
  checkpoints : Dict String Checkpoint := .empty

/-! ## Applying records -/

structure ActiveClock where
  clockDomain : String
  recordedAt : String
  deriving DecidableEq

structure Group where
  clockDomain : String
  firstRecordedAt : String
  events : List Event

def addToGroups (groups : Table Group.clockDomain) (e : Event) : Table Group.clockDomain :=
  match groups.get? e.clockDomain with
  | some g => groups.put { g with events := g.events ++ [e] }
  | none => groups.put { clockDomain := e.clockDomain, firstRecordedAt := e.recordedAt, events := [e] }

def compareGroups (rt : Runtime) (a b : Group) : Ordering :=
  (rt.localeCompare a.firstRecordedAt b.firstRecordedAt).then (rt.localeCompare a.clockDomain b.clockDomain)

def orderEvents (rt : Runtime) (events : List Event) : List Event :=
  (sortBy (compareGroups rt) (events.foldl addToGroups .empty).rows).flatMap Group.events

inductive Operation
  | start (row : OutcomeRow)
  | link (row : OutcomeRow)
  | terminal (row : OutcomeRow) (record : TerminalRecord)
  deriving DecidableEq

/-- The rows as they are to be, the requests that logical requests are linked
to, and what is to be written. -/
structure Collected where
  rows : Outcomes
  logical : Dict String String
  operations : List Operation

def StartRecord.row (r : StartRecord) : OutcomeRow where
  frontIngressId := r.frontIngressId
  logicalRequestId := r.logicalRequestId
  state := .pending
  firstObservedAt := r.firstObservedAt
  terminalAt := none
  queueDurationMs := none
  endToEndDurationMs := none
  terminalStatus := none
  clockDomain := r.clockDomain
  receiptId := r.receiptId
  dataOrigin := r.dataOrigin
  originReceiptId := r.originReceiptId
  updatedAt := r.recordedAt

def OutcomeRow.repeatedBy (current : OutcomeRow) (r : StartRecord) : Prop :=
  current.state = .pending ∧ current.clockDomain = r.clockDomain ∧ current.firstObservedAt = r.firstObservedAt ∧
    current.logicalRequestId = r.logicalRequestId ∧ current.dataOrigin = r.dataOrigin ∧
    current.originReceiptId = r.originReceiptId

instance (current : OutcomeRow) (r : StartRecord) : Decidable (current.repeatedBy r) :=
  inferInstanceAs (Decidable (_ ∧ _))

def OutcomeRow.endedBy (current : OutcomeRow) (r : TerminalRecord) : Prop :=
  current.logicalRequestId = r.logicalRequestId ∧ current.state = .pending ∧ current.clockDomain = r.clockDomain ∧
    current.firstObservedAt = r.firstObservedAt ∧ current.dataOrigin = r.dataOrigin ∧
    current.originReceiptId = r.originReceiptId

instance (current : OutcomeRow) (r : TerminalRecord) : Decidable (current.endedBy r) :=
  inferInstanceAs (Decidable (_ ∧ _))

def OutcomeRow.linked (current : OutcomeRow) (r : LinkRecord) : OutcomeRow :=
  { current with logicalRequestId := some r.logicalRequestId, receiptId := r.receiptId, updatedAt := r.recordedAt }

def OutcomeRow.ended (current : OutcomeRow) (r : TerminalRecord) : OutcomeRow :=
  { current with
    state := r.state, terminalAt := some r.terminalAt, queueDurationMs := some r.queueDurationMs
    endToEndDurationMs := some r.endToEndDurationMs, terminalStatus := r.terminalStatus, receiptId := r.receiptId
    updatedAt := r.recordedAt }

/-- The body of the loop of `collectOperations`. -/
def applyEvent (c : Collected) : Event → Except String Collected
  | .processStart _ _ => .ok c
  | .start r =>
    match c.rows.get? r.frontIngressId with
    | some current =>
      if current.repeatedBy r then .ok c else fail ("conflicting start " ++ r.frontIngressId)
    | none =>
      match r.logicalRequestId with
      | some l =>
        if (c.logical.get? l).isSome then fail ("logical request already linked " ++ l)
        else .ok ⟨c.rows.put r.row, c.logical.put (l, r.frontIngressId), c.operations ++ [.start r.row]⟩
      | none => .ok ⟨c.rows.put r.row, c.logical, c.operations ++ [.start r.row]⟩
  | .link r =>
    match c.rows.get? r.frontIngressId with
    | none => fail ("link without start " ++ r.frontIngressId)
    | some current =>
      if current.logicalRequestId.any fun l => l ≠ r.logicalRequestId then
        fail ("conflicting link " ++ r.frontIngressId)
      else if (c.logical.get? r.logicalRequestId).any fun linked => linked.2 ≠ r.frontIngressId then
        fail ("logical request already linked " ++ r.logicalRequestId)
      else if current.logicalRequestId.isNone then
        .ok ⟨c.rows.put (current.linked r), c.logical.put (r.logicalRequestId, r.frontIngressId),
          c.operations ++ [.link (current.linked r)]⟩
      else .ok c
  | .terminal r =>
    match c.rows.get? r.frontIngressId with
    | none => fail ("terminal without start " ++ r.frontIngressId)
    | some current =>
      if current.endedBy r then
        .ok ⟨c.rows.put (current.ended r), c.logical, c.operations ++ [.terminal (current.ended r) r]⟩
      else fail ("conflicting terminal " ++ r.frontIngressId)

def linkedRequests (outcomes : Outcomes) : Dict String String :=
  outcomes.rows.foldl (fun logical row =>
    match row.logicalRequestId with
    | some l => logical.put (l, row.frontIngressId)
    | none => logical) .empty

/-- `collectOperations(db, active, segmentData)`, for the events of the segments. -/
def collectOperations (rt : Runtime) (db : OutcomeDb)
    (events : List Event) : Except String Collected :=
  (orderEvents rt events).foldlM applyEvent ⟨db.outcomes, linkedRequests db.outcomes, []⟩

/-! ## Writing -/

def TerminalRecord.stages (r : TerminalRecord) : List (Nat × String × ℚ) :=
  [(0, "queue", r.queueDurationMs), (1, "response-headers", r.preheadersDurationMs), (2, "stream", r.streamDurationMs)]

def OutcomeRow.span (rt : Runtime) (row : OutcomeRow) (stage : Nat × String × ℚ) : SpanRow where
  id := rt.spanId row.receiptId stage.2.1
  logicalRequestId := row.logicalRequestId
  frontIngressId := row.frontIngressId
  processRole := "front"
  stage := stage.2.1
  ordinal := stage.1
  relation := "sequential"
  clockDomain := row.clockDomain
  durationMs := stage.2.2
  outcome := row.state
  recordedAt := row.terminalAt
  dataOrigin := row.dataOrigin
  originReceiptId := row.originReceiptId

/-- `INSERT … ON CONFLICT(id) DO NOTHING` -/
def insertSpan (spans : Table SpanRow.id) (s : SpanRow) : Table SpanRow.id :=
  if (spans.get? s.id).isSome then spans else spans.put s

/-- The statements of one operation; an update changes the columns that it names. -/
def writeOperation (rt : Runtime) (db : OutcomeDb) : Operation → OutcomeDb
  | .start row => { db with outcomes := db.outcomes.put row }
  | .link row =>
    match db.outcomes.get? row.frontIngressId with
    | none => db
    | some stored =>
      let updated := { stored with
        logicalRequestId := row.logicalRequestId, receiptId := row.receiptId, updatedAt := row.updatedAt }
      { db with outcomes := db.outcomes.put updated }
  | .terminal row record =>
    let spans := (record.stages.map (row.span rt)).foldl insertSpan db.spans
    match db.outcomes.get? row.frontIngressId with
    | none => { db with spans }
    | some stored =>
      let updated := { stored with
        state := row.state, terminalAt := row.terminalAt, queueDurationMs := row.queueDurationMs
        endToEndDurationMs := row.endToEndDurationMs, terminalStatus := row.terminalStatus, receiptId := row.receiptId
        updatedAt := row.updatedAt }
      { db with outcomes := db.outcomes.put updated, spans }

def OutcomeRow.outlived (active : ActiveClock) (row : OutcomeRow) : Bool :=
  row.state = .pending && row.clockDomain ≠ active.clockDomain

def OutcomeRow.interrupt (active : ActiveClock) (row : OutcomeRow) : OutcomeRow :=
  if row.outlived active then
    { row with state := .interrupted, terminalAt := some active.recordedAt, updatedAt := active.recordedAt }
  else row

theorem OutcomeRow.interrupt_id (active : ActiveClock) (row : OutcomeRow) :
    (row.interrupt active).frontIngressId = row.frontIngressId := by
  unfold OutcomeRow.interrupt
  split <;> rfl

/-- `writeOperations(db, active, operations)` -/
def writeOperations (rt : Runtime) (db : OutcomeDb) (active : ActiveClock)
    (operations : List Operation) : OutcomeDb × Nat :=
  let written := operations.foldl (writeOperation rt) db
  ({ written with outcomes := written.outcomes.mapRows (OutcomeRow.interrupt active) (OutcomeRow.interrupt_id active) },
    written.outcomes.rows.countP (OutcomeRow.outlived active))

def writeCheckpoint (db : OutcomeDb) (data : SegmentData) : OutcomeDb :=
  if 0 < data.nextOffset then
    let checkpoint : Checkpoint := ⟨data.file.dev, data.file.ino, data.nextOffset, data.prefixSha256⟩
    { db with checkpoints := db.checkpoints.put (data.name, checkpoint) }
  else db

structure Report where
  events : Nat
  segments : Nat
  pendingBytes : Nat
  activeClockDomain : String
  interrupted : Nat
  deriving DecidableEq

/-- What an ingest sees: the active clock, which is the same when it has read the segments, and each
segment as it was when it was read, in the order of their names. -/
structure View where
  active : ActiveClock
  segments : List (String × SegmentFile)

/-- `ingestFrontOutcomeJournal()`; an attempt during which the active clock changes does nothing,
and is no attempt here. -/
def ingestFrontOutcomeJournal (rt : Runtime) (view : View) (db : OutcomeDb) :
    Except String (OutcomeDb × List SegmentData × Report) := do
  let segmentData ← view.segments.mapM fun s => readSegment rt s.1 ((db.checkpoints.get? s.1).map Prod.snd) s.2
  let collected ← collectOperations rt db (segmentData.flatMap SegmentData.events)
  let (written, interrupted) := writeOperations rt db view.active collected.operations
  return (segmentData.foldl writeCheckpoint written, segmentData,
    { events := (segmentData.map fun d => d.events.length).sum
      segments := segmentData.countP fun d => !d.events.isEmpty
      pendingBytes := (segmentData.map SegmentData.pendingBytes).sum
      activeClockDomain := view.active.clockDomain
      interrupted })

/-! ## Schedules -/

/-- The journal as the front has written it, and the store. `consumed` are the lines of each segment
that ingests have read, in their order. -/
structure JournalState where
  active : ActiveClock
  files : String → SegmentFile
  db : OutcomeDb := {}
  consumed : String → List Bytes := fun _ => []

/-- What happens: the front appends to a segment or publishes a new active clock; an ingest sees of
each segment the bytes that it has when the ingest reads it. -/
inductive JournalOp
  | append (name : String) (bytes : Bytes)
  | activate (active : ActiveClock)
  | ingest (seen : String → Nat)

def JournalState.view (names : List String) (st : JournalState) (seen : String → Nat) : View where
  active := st.active
  segments := names.map fun n => (n, { st.files n with content := (st.files n).content.take (seen n) })

def SegmentFile.append (file : SegmentFile) (bytes : Bytes) : SegmentFile :=
  { file with content := file.content ++ bytes }

def journalStep (rt : Runtime) (names : List String) (st : JournalState) : JournalOp → JournalState
  | .append name bytes => { st with files := fun n => if n = name then (st.files n).append bytes else st.files n }
  | .activate active => { st with active }
  | .ingest seen =>
    match ingestFrontOutcomeJournal rt (st.view names seen) st.db with
    | .error _ => st
    | .ok (db, segmentData, _) =>
      { st with
        db
        consumed := fun n => st.consumed n ++ ((segmentData.filter fun d => d.name = n).flatMap SegmentData.lines) }

end TokenProxy.FrontOutcome
