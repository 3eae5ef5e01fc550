import TokenProxy.Lib.Table
import TokenProxy.Lib.Text
import TokenProxy.Lib.Transaction

/-!
# The quota check queue

One job for each account. A worker claims a job that is due, or whose lease ran out: it gets a fresh
token and a lease, with which it renews, completes or cancels. `reconcile` makes and cancels jobs as
accounts come and go, and `cancelAll` cancels every job.

* Every operation brings its own clock: no two of them need to agree. ISO timestamps are compared as
  numbers of milliseconds.
* Random identifiers are drawn from a supply, so no two are the same; the hashes are parameters.
* Every transaction may throw, and so may the flush after it.

`claims` records the claims that were granted; no operation reads it.
-/

namespace TokenProxy.QuotaCheck

open TokenProxy.Lib

def QUOTA_CHECK_LEASE_MS : Nat := 120000

def reasons : List String :=
  ["poll-not-before", "reset-not-before", "probe-not-before", "verify-not-before", "retry-not-before"]

def cancellations : List String :=
  ["account-inactive", "setting-disabled", "auth-unsupported", "account-missing", "scheduler-stopped", "ownership-lost",
    "check-deadline"]

def validText (value : String) : Bool := 0 < value.length ∧ value.length ≤ 512

/-- `text` of the quota history. -/
def text (value : String) : Option String :=
  if value.length ≤ 512 ∧ value.toList.all isBlank = false then some value else none

inductive Status where
  | scheduled
  | running
  | cancelled
  deriving DecidableEq

inductive CheckOutcome where
  | completed
  | failed
  deriving DecidableEq

/-- `lastOutcome` -/
inductive LastOutcome where
  | check (outcome : CheckOutcome)
  | cancelled
  deriving DecidableEq

structure Evidence where
  scope : Option String
  resetAt : Option Nat
  observationId : Option String
  resourceType : Option String
  unit : Option String
  deriving DecidableEq

structure Job where
  id : String
  connectionId : String
  provider : String
  status : Status
  nextCheckAt : Nat
  reason : String
  targets : List Evidence
  claimToken : Option Nat
  checkId : Option Nat
  leaseExpiresAt : Option Nat
  startedAt : Option Nat
  finishedAt : Option Nat
  lastOutcome : Option LastOutcome
  cancelReason : Option String
  createdAt : Nat
  updatedAt : Nat
  deriving DecidableEq

inductive EventType where
  | scheduled
  | cancelled
  deriving DecidableEq

structure CheckEvent where
  id : String
  jobId : Option String
  checkId : Nat
  connectionId : String
  provider : Option String
  scope : Option String
  eventType : EventType
  scheduledFor : Option Nat
  resetAt : Option Nat
  capturedAt : Nat
  code : Option String
  observationId : Option String
  resourceType : Option String
  unit : Option String
  deriving DecidableEq

structure Observation where
  id : String
  connectionId : String
  provider : Option String
  scope : String
  resourceType : Option String
  unit : Option String
  resetAt : Option Nat
  deriving DecidableEq

inductive EventKey where
  | schedule (connectionId : String) (provider scope : Option String) (scheduledFor resetAt : Option Nat)
      (code : Option String)
  | check (checkId : Nat) (scope : Option String) (eventType : EventType) (code : Option String)

structure Row where
  id : String
  checkId : Option Nat
  connectionId : String
  provider : String
  deriving DecidableEq

structure Claim extends Row where
  claimToken : Nat
  deriving DecidableEq

structure Account where
  id : String
  provider : String
  cancelReason : Option String
  deriving DecidableEq

/-- A target of a check: `resetAt` may be absent or unreadable. -/
structure Target where
  scope : Option String
  resetAt : Option (Option Nat)
  observationId : Option String
  deriving DecidableEq

structure Completion where
  /-- `none` if it is no date -/
  nextCheckAt : Option Nat
  reason : String
  targets : List Target
  outcome : CheckOutcome
  deriving DecidableEq

structure State where
  jobs : Table (fun j : Job => j.id)
  events : Table (fun e : CheckEvent => e.id)
  observations : List Observation
  /-- the next `randomUUID()` -/
  supply : Nat
  /-- the claims that were granted: the job and the token -/
  claims : List (String × Nat)

/-- What fails in an operation: a statement of its transaction, or the flush after it. -/
structure Faults where
  transaction : Bool
  flush : Bool

variable (identity : String → String → String) (digest : EventKey → String)

/-- `UPDATE quotaCheckJobs SET … WHERE id = ? AND …`: the table and the number of changes. -/
def updateJob (st : State) (id : String) (cond : Job → Bool) (set : Job → Job) : State × Nat :=
  match st.jobs.get? id with
  | none => (st, 0)
  | some job => if cond job then ({ st with jobs := st.jobs.put { set job with id := job.id } }, 1) else (st, 0)

/-- `isOwner` -/
def isOwner (st : State) (claim : Claim) (now : Nat) : Bool :=
  (st.jobs.get? claim.id).any fun job =>
    job.claimToken = some claim.claimToken ∧ job.status = .running ∧ job.leaseExpiresAt.any (now < ·)

/-- `/^http_[1-5]\d{2}$/` -/
def isHttpCode (code : String) : Bool :=
  match code.toList with
  | ['h', 't', 't', 'p', '_', a, b, c] => '1' ≤ a ∧ a ≤ '5' ∧ '0' ≤ b ∧ b ≤ '9' ∧ '0' ≤ c ∧ c ≤ '9'
  | _ => false

def EVENT_CODES : List String :=
  ["reset-not-before", "probe-not-before", "required_proxy_unavailable", "credential_refresh_failed", "usage_unreadable",
    "usage_exception", "warm_rejected", "warm_uncertain", "warm_exception", "state_write_failed", "check_exception",
    "observed", "blocking_quota_exhausted", "every-window-running", "warm-policy-held", "scheduler-recorded",
    "response-status-unknown", "verified"]

/-- The codes that the check of an event spells out in a pattern. -/
def PATTERN_CODES : List String :=
  ["poll-not-before", "verify-not-before", "retry-not-before", "account-inactive", "setting-disabled", "auth-unsupported",
    "account-missing", "scheduler-stopped", "ownership-lost", "check-deadline"]

/-- `/^[a-f0-9]{64}$/` -/
def isHex64 (value : String) : Bool :=
  value.length = 64 ∧ value.toList.all fun c => ('a' ≤ c ∧ c ≤ 'f') ∨ ('0' ≤ c ∧ c ≤ '9')

/-- What the queue passes to `insertQuotaCheckEvent`. -/
structure EventFields where
  eventType : EventType
  code : String
  scope : Option String
  observationId : Option String
  resetAt : Option Nat
  scheduledFor : Option Nat

def eventObservation (st : State) (connectionId provider : String) (fields : EventFields) :
    Except String (Option Observation) :=
  match fields.observationId with
  | none => .ok none
  | some id =>
    match st.observations.find? fun o => o.id = id ∧ o.connectionId = connectionId ∧
        some o.scope = fields.scope.bind text ∧ o.provider = text provider with
    | some o => .ok (some o)
    | none => .error "Quota observation does not match check target"

/-- `insertQuotaCheckEvent`, as the queue calls it; an event whose
identifier is taken is ignored. -/
def insertQuotaCheckEvent (jobId : String) (checkId : Nat) (connectionId provider : String)
    (fields : EventFields) (now : Nat) (st : State) : Except String State := do
  if text connectionId = none then .error "Invalid quota check event"
  else if ¬ (fields.code ∈ EVENT_CODES ∨ fields.code ∈ PATTERN_CODES ∨ isHttpCode fields.code) then
    .error "Invalid quota check code"
  else if fields.observationId.any fun id => !isHex64 id then .error "Invalid quota observation identity"
  else do
    let observation ← eventObservation st connectionId provider fields
    let key : EventKey :=
      if fields.eventType = .scheduled ∧ text jobId = none then
        .schedule connectionId (text provider) (fields.scope.bind text) fields.scheduledFor fields.resetAt (text fields.code)
      else .check checkId (fields.scope.bind text) fields.eventType (text fields.code)
    let event : CheckEvent :=
      { id := digest key, jobId := text jobId, checkId, connectionId, provider := text provider,
        scope := fields.scope.bind text, eventType := fields.eventType, scheduledFor := fields.scheduledFor,
        resetAt := fields.resetAt, capturedAt := now, code := text fields.code,
        observationId := observation.map Observation.id, resourceType := observation.bind Observation.resourceType,
        unit := observation.bind Observation.unit }
    .ok (if (st.events.get? event.id).isSome then st else { st with events := st.events.put event })

/-- `event(row, type, code, now, fields)` -/
def recordEvent (row : Row) (fields : EventFields) (now : Nat) (st : State) : Except String State :=
  match row.checkId with
  | some checkId => insertQuotaCheckEvent digest row.id checkId row.connectionId row.provider fields now st
  | none =>
    insertQuotaCheckEvent digest row.id st.supply row.connectionId row.provider fields now { st with supply := st.supply + 1 }

/-- `cancelRow` -/
def cancelRow (row : Row) (reason : String) (now : Nat)
    (st : State) : Except String (State × Nat) :=
  match updateJob st row.id (fun job => job.status ≠ .cancelled) fun job =>
      { job with
        status := .cancelled, cancelReason := some reason, claimToken := none, leaseExpiresAt := none
        finishedAt := some now, lastOutcome := some .cancelled, updatedAt := now } with
  | (st, 0) => .ok (st, 0)
  | (st, n + 1) => do
    let st ← recordEvent digest row
      { eventType := .cancelled, code := reason, scope := none, observationId := none, resetAt := none,
        scheduledFor := none } now st
    pure (st, n + 1)

def Job.toRow (job : Job) : Row :=
  { id := job.id, checkId := job.checkId, connectionId := job.connectionId, provider := job.provider }

/-- Cancel the rows that `reason` gives a reason for, one after the other. -/
def cancelRows (reason : Job → Option String) (now : Nat) : List Job → State → Except String State
  | [], st => .ok st
  | row :: rows, st =>
    match reason row with
    | none => cancelRows reason now rows st
    | some why => do
      let (st, _) ← cancelRow digest row.toRow why now st
      cancelRows reason now rows st

/-- The accounts by their identity: the last account of an identity counts. -/
def eligible (accounts : List Account) : Dict String Account :=
  accounts.foldl (fun map account => map.put (identity account.id account.provider, account)) .empty

/-- The row that `reconcile` inserts. -/
def Account.toJob (account : Account) (id : String) (now : Nat) : Job where
  id := id
  connectionId := account.id
  provider := account.provider
  status := .scheduled
  nextCheckAt := now
  reason := "poll-not-before"
  targets := []
  claimToken := none
  checkId := none
  leaseExpiresAt := none
  startedAt := none
  finishedAt := none
  lastOutcome := none
  cancelReason := none
  createdAt := now
  updatedAt := now

def Job.revive (job : Job) (now : Nat) : Job :=
  { job with
    status := .scheduled, nextCheckAt := now, reason := "poll-not-before", cancelReason := none, checkId := none
    claimToken := none, leaseExpiresAt := none, updatedAt := now }

/-- `INSERT INTO quotaCheckJobs … ON CONFLICT(id) DO UPDATE … WHERE status = 'cancelled'` -/
def enqueue (id : String) (account : Account) (now : Nat) (st : State) : Except String State :=
  match st.jobs.get? id with
  | some job => .ok (if job.status = .cancelled then { st with jobs := st.jobs.put (job.revive now) } else st)
  | none =>
    if st.jobs.rows.any fun job => job.connectionId = account.id ∧ job.provider = account.provider then .error "constraint"
    else .ok { st with jobs := st.jobs.put (account.toJob id now) }

/-- Make or revive the jobs of the accounts that have no reason to be cancelled. -/
def enqueueAll (now : Nat) : List (String × Account) → State → Except String State
  | [], st => .ok st
  | (id, account) :: rest, st =>
    match account.cancelReason with
    | some _ => enqueueAll now rest st
    | none => do
      let st ← enqueue id account now st
      enqueueAll now rest st

def checkAccounts (accounts : List Account) : Except String Unit :=
  if accounts.all fun a => validText a.id ∧ validText a.provider ∧ a.cancelReason.all (· ∈ cancellations) then .ok ()
  else .error "Invalid quota check account"

/-- Why `reconcile` cancels a row. -/
def cancelReasonOf (map : Dict String Account) (row : Job) : Option String :=
  if row.status = .cancelled then none
  else
    match map.get? row.id with
    | some (_, account) => account.cancelReason
    | none => some "account-missing"

/-- The transaction of `reconcile`. -/
def reconcile (accounts : List Account) (now : Nat)
    (st : State) : Except String (State × Unit) := do
  let map := eligible identity accounts
  let st ← cancelRows digest (cancelReasonOf map) now st.jobs.rows st
  let st ← enqueueAll now map.rows st
  pure (st, ())

def checkLease (leaseMs : Nat) : Except String Unit :=
  if leaseMs < 1000 ∨ 600000 < leaseMs then .error "Invalid quota check lease" else .ok ()

/-- The transaction of `claim`. -/
def claim (id : String) (now leaseMs : Nat) (st : State) : Except String (State × Option Job) :=
  let claimToken := st.supply
  let checkId := st.supply + 1
  let st := { st with supply := st.supply + 2 }
  match updateJob st id
      (fun job => (job.status = .scheduled ∧ job.nextCheckAt ≤ now) ∨
        (job.status = .running ∧ job.leaseExpiresAt.any (· ≤ now)))
      fun job =>
        { job with
          status := .running, claimToken := some claimToken, checkId := some checkId
          leaseExpiresAt := some (now + leaseMs), startedAt := some now, finishedAt := none, updatedAt := now } with
  | (st, 0) => .ok (st, none)
  | (st, _ + 1) => .ok ({ st with claims := st.claims ++ [(id, claimToken)] }, st.jobs.get? id)

/-- The statement of `renew`. -/
def renew (claim : Claim) (now leaseMs : Nat) (st : State) : Except String (State × Bool) :=
  let (st, changes) := updateJob st claim.id
    (fun job => job.claimToken = some claim.claimToken ∧ job.status = .running ∧ job.leaseExpiresAt.any (now < ·))
    fun job => { job with leaseExpiresAt := some (now + leaseMs), updatedAt := now }
  .ok (st, 0 < changes)

/-- The transaction of `cancel`. -/
def cancel (claim : Claim) (reason : String) (now : Nat)
    (st : State) : Except String (State × Bool) :=
  if isOwner st claim now then do
    let (st, changes) ← cancelRow digest claim.toRow reason now st
    pure (st, decide (0 < changes))
  else .ok (st, false)

def targetObservation (st : State) (claim : Claim)
    (target : Target) : Except String (Option Observation) :=
  match target.observationId with
  | none => .ok none
  | some id =>
    match st.observations.find? fun o => o.id = id ∧ o.connectionId = claim.connectionId ∧
        o.provider = some claim.provider ∧ some o.scope = target.scope with
    | some o => .ok (some o)
    | none => .error "Quota observation does not match check target"

def targetEvidence (st : State) (claim : Claim) (target : Target) : Except String Evidence :=
  if target.scope.any (fun scope => !validText scope) ∨ target.resetAt = some none then .error "Invalid quota check target"
  else do
    let observation ← targetObservation st claim target
    match observation, target.resetAt with
    | some o, some at_ =>
      if at_ ≠ o.resetAt then .error "Quota reset does not match prior observation"
      else pure ⟨target.scope, at_, some o.id, o.resourceType, o.unit⟩
    | some o, none => pure ⟨target.scope, none, some o.id, o.resourceType, o.unit⟩
    | none, at_ => pure ⟨target.scope, at_.join, none, none, none⟩

def recordTargets (claim : Claim) (reason : String)
    (nextCheckAt now : Nat) : List (Option Evidence) → State → Except String State
  | [], st => .ok st
  | target :: rest, st => do
    let st ← recordEvent digest claim.toRow
      { eventType := .scheduled, code := reason, scope := target.bind Evidence.scope,
        observationId := target.bind Evidence.observationId, resetAt := target.bind Evidence.resetAt,
        scheduledFor := some nextCheckAt } now st
    recordTargets claim reason nextCheckAt now rest st

def checkCompletion (completion : Completion) : Except String Nat :=
  match completion.nextCheckAt with
  | none => .error "Invalid quota check completion"
  | some nextCheckAt =>
    if completion.reason ∉ reasons ∨ 100 < completion.targets.length then .error "Invalid quota check completion"
    else .ok nextCheckAt

/-- The transaction of `complete`. -/
def complete (claim : Claim) (completion : Completion) (nextCheckAt now : Nat)
    (st : State) : Except String (State × Bool) :=
  if isOwner st claim now then do
    let evidence ← completion.targets.mapM (targetEvidence st claim)
    match updateJob st claim.id (fun job => job.claimToken = some claim.claimToken) fun job =>
        { job with
          status := .scheduled, nextCheckAt, reason := completion.reason, targets := evidence
          lastOutcome := some (.check completion.outcome), finishedAt := some now, claimToken := none
          leaseExpiresAt := none, updatedAt := now } with
    | (st, 0) => pure (st, false)
    | (st, _ + 1) => do
      let st ← recordTargets digest claim completion.reason nextCheckAt now
        (if evidence = [] then [none] else evidence.map some) st
      pure (st, true)
  else .ok (st, false)

/-- The transaction of `cancelAll`. -/
def cancelAll (reason : String) (now : Nat) (st : State) : Except String (State × Unit) := do
  let st ← cancelRows digest (fun row => if row.status = .cancelled then none else some reason) now st.jobs.rows st
  pure (st, ())

def checkCancellation (reason : String) : Except String Unit :=
  if reason ∈ cancellations then .ok () else .error "Invalid quota check cancellation"

/-! ### Runs -/

inductive Event where
  | reconcile (accounts : List Account) (now : Nat) (faults : Faults)
  | claim (id : String) (now leaseMs : Nat) (faults : Faults)
  | renew (claim : Claim) (now leaseMs : Nat) (faults : Faults)
  | cancel (claim : Claim) (reason : String) (now : Nat) (faults : Faults)
  | complete (claim : Claim) (completion : Completion) (now : Nat) (faults : Faults)
  | cancelAll (reason : String) (now : Nat) (faults : Faults)
  /-- the quota history gets an observation -/
  | observe (observation : Observation)

/-- `publish(db.transaction(…))`: a flush that fails is thrown, though
the transaction is committed. -/
def publish {α : Type} (faults : Faults) (body : State → Except String (State × α))
    (st : State) : State × Except String α :=
  match transaction body (if faults.transaction then some "io" else none) st with
  | (st, .error e) => (st, .error e)
  | (st, .ok a) => (st, if faults.flush then .error "io" else .ok a)

inductive Answer where
  | done
  | job (job : Option Job)
  | accepted (changed : Bool)
  deriving DecidableEq

def guarded {α : Type} (check : Except String α) (faults : Faults)
    (answer : α → State → Except String (State × Answer))
    (st : State) : State × Except String Answer :=
  match check with
  | .error e => (st, .error e)
  | .ok a => publish faults (answer a) st

def answering {α : Type} (answer : α → Answer) (body : State → Except String (State × α))
    (st : State) :
    Except String (State × Answer) := do
  let (st, a) ← body st
  pure (st, answer a)

def execute (st : State) : Event → State × Except String Answer
  | .reconcile accounts now faults =>
    guarded (checkAccounts accounts) faults (fun _ => answering (fun _ => .done) (reconcile identity digest accounts now)) st
  | .claim id now leaseMs faults =>
    guarded (checkLease leaseMs) faults (fun _ => answering .job (claim id now leaseMs)) st
  | .renew held now leaseMs faults =>
    guarded (checkLease leaseMs) faults (fun _ => answering .accepted (renew held now leaseMs)) st
  | .cancel held reason now faults =>
    guarded (checkCancellation reason) faults (fun _ => answering .accepted (cancel digest held reason now)) st
  | .complete held completion now faults =>
    guarded (checkCompletion completion) faults
      (fun nextCheckAt => answering .accepted (complete digest held completion nextCheckAt now)) st
  | .cancelAll reason now faults =>
    guarded (checkCancellation reason) faults (fun _ => answering (fun _ => .done) (cancelAll digest reason now)) st
  | .observe observation => ({ st with observations := st.observations ++ [observation] }, .ok .done)

def step (st : State) (ev : Event) : State := (execute identity digest st ev).1

def State.initial : State := ⟨.empty, .empty, [], 0, []⟩

end TokenProxy.QuotaCheck
