import TokenProxy.Lib.Run
import TokenProxy.Lib.Table

/-!
# Quota evidence

A routing decision needs a quota snapshot. It is taken from the memory cache, from what the
connection persists, or from a live refresh that concurrent callers share; a refresh that other
credentials or an invalidation replaced must not write any more.

A time is in milliseconds since the epoch. A step is what runs between two awaits: a call up to its
first await, a waiting call going on, a refresh going on after its fetch or after its usage was
retained, a timer, a cancellation. The digest of an identity stands for what it digests. What a
provider reports, how a snapshot is derived of it and when a snapshot pauses an account are
parameters.
-/

namespace TokenProxy.QuotaGuard

open Lib

def cacheTtlMs : Nat := 120000

def negativeCacheTtlMs : Nat := 5000

def maxCacheEntries : Nat := 1024

/-! ### Evidence -/

/-- What `quotaEvidenceIdentity` digests: the connection, its credentials
and thresholds, and the route. -/
structure EvidenceIdentity where
  id : String
  credentials : String
  proxyOptions : String
  deriving DecidableEq

/-- `windows` are the readings; a time is none if it is no date. -/
structure Snapshot (W : Type) where
  windows : W
  fetchedAt : Option Nat
  evidenceIdentity : Option EvidenceIdentity := none

structure Connection (W : Type) where
  id : String
  credentials : String
  eligible : Bool := true
  lastQuotaSnapshot : Option (Snapshot W) := none

def quotaEvidenceIdentity {W : Type} (connection : Connection W)
    (proxyOptions : String) : EvidenceIdentity where
  id := connection.id
  credentials := connection.credentials
  proxyOptions := proxyOptions

structure CacheEntry (W : Type) where
  identity : EvidenceIdentity
  snapshot : Snapshot W
  fetchedAt : Option Nat

structure NegativeEntry where
  identity : EvidenceIdentity
  expiresAt : Nat
  failureClass : String

structure Fetched (W U : Type) where
  snapshot : Option (Snapshot W) := none
  unavailable : Bool := false
  rawUsage : Option U := none
  failureClass : Option String := none

inductive RefreshPhase (W U : Type) where
  | fetching
  | retaining (fetched : Fetched W U)
  | returned (fetched : Fetched W U)
  | settled (fetched : Fetched W U)

/-- A live refresh: `aborted` is the name of the reason, `persist` a write of its
snapshot that is under way. -/
structure Refresh (W U : Type) where
  id : Nat
  connection : Connection W
  identity : EvidenceIdentity
  aborted : Option String := none
  phase : RefreshPhase W U := .fetching
  persist : Option (Snapshot W) := none

structure QuotaResult (W U : Type) where
  paused : Bool
  reason : String
  snapshot : Option (Snapshot W)
  rawUsage : Option U
  failureClass : Option String := none

/-- A call waits for a refresh, or for a promise that is resolved already. -/
inductive CallPhase (W U : Type) where
  | waiting (refresh : Nat)
  | resolved (fetched : Fetched W U)
  | done (result : QuotaResult W U)
  | cancelled

/-- A call of `evaluateQuota`. -/
structure Call (W U : Type) where
  id : Nat
  connection : Connection W
  identity : EvidenceIdentity
  phase : CallPhase W U

/-- The maps of the module, its refreshes and the writes that they persisted. -/
structure GuardState (W U : Type) where
  memoryCache : Dict String (CacheEntry W) := .empty
  negativeCache : Dict String NegativeEntry := .empty
  inFlightRefreshes : Dict String Nat := .empty
  refreshes : Table (Refresh.id : Refresh W U → Nat) := .empty
  persisted : List (Nat × Snapshot W) := []
  supply : Nat := 0

variable {W U : Type}

@[irreducible] def setBounded {V : Type} (map : Dict String V) (key : String)
    (value : V) : Dict String V :=
  ((map.erase key).put (key, value)).keepLast maxCacheEntries

def cached (s : GuardState W U) (id : String) : Option (CacheEntry W) := (s.memoryCache.get? id).map Prod.snd

def negative (s : GuardState W U) (id : String) : Option NegativeEntry := (s.negativeCache.get? id).map Prod.snd

def inFlight (s : GuardState W U) (id : String) : Option Nat := (s.inFlightRefreshes.get? id).map Prod.snd

/-! ### Snapshots at hand -/

def freshSnapshot (now : Nat) (fetchedAt : Option Nat) : Bool := fetchedAt.any fun ts => now < ts + cacheTtlMs

/-- The persisted snapshot of a connection, if it is bound to the identity. -/
def boundSnapshot (connection : Connection W) (identity : EvidenceIdentity) : Option (Snapshot W) :=
  connection.lastQuotaSnapshot.filter fun s => s.evidenceIdentity = some identity

def warm (s : GuardState W U) (connection : Connection W) (identity : EvidenceIdentity)
    (snapshot : Snapshot W) : GuardState W U :=
  { s with
    memoryCache := setBounded s.memoryCache connection.id
      { identity := identity, snapshot := snapshot, fetchedAt := snapshot.fetchedAt } }

def cachedFresh (s : GuardState W U) (id : String) (identity : EvidenceIdentity)
    (now : Nat) : Option (Snapshot W) :=
  match cached s id with
  | some entry =>
    if entry.identity = identity ∧ entry.fetchedAt ≠ some 0 ∧ freshSnapshot now entry.fetchedAt then some entry.snapshot else none
  | none => none

def readSnapshot (s : GuardState W U) (connection : Connection W) (identity : EvidenceIdentity)
    (now : Nat) :
    GuardState W U × Option (Snapshot W) :=
  match cachedFresh s connection.id identity now with
  | some snapshot => (s, some snapshot)
  | none =>
    match boundSnapshot connection identity with
    | some snapshot =>
      if freshSnapshot now snapshot.fetchedAt then (warm s connection identity snapshot, some snapshot) else (s, none)
    | none => (s, none)

def staleSnapshot (s : GuardState W U) (connection : Connection W) (identity : EvidenceIdentity) :
    GuardState W U × Option (Snapshot W) :=
  match cached s connection.id with
  | some entry => if entry.identity = identity then (s, some entry.snapshot) else (s, none)
  | none =>
    match boundSnapshot connection identity with
    | some snapshot => (warm s connection identity snapshot, some snapshot)
    | none => (s, none)

/-! ### Refreshing -/

def setRefresh (s : GuardState W U) (r : Refresh W U) : GuardState W U := { s with refreshes := s.refreshes.put r }

def abortInFlight (s : GuardState W U) (id : String) : GuardState W U :=
  match (inFlight s id).bind s.refreshes.get? with
  | some r => setRefresh s { r with aborted := r.aborted.or (some "AbortError") }
  | none => s

def startRefresh (s : GuardState W U) (connection : Connection W)
    (identity : EvidenceIdentity) : GuardState W U :=
  setRefresh { s with
      inFlightRefreshes := s.inFlightRefreshes.put (connection.id, s.supply)
      supply := s.supply + 1 } { id := s.supply, connection := connection, identity := identity }

/-- The refresh that a caller gets: none if the last failure still answers for it. -/
def scheduleRefresh (s : GuardState W U) (connection : Connection W) (identity : EvidenceIdentity)
    (now : Nat) :
    GuardState W U × CallPhase W U :=
  match (negative s connection.id).filter fun n => n.identity = identity && now < n.expiresAt with
  | some n => (s, .resolved { failureClass := some n.failureClass })
  | none =>
    match (inFlight s connection.id).bind s.refreshes.get? with
    | some r =>
      if r.identity = identity then (s, .waiting r.id)
      else (startRefresh (abortInFlight s connection.id) connection identity, .waiting s.supply)
    | none => (startRefresh s connection identity, .waiting s.supply)

inductive FetchOutcome (U : Type) where
  | unavailable
  | usage (usage : U)
  | failed (errorName : String)

def storeSnapshot (s : GuardState W U) (r : Refresh W U) (snapshot : Snapshot W) : GuardState W U :=
  let stored := { snapshot with evidenceIdentity := some r.identity }
  setRefresh { s with
      memoryCache := setBounded s.memoryCache r.connection.id
        { identity := r.identity, snapshot := stored, fetchedAt := snapshot.fetchedAt } }
    { r with persist := some stored }

def setNegative (s : GuardState W U) (r : Refresh W U) (failureClass : String)
    (now : Nat) : GuardState W U :=
  { s with
    negativeCache := setBounded s.negativeCache r.connection.id
      { identity := r.identity, expiresAt := now + negativeCacheTtlMs, failureClass := failureClass } }

def failureClassOf (r : Refresh W U) (errorName : String) : String :=
  if errorName = "TimeoutError" then "timeout" else if r.aborted.isSome then "superseded" else "fetch-error"

/-- The `catch` of a refresh. -/
def refreshFails (s : GuardState W U) (r : Refresh W U) (errorName : String)
    (now : Nat) : GuardState W U :=
  let failureClass := failureClassOf r errorName
  let s := setRefresh s { r with phase := .returned { failureClass := some failureClass } }
  if inFlight s r.connection.id = some r.id ∧ failureClass ≠ "superseded" then setNegative s r failureClass now else s

variable (derive : U → Nat → Option (Snapshot W))

def fetchSettles (s : GuardState W U) (r : Refresh W U) (outcome : FetchOutcome U)
    (now : Nat) : GuardState W U :=
  match outcome, r.aborted with
  | .failed errorName, _ => refreshFails s r errorName now
  | _, some reason => refreshFails s r reason now
  | outcome, none =>
    if inFlight s r.connection.id ≠ some r.id then
      setRefresh s { r with phase := .returned { failureClass := some "superseded" } }
    else
      match outcome with
      | .usage usage =>
        match derive usage now with
        | some snapshot =>
          let s := { s with negativeCache := s.negativeCache.erase r.connection.id }
          let fetched := { snapshot := some snapshot, rawUsage := some usage }
          storeSnapshot s { r with phase := .retaining fetched } snapshot
        | none =>
          let s := setNegative s r "empty" now
          setRefresh s { r with phase := .retaining { rawUsage := some usage, failureClass := some "empty" } }
      | _ => setRefresh s { r with phase := .returned { unavailable := true } }

def retainSettles (s : GuardState W U) (r : Refresh W U) (fetched : Fetched W U)
    (error : Option String) (now : Nat) :
    GuardState W U :=
  match error with
  | some errorName => refreshFails s r errorName now
  | none => setRefresh s { r with phase := .returned fetched }

def refreshEnds (s : GuardState W U) (r : Refresh W U) (fetched : Fetched W U) : GuardState W U :=
  setRefresh { s with
      inFlightRefreshes :=
        if inFlight s r.connection.id = some r.id then s.inFlightRefreshes.erase r.connection.id else s.inFlightRefreshes }
    { r with phase := .settled fetched }

/-! ### Calls -/

variable (pauses : Connection W → Option (Snapshot W) → Bool)

def quotaResult (connection : Connection W) (snapshot : Option (Snapshot W)) (rawUsage : Option U)
    (failureClass : Option String) : QuotaResult W U where
  paused := pauses connection snapshot
  reason := if pauses connection snapshot then "below-threshold" else if snapshot.isSome then "ok" else "no-data"
  snapshot := snapshot
  rawUsage := rawUsage
  failureClass := failureClass

def noSnapshot (reason : String) : QuotaResult W U := { paused := false, reason := reason, snapshot := none, rawUsage := none }

def fetchedResult (connection : Connection W) (fetched : Fetched W U) : QuotaResult W U :=
  if fetched.unavailable then noSnapshot "required-proxy-unavailable"
  else
    quotaResult pauses connection fetched.snapshot (if fetched.snapshot.isSome then fetched.rawUsage else none) fetched.failureClass

/-- A call from where its route is resolved (none if a required one is unavailable) to
its first await or its end. -/
def evaluateQuota (s : GuardState W U) (connection : Connection W) (proxyOptions : Option String)
    (now : Nat) :
    GuardState W U × CallPhase W U :=
  if connection.eligible = false then (s, .done (noSnapshot "ineligible"))
  else
    match proxyOptions with
    | none => (s, .done (noSnapshot "required-proxy-unavailable"))
    | some proxyOptions =>
      let identity := quotaEvidenceIdentity connection proxyOptions
      match readSnapshot s connection identity now with
      | (s, some snapshot) => (s, .done (quotaResult pauses connection (some snapshot) none none))
      | (s, none) =>
        match staleSnapshot s connection identity with
        | (s, some snapshot) =>
          -- the stale snapshot answers now, and the refresh catches up
          ((scheduleRefresh s connection identity now).1, .done (quotaResult pauses connection (some snapshot) none none))
        | (s, none) => scheduleRefresh s connection identity now

/-- `_clearQuotaCache` -/
def clearQuotaCache (s : GuardState W U) : Option String → GuardState W U
  | some id =>
    let s := abortInFlight s id
    { s with
      memoryCache := s.memoryCache.erase id
      negativeCache := s.negativeCache.erase id
      inFlightRefreshes := s.inFlightRefreshes.erase id }
  | none =>
    let s := s.inFlightRefreshes.rows.foldl (fun s entry => abortInFlight s entry.1) s
    { s with memoryCache := .empty, negativeCache := .empty, inFlightRefreshes := .empty }

/-! ### Runs -/

inductive GuardOp (W U : Type) where
  | evaluate (id : Nat) (connection : Connection W) (proxyOptions : Option String)
  | resume (call : Nat)
  | cancel (call : Nat)
  | fetched (refresh : Nat) (outcome : FetchOutcome U)
  | retained (refresh : Nat) (error : Option String)
  | ended (refresh : Nat)
  | timeout (refresh : Nat)
  | persists (refresh : Nat) (committed : Bool)
  | clear (connection : Option String)

def refreshStep (s : GuardState W U) (r : Refresh W U) (now : Nat) : GuardOp W U → GuardState W U
  | .fetched _ outcome =>
    match r.phase with
    | .fetching => fetchSettles derive s r outcome now
    | _ => s
  | .retained _ error =>
    match r.phase with
    | .retaining fetched => retainSettles s r fetched error now
    | _ => s
  | .ended _ =>
    match r.phase with
    | .returned fetched => refreshEnds s r fetched
    | _ => s
  | .timeout _ =>
    match r.phase with
    | .fetching => setRefresh s { r with aborted := r.aborted.or (some "TimeoutError") }
    | .retaining _ => setRefresh s { r with aborted := r.aborted.or (some "TimeoutError") }
    | _ => s
  | .persists _ committed =>
    match r.persist with
    | some snapshot =>
      -- an aborted refresh is refused by the transaction
      if committed ∧ r.aborted = none then
        setRefresh { s with persisted := s.persisted ++ [(r.id, snapshot)] } { r with persist := none }
      else setRefresh s { r with persist := none }
    | none => s
  | _ => s

def resumeCall (s : GuardState W U) (call : Call W U) : Call W U :=
  match call.phase with
  | .waiting refresh =>
    match (s.refreshes.get? refresh).map Refresh.phase with
    | some (RefreshPhase.settled fetched) => { call with phase := .done (fetchedResult pauses call.connection fetched) }
    | _ => call
  | .resolved fetched => { call with phase := .done (fetchedResult pauses call.connection fetched) }
  | _ => call

def cancelCall (call : Call W U) : Call W U :=
  match call.phase with
  | .waiting _ => { call with phase := .cancelled }
  | .resolved _ => { call with phase := .cancelled }
  | _ => call

def GuardOp.refresh? : GuardOp W U → Option Nat
  | .fetched refresh _ => some refresh
  | .retained refresh _ => some refresh
  | .ended refresh => some refresh
  | .timeout refresh => some refresh
  | .persists refresh _ => some refresh
  | _ => none

structure GuardRun (W U : Type) where
  state : GuardState W U := {}
  calls : Table (Call.id : Call W U → Nat) := .empty

def mapCall (calls : Table (Call.id : Call W U → Nat)) (id : Nat)
    (f : Call W U → Call W U) : Table (Call.id : Call W U → Nat) :=
  match calls.get? id with
  | some call => calls.put (f call)
  | none => calls

def guardStep (g : GuardRun W U) (op : Nat × GuardOp W U) : GuardRun W U :=
  match op.2 with
  | .evaluate id connection proxyOptions =>
    if (g.calls.get? id).isSome then g
    else
      let evaluated := evaluateQuota pauses g.state connection proxyOptions op.1
      { state := evaluated.1
        calls := g.calls.put
          { id := id
            connection := connection
            identity := quotaEvidenceIdentity connection (proxyOptions.getD "")
            phase := evaluated.2 } }
  | .resume id => { g with calls := mapCall g.calls id (resumeCall pauses g.state) }
  | .cancel id => { g with calls := mapCall g.calls id cancelCall }
  | .clear connection => { g with state := clearQuotaCache g.state connection }
  | refreshOp =>
    match refreshOp.refresh?.bind g.state.refreshes.get? with
    | some r => { g with state := refreshStep derive g.state r op.1 refreshOp }
    | none => g

end TokenProxy.QuotaGuard
