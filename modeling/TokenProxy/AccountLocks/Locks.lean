import TokenProxy.Lib.Table

/-!
# Model locks of an account

A connection carries a field for each model that is locked on it, and beside it the metadata of the
failure that locked it. A field is absent, null or set. `markAccountUnavailable` sets a pair of
them, `clearAccountError` makes pairs null; both are written as a patch that is merged into the row.
-/

namespace TokenProxy.AccountLocks

open Lib (Dict Table)

/-- A lock. `written` counts the writes of the row before the one that
put it there, for the record. -/
structure Lock where
  endsAt : Nat
  written : Nat
  deriving DecidableEq

inductive FailureClass where
  | rate
  | quota
  | credential
  | upstream
  deriving DecidableEq

structure ModelFailure where
  status : Nat
  message : String
  endsAt : Nat
  resetsAt : Option Nat := none
  clientErrorStatus : Option Nat := none
  unknownModelVerified : Bool := false
  failureClass : Option FailureClass := none
  deriving DecidableEq

inductive TestStatus where
  | active
  | unavailable
  | reauthRequired
  | other (status : String)
  deriving DecidableEq

structure Connection where
  locks : Dict String (Option Lock) := Table.empty
  failures : Dict String (Option ModelFailure) := Table.empty
  isActive : Bool := true
  testStatus : Option TestStatus := none
  lastError : Option String := none
  errorCode : Option Nat := none
  lastErrorAt : Option Nat := none
  backoffLevel : Nat := 0

/-- A request names a model, or locks and clears the account as a whole. -/
def named (model : Option String) : Bool := model.any (· ≠ "")

def allModels : String := "__all"

/-- `getModelLockKey` and `getModelFailureKey`, without the prefix of the field. -/
def modelKey (model : Option String) : String := if named model then model.getD allModels else allModels

namespace Connection

def lock (c : Connection) (k : String) : Option Lock := (c.locks.lookup k).join

def failure (c : Connection) (k : String) : Option ModelFailure := (c.failures.lookup k).join

def hasLockKey (c : Connection) (k : String) : Bool := (c.locks.lookup k).isSome

def hasFailureKey (c : Connection) (k : String) : Bool := (c.failures.lookup k).isSome

end Connection

def Lock.active (l : Lock) (now : Nat) : Bool := now < l.endsAt

/-! ### Patches -/

/-- What a write changes: it sets a pair, or makes fields null; none leaves a field as it is. -/
structure Patch where
  set : Option (String × ModelFailure) := none
  clearLocks : List String := []
  clearFailures : List String := []
  isActive : Option Bool := none
  testStatus : Option TestStatus := none
  lastError : Option (Option String) := none
  errorCode : Option (Option Nat) := none
  lastErrorAt : Option (Option Nat) := none
  backoffLevel : Option Nat := none

/-- Make the fields `ks` null. -/
def setNull {ν : Type} (d : Dict String (Option ν)) (ks : List String) : Dict String (Option ν) :=
  ks.foldl (fun d k => d.put (k, none)) d

theorem lookup_setNull {ν : Type} (d : Dict String (Option ν)) (ks : List String) (k : String) :
    (setNull d ks).lookup k = if k ∈ ks then some none else d.lookup k := by
  induction ks generalizing d with
  | nil => simp [setNull]
  | cons k' ks ih =>
    show (setNull (d.put (k', none)) ks).lookup k = _
    rw [ih, Table.lookup_put]
    by_cases hk : k ∈ ks
    · simp [hk]
    · by_cases hkk : k = k' <;> simp [hk, hkk]

/-- The merge of `updateProviderConnection`; `written` is the number of this write. -/
def merge (c : Connection) (patch : Patch) (written : Nat) : Connection :=
  let locks := setNull c.locks patch.clearLocks
  let failures := setNull c.failures patch.clearFailures
  { locks := match patch.set with
      | some (k, failure) => locks.put (k, some { endsAt := failure.endsAt, written })
      | none => locks
    failures := match patch.set with
      | some (k, failure) => failures.put (k, some failure)
      | none => failures
    isActive := patch.isActive.getD c.isActive
    testStatus := (patch.testStatus.map some).getD c.testStatus
    lastError := patch.lastError.getD c.lastError
    errorCode := patch.errorCode.getD c.errorCode
    lastErrorAt := patch.lastErrorAt.getD c.lastErrorAt
    backoffLevel := patch.backoffLevel.getD c.backoffLevel }

theorem merge_locks (c : Connection) (patch : Patch) (written : Nat) (k : String) :
    (merge c patch written).locks.lookup k =
      match patch.set with
      | some (k', failure) =>
        if k = k' then some (some { endsAt := failure.endsAt, written }) else if k ∈ patch.clearLocks then some none else c.locks.lookup k
      | none => if k ∈ patch.clearLocks then some none else c.locks.lookup k := by
  unfold merge
  cases patch.set with
  | none => exact lookup_setNull _ _ _
  | some pair => rw [← lookup_setNull]; exact Table.lookup_put _ _ _ _

theorem merge_failures (c : Connection) (patch : Patch) (written : Nat) (k : String) :
    (merge c patch written).failures.lookup k =
      match patch.set with
      | some (k', failure) => if k = k' then some (some failure) else if k ∈ patch.clearFailures then some none else c.failures.lookup k
      | none => if k ∈ patch.clearFailures then some none else c.failures.lookup k := by
  unfold merge
  cases patch.set with
  | none => exact lookup_setNull _ _ _
  | some pair => rw [← lookup_setNull]; exact Table.lookup_put _ _ _ _

/-! ### `markAccountUnavailable` -/

/-- `checkFallbackError` -/
structure Fallback where
  shouldFallback : Bool
  cooldownMs : Nat
  newBackoffLevel : Option Nat := none
  deriving DecidableEq

/-- A failure, and what the classifiers say of it: the fallback depends on the backoff level. -/
structure Failure where
  status : Nat
  reason : String
  permanentOAuth : Bool := false
  qoderQuotaExhausted : Bool := false
  githubResetAtMs : Option Nat := none
  unknownModelVerified : Bool := false
  clientErrorStatus : Option Nat := none
  resetsAtMs : Option Nat := none
  lockClass : FailureClass
  hasHeadroom : Bool := false
  retryDelayCapMs : Nat
  fallback : Nat → Fallback

def unknownModelLockMs : Nat := 24 * 60 * 60 * 1000

def headroomRetryCeilingMs : Nat := 60 * 1000

/-- The end of the lock, and the backoff level that goes with it. -/
def lockUntil (f : Failure) (backoffLevel now : Nat) : Nat × Option Nat :=
  match f.githubResetAtMs, f.resetsAtMs.filter (now < ·) with
  | some reset, _ => (reset, some 0)
  | none, some resetsAt =>
    if f.lockClass = .quota then (resetsAt, some 0)
    else
      let requested := resetsAt - now
      let cap := if f.status = 429 ∧ headroomRetryCeilingMs < requested ∧ f.hasHeadroom then
          min f.retryDelayCapMs headroomRetryCeilingMs else f.retryDelayCapMs
      (now + min requested cap, some 0)
  | none, none =>
    let result := f.fallback backoffLevel
    (now + if result.newBackoffLevel.getD 0 ≠ 0 then min result.cooldownMs f.retryDelayCapMs else result.cooldownMs,
      result.newBackoffLevel)

/-- The patch of `markAccountUnavailable`, from the backoff level it read;
none where it writes nothing. -/
def markPatch (f : Failure) (model : Option String) (backoffLevel now : Nat) : Option Patch :=
  if f.permanentOAuth then
    some { isActive := some false, testStatus := some .reauthRequired, lastError := some (some f.reason)
           errorCode := some (some f.status), lastErrorAt := some (some now), backoffLevel := some 0 }
  else if f.qoderQuotaExhausted then
    some { isActive := some false, testStatus := some .unavailable, lastError := some (some f.reason), errorCode := some (some 403)
           lastErrorAt := some (some now), backoffLevel := some 0 }
  else if f.unknownModelVerified ∧ named model then
    some { set := some (modelKey model,
             { status := f.status, message := f.reason, endsAt := now + unknownModelLockMs, clientErrorStatus := f.clientErrorStatus
               unknownModelVerified := true })
           lastError := some (some f.reason), errorCode := some (some f.status), lastErrorAt := some (some now) }
  else if (f.fallback backoffLevel).shouldFallback then
    let (ending, level) := lockUntil f backoffLevel now
    some { set := some (modelKey (if f.githubResetAtMs.isSome then none else model),
             { status := f.status, message := f.reason, endsAt := ending, resetsAt := f.resetsAtMs
               clientErrorStatus := f.clientErrorStatus, unknownModelVerified := f.unknownModelVerified
               failureClass := some f.lockClass })
           testStatus := some .unavailable, lastError := some (some f.reason), errorCode := some (some f.status)
           lastErrorAt := some (some now), backoffLevel := some (level.getD backoffLevel) }
  else none

theorem markPatch_clears {f : Failure} {model : Option String} {backoffLevel now : Nat}
    {patch : Patch}
    (h : markPatch f model backoffLevel now = some patch) :
    patch.clearLocks = [] ∧ patch.clearFailures = [] := by
  unfold markPatch at h
  split at h
  · cases h
    exact ⟨rfl, rfl⟩
  split at h
  · cases h
    exact ⟨rfl, rfl⟩
  split at h
  · cases h
    exact ⟨rfl, rfl⟩
  split at h
  · cases h
    exact ⟨rfl, rfl⟩
  · cases h

/-! ### `clearAccountError` -/

def allLockKeys (c : Connection) : List String := c.locks.rows.map Prod.fst

def expired (c : Connection) (now : Nat) (k : String) : Bool := (c.lock k).any fun l => !l.active now

/-- The locks that a success clears: its own, that of the account, and
those whose end has passed. -/
def keysToClear (c : Connection) (model : Option String) (now : Nat) : List String :=
  (allLockKeys c).filter fun k => (named model && (k = modelKey model || k = allModels)) || expired c now k

def failureKeysToClear (c : Connection) (model : Option String) (now : Nat) : List String :=
  keysToClear c model now ++
    ([modelKey model, allModels].filter fun k => named model && c.hasFailureKey k)

def remainingActiveLocks (c : Connection) (model : Option String) (now : Nat) : List String :=
  (allLockKeys c).filter fun k => k ∉ keysToClear c model now && (c.lock k).any (·.active now)

/-- The patch of `clearAccountError` for the connection as the request has it; none where
it returns without writing. -/
def clearPatch (c : Connection) (model : Option String) (now : Nat) : Option Patch :=
  if c.testStatus = none ∧ c.lastError.getD "" = "" ∧ c.locks.rows = [] ∧ c.failures.rows = [] then none
  else if keysToClear c model now = [] ∧ failureKeysToClear c model now = [] ∧ c.testStatus ≠ some .unavailable ∧
      c.lastError.getD "" = "" then none
  else
    let patch : Patch := { clearLocks := keysToClear c model now, clearFailures := failureKeysToClear c model now }
    if remainingActiveLocks c model now = [] then
      some { patch with
        testStatus := some .active, lastError := some none, errorCode := some none, lastErrorAt := some none, backoffLevel := some 0 }
    else some patch

theorem clearPatch_some {c : Connection} {model : Option String} {now : Nat} {patch : Patch}
    (h : clearPatch c model now = some patch) :
    patch.set = none ∧ patch.clearLocks = keysToClear c model now ∧ patch.clearFailures = failureKeysToClear c model now ∧
      (patch.testStatus = some .active ↔ remainingActiveLocks c model now = []) := by
  unfold clearPatch at h
  split at h
  · cases h
  split at h
  · cases h
  split at h
  · rename_i hremaining
    cases h
    exact ⟨rfl, rfl, rfl, fun _ => hremaining, fun _ => rfl⟩
  · rename_i hremaining
    cases h
    exact ⟨rfl, rfl, rfl, nofun, fun hr => absurd hr hremaining⟩

end TokenProxy.AccountLocks
