import TokenProxy.Lib.Table
import TokenProxy.Lib.Transaction

/-!
# The configuration history

The tables `configVersions`, `configDrafts` and `configReceipts` of one scope, and the helpers that
write them. Versions and receipts are only appended; a draft moves to its next revision.

* `snapshotCurrent`, `insertConfigVersion`, `appendConfigReceipt` are the writes;
* `Repository` is what a scope brings: how its covered configuration is read, written and checked.

The rest of the database is a type of its own. A document is kept as its canonical text, which is
read back as the same document. Every write may throw.
-/

namespace TokenProxy.Configuration

open TokenProxy.Lib

structure Validation where
  valid : Bool
  errors : List (String × Option String)
  deriving DecidableEq

structure ConfigurationError where
  code : String
  status : Nat
  currentHash : Option String
  currentRevision : Option Nat
  validation : Option Validation
  deriving DecidableEq

inductive Thrown where
  | configuration (error : ConfigurationError)
  /-- a statement of the database, an unreadable row -/
  | other
  deriving DecidableEq

/-- `new ConfigurationError(code, status)` -/
def refusal (code : String) (status : Nat) : Thrown :=
  .configuration { code, status, currentHash := none, currentRevision := none, validation := none }

/-- `if (!c) throw error` -/
def require (c : Prop) [Decidable c] (error : Thrown) : Except Thrown Unit := if c then .ok () else .error error

theorem require_ok {c : Prop} [Decidable c] {error : Thrown}
    (h : require c error = .ok ()) : c := by
  unfold require at h
  split at h
  · assumption
  · cases h

def attempt (fault : Bool) : Except Thrown Unit := if fault then .error .other else .ok ()

structure Provenance where
  source : String
  actorClass : String
  deriving DecidableEq

def KNOWN_SOURCES : List String :=
  ["repo.connections.update", "repo.connections.create", "repo.connections.delete", "repo.connections.reorder",
    "repo.proxyPools.update", "repo.proxyPools.create", "repo.proxyPools.delete", "repo.disabledModels.update",
    "repo.shaping.update", "admin.configuration", "repo.combos.create", "repo.combos.update", "repo.combos.delete",
    "repo.aliases.set", "repo.aliases.delete", "repo.settings.update"]

def configProvenance (input : Provenance) : Provenance where
  source := if input.source ∈ KNOWN_SOURCES then input.source else "unknown"
  actorClass := if input.actorClass = "operator" then "operator" else "unverified"

def operator : Provenance := ⟨"admin.configuration", "operator"⟩

inductive VersionKind where
  | snapshot
  | draft
  | activation
  | rollback
  | direct
  deriving DecidableEq

structure VersionOptions where
  kind : VersionKind
  parentVersionId : Option Nat
  draftId : Option Nat
  revision : Option Nat
  provenance : Provenance
  deriving DecidableEq

structure Version (δ : Type) extends VersionOptions where
  id : Nat
  contentHash : String
  document : δ
  deriving DecidableEq

structure Draft where
  id : Nat
  baseHash : String
  currentVersionId : Nat
  revision : Nat
  deriving DecidableEq

inductive Action where
  | activate
  | rollback
  | directSave
  | draftCreated
  | draftRevised
  | validate
  deriving DecidableEq

inductive Outcome where
  | staged
  | applied
  | partial_
  | conflict
  | failed
  deriving DecidableEq

inductive RuntimeRefresh where
  | pending
  | applied
  | failed
  deriving DecidableEq

inductive Details where
  | staged (expectedCurrent : String)
  | publication (runtimeRefresh : RuntimeRefresh)
  | failure (code : String)
  | draft (restoration : Option (Nat × List String))
  | validation (result : Validation)
  | direct
  deriving DecidableEq

structure ReceiptFields where
  operationId : Nat
  action : Action
  outcome : Outcome
  beforeVersionId : Option Nat
  afterVersionId : Option Nat
  targetVersionId : Option Nat
  beforeHash : Option String
  afterHash : Option String
  details : Details
  provenance : Provenance
  deriving DecidableEq

structure Receipt extends ReceiptFields where
  id : Nat
  deriving DecidableEq

structure Database (σ δ : Type) where
  /-- the rest of the database: the covered configuration and the fields excluded from it -/
  store : σ
  versions : List (Version δ)
  drafts : Table (fun d : Draft => d.id)
  receipts : List Receipt

structure Activation (δ : Type) where
  before : δ
  consent : List String

/-- The arguments of `createConfigurationRepository`, and the hash. -/
structure Repository (σ δ : Type) where
  read : σ → Except Thrown δ
  assert : δ → Except Thrown δ
  validate : σ → δ → Option (Activation δ) → Except Thrown Validation
  write : σ → δ → Except Thrown σ
  canonicalConfig : δ → String
  sha256 : String → String
  requireDraftBase : Bool

variable {σ δ : Type}

def Repository.configHash (repo : Repository σ δ)
    (document : δ) : String := repo.sha256 (repo.canonicalConfig document)

def Repository.currentHash (repo : Repository σ δ) (store : σ) : Option String :=
  (repo.read store).toOption.map repo.configHash

def insertConfigVersion (repo : Repository σ δ) (db : Database σ δ) (document : δ)
    (options : VersionOptions) (fault : Bool) : Except Thrown (Database σ δ × Version δ) := do
  attempt fault
  require (options.draftId = none ∨
    ∀ v ∈ db.versions, ¬ (v.draftId = options.draftId ∧ v.revision = options.revision)) .other
  let version : Version δ :=
    { options with
      id := db.versions.length + 1, contentHash := repo.configHash document, document,
      provenance := configProvenance options.provenance }
  pure ({ db with versions := db.versions ++ [version] }, version)

def readConfigVersion (db : Database σ δ) (id : Nat) : Option (Version δ) := db.versions.find? fun v => v.id = id

/-- The latest published version of the document, a new one if it has none. -/
def snapshotCurrent (repo : Repository σ δ) (db : Database σ δ) (document : δ)
    (provenance : Provenance) (fault : Bool) :
    Except Thrown (Database σ δ × Version δ) :=
  match (db.versions.filter fun v => v.contentHash = repo.configHash document ∧ v.kind ≠ .draft).getLast? with
  | some version => .ok (db, version)
  | none =>
    insertConfigVersion repo db document
      { kind := .snapshot, parentVersionId := none, draftId := none, revision := none, provenance } fault

def appendConfigReceipt (db : Database σ δ) (fields : ReceiptFields) (fault : Bool) :
    Except Thrown (Database σ δ × Receipt) := do
  attempt fault
  let receipt : Receipt :=
    { fields with id := db.receipts.length + 1, provenance := configProvenance fields.provenance }
  pure ({ db with receipts := db.receipts ++ [receipt] }, receipt)

structure WriteFaults where
  snapshot : Bool
  store : Bool
  version : Bool
  draft : Bool
  receipt : Bool
  commit : Bool

def WriteFaults.commitError (faults : WriteFaults) : Option Thrown := if faults.commit then some .other else none

/-- `recordConfigMutation`: inside the transaction of a direct save; `null` if the
configuration did not change. -/
def recordConfigMutation (repo : Repository σ δ) (db : Database σ δ) (before : δ) (source : String)
    (operationId : Nat) (faults : WriteFaults) : Except Thrown (Database σ δ × Option Receipt) := do
  let after ← repo.read db.store
  if repo.configHash before = repo.configHash after then pure (db, none)
  else do
    let provenance : Provenance := ⟨source, "unverified"⟩
    let (db, previous) ← snapshotCurrent repo db before provenance faults.snapshot
    let (db, next) ← insertConfigVersion repo db after
      { kind := .direct, parentVersionId := some previous.id, draftId := none, revision := none, provenance } faults.version
    let (db, receipt) ← appendConfigReceipt db
      { operationId, action := .directSave, outcome := .applied, beforeVersionId := some previous.id,
        afterVersionId := some next.id, targetVersionId := none, beforeHash := some previous.contentHash,
        afterHash := some next.contentHash, details := .direct, provenance } faults.receipt
    pure (db, some receipt)

end TokenProxy.Configuration
