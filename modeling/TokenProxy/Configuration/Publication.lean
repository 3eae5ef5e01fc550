import Mathlib.Logic.Function.Basic
import TokenProxy.Configuration.History

/-!
# Publications, drafts and direct saves

`publishConfiguration` stages a receipt in one transaction, checks and applies in a second one, then
flushes, refreshes the runtime and appends a final receipt; a transaction that throws leaves a
receipt of the failure. `restoreConfigurationSelection` makes a draft of parts of an old version. A
direct save is a repository's own write and `recordConfigMutation`, in one transaction.

A step below is one transaction or one statement of one operation. Operations have numbers of their
own (their `operationId`), and between any two of their steps other operators and other processes
act.
-/

namespace TokenProxy.Configuration

open TokenProxy.Lib

def MAX_SAFE_INTEGER : Nat := 2 ^ 53 - 1

/-- `/^[a-f0-9]{64}$/` -/
def isHash (value : String) : Bool :=
  value.length == 64 && value.toList.all fun c => ('a' ≤ c && c ≤ 'f') || ('0' ≤ c && c ≤ '9')

def requireHash (value : String) : Except Thrown Unit := require (isHash value = true) (refusal "expected_current_required" 400)

def requireRevision (value : Nat) : Except Thrown Unit :=
  require (1 ≤ value ∧ value ≤ MAX_SAFE_INTEGER) (refusal "expected_revision_required" 400)

def positiveId (value : Nat) : Except Thrown Unit :=
  require (1 ≤ value ∧ value ≤ MAX_SAFE_INTEGER) (refusal "invalid_version_id" 400)

inductive Publish where
  | activate (draftId expectedRevision : Nat)
  | rollback (versionId : Nat)
  deriving DecidableEq

def Publish.action : Publish → Action
  | .activate _ _ => .activate
  | .rollback _ => .rollback

def Publish.kind : Publish → VersionKind
  | .activate _ _ => .activation
  | .rollback _ => .rollback

structure PublishRequest where
  publish : Publish
  expectedCurrent : String
  consent : List String
  deriving DecidableEq

/-- The first checks of `publishConfiguration`. -/
def PublishRequest.check (request : PublishRequest) : Except Thrown Unit := do
  requireHash request.expectedCurrent
  match request.publish with
  | .activate _ expectedRevision => requireRevision expectedRevision
  | .rollback versionId => positiveId versionId

variable {σ δ : Type} (repo : Repository σ δ)

def requiredDraft (db : Database σ δ) (id : Nat) (revision : Nat) : Except Thrown Draft :=
  match db.drafts.get? id with
  | none => .error (refusal "draft_not_found" 404)
  | some draft =>
    if revision ≠ draft.revision then
      .error (.configuration
        { code := "draft_revision_conflict", status := 409, currentHash := none,
          currentRevision := some draft.revision, validation := none })
    else .ok draft

def checkCurrent (db : Database σ δ) (expectedCurrent : String) : Except Thrown δ := do
  let document ← repo.read db.store
  require (repo.configHash document = expectedCurrent)
    (.configuration
      { code := "configuration_conflict", status := 409, currentHash := some (repo.configHash document),
        currentRevision := none, validation := none })
  pure document

def findTarget (db : Database σ δ) : Publish → Except Thrown (Version δ)
  | .activate draftId expectedRevision => do
    let draft ← requiredDraft db draftId expectedRevision
    match readConfigVersion db draft.currentVersionId with
    | some target => .ok target
    | none => .error .other
  | .rollback versionId =>
    match readConfigVersion db versionId with
    | some target => if target.kind = .draft then .error (refusal "published_version_required" 404) else .ok target
    | none => .error (refusal "published_version_required" 404)

/-- The first transaction of `publishConfiguration`. -/
def stage (request : PublishRequest) (operationId : Nat) (faults : WriteFaults)
    (db : Database σ δ) :
    Except Thrown (Database σ δ × Version δ × Receipt) := do
  let before ← repo.read db.store
  let target ← findTarget db request.publish
  let (db, staged) ← appendConfigReceipt db
    { operationId, action := request.publish.action, outcome := .staged, beforeVersionId := none, afterVersionId := none,
      targetVersionId := some target.id, beforeHash := some (repo.configHash before), afterHash := none,
      details := .staged request.expectedCurrent, provenance := operator } faults.receipt
  pure (db, target, staged)

def checkDraft (db : Database σ δ) (request : PublishRequest) : Except Thrown Unit :=
  match request.publish with
  | .rollback _ => .ok ()
  | .activate draftId expectedRevision => do
    let draft ← requiredDraft db draftId expectedRevision
    require (repo.requireDraftBase = false ∨ draft.baseHash = request.expectedCurrent)
      (.configuration
        { code := "draft_base_conflict", status := 409, currentHash := some request.expectedCurrent,
          currentRevision := none, validation := none })

structure Applied (δ : Type) where
  before : δ
  published : Version δ
  receipt : Receipt
  deriving DecidableEq

/-- The second transaction of `publishConfiguration`. -/
def apply (request : PublishRequest) (target : Version δ) (operationId : Nat) (faults : WriteFaults)
    (db : Database σ δ) : Except Thrown (Database σ δ × Applied δ) := do
  let before ← checkCurrent repo db request.expectedCurrent
  checkDraft repo db request
  let result ← repo.validate db.store target.document (some ⟨before, request.consent⟩)
  require (result.valid = true)
    (.configuration
      { code := "configuration_invalid", status := 422, currentHash := none, currentRevision := none,
        validation := some result })
  let (db, parent) ← snapshotCurrent repo db before operator faults.snapshot
  attempt faults.store
  let store ← repo.write db.store target.document
  let after ← repo.read store
  require (repo.canonicalConfig after = repo.canonicalConfig target.document)
    (refusal "configuration_readback_mismatch" 500)
  let (db, published) ← insertConfigVersion repo { db with store } after
    { kind := request.publish.kind, parentVersionId := some parent.id, draftId := none, revision := none,
      provenance := operator } faults.version
  let (db, receipt) ← appendConfigReceipt db
    { operationId, action := request.publish.action, outcome := .applied, beforeVersionId := some parent.id,
      afterVersionId := some published.id, targetVersionId := some target.id, beforeHash := some parent.contentHash,
      afterHash := some published.contentHash, details := .publication .pending, provenance := operator } faults.receipt
  pure (db, ⟨before, published, receipt⟩)

/-- The error that `publishConfiguration` throws when its second transaction threw `error`. -/
def publishError (error : Thrown) (currentHash : String) : ConfigurationError :=
  match error with
  | .configuration e => { e with currentHash := some currentHash }
  | .other =>
    { code := "configuration_write_failed", status := 500, currentHash := some currentHash, currentRevision := none,
      validation := none }

def Thrown.isConflict : Thrown → Bool
  | .configuration e => e.status = 409
  | .other => false

/-- The receipt of a second transaction that threw `error`. -/
def reportFailure (request : PublishRequest) (target : Version δ) (staged : Receipt)
    (operationId : Nat) (error : Thrown)
    (fault : Bool) (db : Database σ δ) : Except Thrown (Database σ δ × ConfigurationError) := do
  let current ← repo.read db.store
  let currentHash := repo.configHash current
  let thrown := publishError error currentHash
  let (db, _) ← appendConfigReceipt db
    { operationId, action := request.publish.action, outcome := if error.isConflict then .conflict else .failed,
      beforeVersionId := none, afterVersionId := none, targetVersionId := some target.id, beforeHash := staged.beforeHash,
      afterHash := some currentHash, details := .failure thrown.code, provenance := operator } fault
  pure (db, thrown)

def finalize (request : PublishRequest) (target : Version δ) (applied : Applied δ)
    (operationId : Nat) (refreshed fault : Bool)
    (db : Database σ δ) : Except Thrown (Database σ δ × Receipt) :=
  appendConfigReceipt db
    { operationId, action := request.publish.action, outcome := if refreshed then .applied else .partial_,
      beforeVersionId := applied.receipt.beforeVersionId, afterVersionId := some applied.published.id,
      targetVersionId := some target.id, beforeHash := applied.receipt.beforeHash,
      afterHash := some applied.published.contentHash,
      details := .publication (if refreshed then .applied else .failed), provenance := operator } fault

/-- The transaction of `createConfigurationDraft`. -/
def createDraft (projected : δ) (expectedCurrent : String)
    (restoration : Option (Nat × List String)) (operationId : Nat)
    (faults : WriteFaults) (db : Database σ δ) : Except Thrown (Database σ δ × Draft × Receipt) := do
  let current ← checkCurrent repo db expectedCurrent
  let (db, parent) ← snapshotCurrent repo db current operator faults.snapshot
  let (db, version) ← insertConfigVersion repo db projected
    { kind := .draft, parentVersionId := some parent.id, draftId := some operationId, revision := some 1,
      provenance := operator } faults.version
  attempt faults.draft
  require (db.drafts.get? operationId = none) .other
  let draft : Draft := { id := operationId, baseHash := expectedCurrent, currentVersionId := version.id, revision := 1 }
  let (db, receipt) ← appendConfigReceipt { db with drafts := db.drafts.put draft }
    { operationId, action := .draftCreated, outcome := .applied, beforeVersionId := some parent.id, afterVersionId := none,
      targetVersionId := some version.id, beforeHash := some expectedCurrent, afterHash := some expectedCurrent,
      details := .draft restoration, provenance := operator } faults.receipt
  pure (db, draft, receipt)

/-- The transaction of `reviseConfigurationDraft`. -/
def reviseDraft (id : Nat) (projected : δ) (expectedRevision operationId : Nat)
    (faults : WriteFaults) (db : Database σ δ) : Except Thrown (Database σ δ × Draft) := do
  let draft ← requiredDraft db id expectedRevision
  let (db, version) ← insertConfigVersion repo db projected
    { kind := .draft, parentVersionId := some draft.currentVersionId, draftId := some id,
      revision := some (draft.revision + 1), provenance := operator } faults.version
  attempt faults.draft
  let revised : Draft := { draft with currentVersionId := version.id, revision := draft.revision + 1 }
  let (db, _) ← appendConfigReceipt { db with drafts := db.drafts.put revised }
    { operationId, action := .draftRevised, outcome := .applied, beforeVersionId := none, afterVersionId := none,
      targetVersionId := some version.id, beforeHash := none, afterHash := none, details := .draft none,
      provenance := operator } faults.receipt
  pure (db, revised)

/-- The transaction of `validateConfigurationDraft`. -/
def validateDraft (id expectedRevision operationId : Nat) (faults : WriteFaults)
    (db : Database σ δ) :
    Except Thrown (Database σ δ × Validation) := do
  let draft ← requiredDraft db id expectedRevision
  match readConfigVersion db draft.currentVersionId with
  | none => .error .other
  | some version => do
    let result ← repo.validate db.store version.document none
    let current ← repo.read db.store
    let currentHash := some (repo.configHash current)
    let (db, _) ← appendConfigReceipt db
      { operationId, action := .validate, outcome := if result.valid then .applied else .failed, beforeVersionId := none,
        afterVersionId := none, targetVersionId := some version.id, beforeHash := currentHash, afterHash := currentHash,
        details := .validation result, provenance := operator } faults.receipt
    pure (db, result)

/-- The reads of `restoreConfigurationSelection`: the document that `select`
takes from the two versions. -/
def selectDocument (versionId : Nat) (expectedCurrent : String) (select : δ → δ → Except Thrown δ)
    (db : Database σ δ) :
    Except Thrown δ := do
  positiveId versionId
  requireHash expectedCurrent
  let current ← checkCurrent repo db expectedCurrent
  match readConfigVersion db versionId with
  | none => .error (refusal "published_version_required" 404)
  | some target =>
    if target.kind = .draft then .error (refusal "published_version_required" 404) else select current target.document

/-- The transaction of a direct save whose own statements are `mutation`. -/
def directSave (mutation : σ → Except Thrown σ) (source : String) (operationId : Nat)
    (faults : WriteFaults) (db : Database σ δ) : Except Thrown (Database σ δ × Option Receipt) := do
  let before ← repo.read db.store
  attempt faults.store
  let store ← mutation db.store
  recordConfigMutation repo { db with store } before source operationId faults

/-! ### Operations -/

inductive Result (δ : Type) where
  | published (outcome : Outcome) (version : Version δ) (receipt : Receipt)
  | drafted (draft : Draft)
  | validated (result : Validation)
  | saved (receipt : Option Receipt)
  deriving DecidableEq

inductive Phase (δ : Type) where
  | ready
  | drafting (document : δ) (expectedCurrent : String) (restoration : Option (Nat × List String))
  | staged (request : PublishRequest) (target : Version δ) (receipt : Receipt)
  /-- the second transaction threw and is rolled back -/
  | refused (request : PublishRequest) (target : Version δ) (receipt : Receipt) (error : Thrown)
  | committed (request : PublishRequest) (target : Version δ) (applied : Applied δ)
  | flushed (request : PublishRequest) (target : Version δ) (applied : Applied δ)
  | refreshed (request : PublishRequest) (target : Version δ) (applied : Applied δ) (success : Bool)
  | threw (error : Thrown)
  | returned (result : Result δ)
  deriving DecidableEq

structure State (σ δ : Type) where
  db : Database σ δ
  phase : Nat → Phase δ

inductive Event (σ δ : Type) where
  /-- `publishConfiguration`, its first transaction and flush -/
  | stage (o : Nat) (request : PublishRequest) (faults : WriteFaults) (flush : Bool)
  | apply (o : Nat) (faults : WriteFaults)
  | reportFailure (o : Nat) (fault : Bool)
  | flush (o : Nat) (fault : Bool)
  | refresh (o : Nat) (success : Bool)
  | finalize (o : Nat) (fault flush : Bool)
  /-- `restoreConfigurationSelection` up to its draft; `select` is what `paths`
  take from the two documents -/
  | select (o : Nat) (versionId : Nat) (expectedCurrent : String) (paths : List String) (select : δ → δ → Except Thrown δ)
  /-- `createConfigurationDraft` up to its transaction -/
  | draft (o : Nat) (document : δ) (expectedCurrent : String)
  | createDraft (o : Nat) (faults : WriteFaults) (flush : Bool)
  | reviseDraft (o : Nat) (id : Nat) (document : δ) (expectedRevision : Nat) (faults : WriteFaults) (flush : Bool)
  | validateDraft (o : Nat) (id expectedRevision : Nat) (faults : WriteFaults) (flush : Bool)
  | directSave (o : Nat) (mutation : σ → Except Thrown σ) (source : String) (faults : WriteFaults)
  /-- a write outside the history -/
  | uncovered (write : σ → σ)

namespace State

variable {repo}

def setPhase (st : State σ δ) (o : Nat) (phase : Phase δ) : State σ δ :=
  { st with phase := Function.update st.phase o phase }

/-- An operation's step on the database: it throws or goes on to its next phase. -/
def settle {α : Type} (st : State σ δ) (o : Nat)
    (next : α → Phase δ) : Database σ δ × Except Thrown α → State σ δ
  | (db, .error e) => { st with db }.setPhase o (.threw e)
  | (db, .ok a) => { st with db }.setPhase o (next a)

/-- `createConfigurationDraft` up to its transaction: its checks and the projected document. -/
def beginDraft (repo : Repository σ δ) (st : State σ δ) (o : Nat) (document : δ)
    (expectedCurrent : String) (restoration : Option (Nat × List String)) : State σ δ :=
  match requireHash expectedCurrent, repo.assert document with
  | .error e, _ => st.setPhase o (.threw e)
  | .ok (), .error e => st.setPhase o (.threw e)
  | .ok (), .ok projected => st.setPhase o (.drafting projected expectedCurrent restoration)

/-- `persistedTransaction`: a flush that fails is thrown, though the transaction is committed. -/
def persisted {α : Type} (flush : Bool) (next : α → Phase δ)
    (a : α) : Phase δ := if flush then .threw .other else next a

end State

def step (st : State σ δ) : Event σ δ → State σ δ
  | .stage o request faults flush =>
    match st.phase o, request.check with
    | .ready, .error e => st.setPhase o (.threw e)
    | .ready, .ok () =>
      st.settle o (fun (target, receipt) =>
        if flush then
          .threw (.configuration
            { code := "configuration_stage_persistence_failed", status := 500, currentHash := receipt.beforeHash,
              currentRevision := none, validation := none })
        else .staged request target receipt)
        (transaction (stage repo request o faults) faults.commitError st.db)
    | _, _ => st
  | .apply o faults =>
    match st.phase o with
    | .staged request target receipt =>
      match transaction (apply repo request target o faults) faults.commitError st.db with
      | (db, .error e) => { st with db }.setPhase o (.refused request target receipt e)
      | (db, .ok applied) => { st with db }.setPhase o (.committed request target applied)
    | _ => st
  | .reportFailure o fault =>
    match st.phase o with
    | .refused request target receipt error =>
      st.settle o (fun thrown => .threw (.configuration thrown))
        (transaction (reportFailure repo request target receipt o error fault) none st.db)
    | _ => st
  | .flush o fault =>
    match st.phase o with
    | .committed request target applied =>
      st.setPhase o
        (if fault then .returned (.published .partial_ applied.published applied.receipt)
        else .flushed request target applied)
    | _ => st
  | .refresh o success =>
    match st.phase o with
    | .flushed request target applied => st.setPhase o (.refreshed request target applied success)
    | _ => st
  | .finalize o fault flush =>
    match st.phase o with
    | .refreshed request target applied success =>
      match transaction (finalize request target applied o success fault) none st.db with
      | (db, .error _) => { st with db }.setPhase o (.returned (.published .partial_ applied.published applied.receipt))
      | (db, .ok receipt) =>
        { st with db }.setPhase o (.returned
          (if flush then .published .partial_ applied.published applied.receipt
          else .published receipt.outcome applied.published receipt))
    | _ => st
  | .select o versionId expectedCurrent paths select =>
    match st.phase o with
    | .ready =>
      match selectDocument repo versionId expectedCurrent select st.db with
      | .error e => st.setPhase o (.threw e)
      | .ok document => st.beginDraft repo o document expectedCurrent (some (versionId, paths))
    | _ => st
  | .draft o document expectedCurrent =>
    match st.phase o with
    | .ready => st.beginDraft repo o document expectedCurrent none
    | _ => st
  | .createDraft o faults flush =>
    match st.phase o with
    | .drafting document expectedCurrent restoration =>
      st.settle o (State.persisted flush fun (draft, _) => .returned (.drafted draft))
        (transaction (createDraft repo document expectedCurrent restoration o faults) faults.commitError st.db)
    | _ => st
  | .reviseDraft o id document expectedRevision faults flush =>
    match st.phase o, (do requireRevision expectedRevision; repo.assert document : Except Thrown δ) with
    | .ready, .error e => st.setPhase o (.threw e)
    | .ready, .ok projected =>
      st.settle o (State.persisted flush fun draft => .returned (.drafted draft))
        (transaction (reviseDraft repo id projected expectedRevision o faults) faults.commitError st.db)
    | _, _ => st
  | .validateDraft o id expectedRevision faults flush =>
    match st.phase o, requireRevision expectedRevision with
    | .ready, .error e => st.setPhase o (.threw e)
    | .ready, .ok () =>
      st.settle o (State.persisted flush fun result => .returned (.validated result))
        (transaction (validateDraft repo id expectedRevision o faults) faults.commitError st.db)
    | _, _ => st
  | .directSave o mutation source faults =>
    match st.phase o with
    | .ready =>
      st.settle o (fun receipt => .returned (.saved receipt))
        (transaction (directSave repo mutation source o faults) faults.commitError st.db)
    | _ => st
  | .uncovered write => { st with db := { st.db with store := write st.db.store } }

def newState (store : σ) : State σ δ := { db := ⟨store, [], .empty, []⟩, phase := fun _ => .ready }

end TokenProxy.Configuration
