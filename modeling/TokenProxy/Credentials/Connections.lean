import TokenProxy.Lib.JsValue
import TokenProxy.Lib.Run
import TokenProxy.Lib.Table

/-!
# Writes to a connection

A row of `providerConnections` has columns and an encrypted JSON blob. Every writer reads the row,
merges and writes it back in one transaction; `upsert` renews the identifier of the credentials when
a field that matters to a refresh differs. A write may be conditional on the revision that its
caller read.

The digest of a revision is taken as what it digests. Priorities are renumbered as a step of its
own, with any numbers; the label and the priority of a new row are given to the operation.
-/

namespace TokenProxy.Credentials

open Lib

abbrev Connection := String → JsValue

def Connection.set (c : Connection) (key : String)
    (value : JsValue) : Connection := fun k => if k = key then value else c k

/-- `{ ...c, ...data }` -/
def Connection.spread (c : Connection) (data : JsFields) : Connection := fun k => if data.has k then data.get k else c k

/-! ### Revisions -/

/-- Only refresh-relevant fields participate (`FIELDS`). -/
def refreshFields : List String :=
  ["provider", "authType", "isActive", "accessToken", "refreshToken", "apiKey", "token", "idToken", "expiresAt",
    "tokenExpiresAt", "lastRefreshAt", "lastRefresh", "projectId", "providerSpecificData"]

mutual

def canonical : JsValue → JsValue
  | .undefined => .null
  | .array items => .array (canonicalItems items)
  | .object fields => .object (canonicalFields fields)
  | v => v

def canonicalItems : JsItems → JsItems
  | .nil => .nil
  | .cons v items => .cons (canonical v) (canonicalItems items)

def canonicalFields : JsFields → JsFields
  | .nil => .nil
  | .cons k v fields => (canonicalFields fields).insert k (canonical v)

end

def credentialContentRevision (c : Connection) : List JsValue := refreshFields.map fun key => canonical (c key)

def revisionId (c : Connection) : JsValue := (c "credentialRevisionId").orElse (.string "legacy")

def credentialRevision (c : Connection) : List JsValue × JsValue := (credentialContentRevision c, revisionId c)

/-! ### Rows -/

def columns : List String :=
  ["id", "provider", "authType", "name", "email", "priority", "isActive", "createdAt", "updatedAt"]

/-- A row, its blob decrypted and parsed: a parsed value holds nothing undefined. -/
structure ConnectionRow where
  id : JsValue
  provider : String
  authType : String
  name : JsValue
  email : JsValue
  priority : JsValue
  isActive : Bool
  data : Connection
  createdAt : JsValue
  updatedAt : JsValue
  data_stored : ∀ k, (data k).stored = data k

structure ConnectionDb where
  rows : Table ConnectionRow.id := .empty
  supply : Nat := 0

def rowToConn (row : ConnectionRow) : Connection := fun k =>
  if k = "id" then row.id
  else if k = "provider" then .string row.provider
  else if k = "authType" then .string row.authType
  else if k = "name" then row.name
  else if k = "email" then row.email
  else if k = "priority" then row.priority
  else if k = "isActive" then .bool row.isActive
  else if k = "createdAt" then row.createdAt
  else if k = "updatedAt" then row.updatedAt
  else row.data k

/-- The text columns that must be there take a string and refuse the rest. -/
def connToRow (c : Connection) : Except String ConnectionRow :=
  match c "provider", c "authType" with
  | .string provider, .string authType => .ok
    { id := c "id"
      provider := provider
      authType := authType
      name := (c "name").nullish .null
      email := (c "email").nullish .null
      priority := (c "priority").nullish .null
      isActive := c "isActive" ≠ .bool false
      data := fun k => if k ∈ columns then .undefined else (c k).stored
      createdAt := c "createdAt"
      updatedAt := c "updatedAt"
      data_stored := fun k => by split <;> first | rfl | exact JsValue.stored_stored _ }
  | _, _ => .error "constraint"

/-- The identifier that the written row carries, whatever the merged object carried. -/
def renewed (db : ConnectionDb) (c : Connection) : Connection × Nat :=
  match db.rows.get? (c "id") with
  | none => (c.set "credentialRevisionId" (.uuid db.supply), db.supply + 1)
  | some previous =>
    if credentialContentRevision (rowToConn previous) ≠ credentialContentRevision c then
      (c.set "credentialRevisionId" (.uuid db.supply), db.supply + 1)
    else if (rowToConn previous "credentialRevisionId").truthy then
      (c.set "credentialRevisionId" (rowToConn previous "credentialRevisionId"), db.supply)
    else (c.set "credentialRevisionId" .undefined, db.supply)

def upsert (db : ConnectionDb) (c : Connection) : Except String ConnectionDb :=
  match connToRow (renewed db c).1 with
  | .error e => .error e
  | .ok row =>
    -- a row that is there keeps when it was created
    let createdAt := ((db.rows.get? row.id).map (·.createdAt)).getD row.createdAt
    .ok { rows := db.rows.put { row with createdAt := createdAt }, supply := (renewed db c).2 }

/-! ### Creating -/

/-- `cleanIdentityValue` -/
def cleanIdentityValue : JsValue → Option String
  | .string s => if trim s.toList = [] then none else some (String.ofList (trim s.toList))
  | .number n => some (toString n)
  | _ => none

/-- The account that a connection's upstream knows, as `connectionIdentity` finds it. -/
def accountIdOf (providerSpecificData : JsValue) : Option String :=
  let psd := providerSpecificData.fields
  cleanIdentityValue ((psd.get "accountId").orElse (psd.get "chatgptAccountId"))

def sameAccount (data : JsFields) (c : Connection) : Bool :=
  let incomingUsername := (data.get "providerSpecificData").fields.get "username"
  let incomingWs := (data.get "providerSpecificData").fields.get "chatgptAccountId"
  let existingUsername := (c "providerSpecificData").fields.get "username"
  let existingWs := (c "providerSpecificData").fields.get "chatgptAccountId"
  if c "authType" ≠ .string "oauth" ∨ c "email" ≠ data.get "email" then false
  else
    match accountIdOf (data.get "providerSpecificData"), accountIdOf (c "providerSpecificData") with
    | some incoming, some existing => incoming = existing
    | some _, none => false
    | none, some _ => false
    | none, none =>
      if data.get "provider" = .string "codex" then incomingWs.truthy && existingWs.truthy && incomingWs = existingWs
      else if incomingWs.truthy ∧ existingWs.truthy then incomingWs = existingWs
      else if incomingWs.truthy ∨ existingWs.truthy then false
      else if incomingUsername.truthy ∧ existingUsername.truthy then incomingUsername = existingUsername
      else !incomingUsername.truthy && !existingUsername.truthy

def findExisting (db : ConnectionDb) (data : JsFields) : Option ConnectionRow :=
  let all := db.rows.rows.filter fun row => JsValue.string row.provider = data.get "provider"
  if data.get "authType" = .string "oauth" ∧ (data.get "email").truthy then
    all.find? fun row => sameAccount data (rowToConn row)
  else if data.get "authType" = .string "apikey" ∧ (data.get "name").truthy then
    all.find? fun row => rowToConn row "authType" = .string "apikey" && rowToConn row "name" = data.get "name" &&
      (rowToConn row "apiKey").orElse (.string "") = (data.get "apiKey").orElse (.string "")
  else none

def clearReauthFailureState (c : Connection) : Connection := fun k =>
  if k ∈ ["lastError", "lastErrorAt", "errorCode", "backoffLevel", "rateLimitedUntil"] ∨ "modelLock_".toList <+: k.toList ∨
      "modelFailure_".toList <+: k.toList then
    .undefined
  else c k

def mergeCodexReauthorization (existing : Connection) (data : JsFields)
    (now : JsValue) : Connection :=
  clearReauthFailureState
    ((((existing.spread data).set "updatedAt" now).set "isActive" (.bool true)).set "testStatus" (.string "active"))

def optionalFields : List String :=
  ["displayName", "email", "globalPriority", "defaultModel", "accessToken", "refreshToken", "expiresAt", "tokenType", "scope",
    "projectId", "apiKey", "testStatus", "lastTested", "lastError", "lastErrorAt", "rateLimitedUntil", "expiresIn", "errorCode",
    "consecutiveUseCount", "idToken", "lastRefreshAt", "maxConcurrent"]

/-- `Object.keys(value).length > 0` -/
def hasKeys : JsValue → Bool
  | .object fields => fields ≠ .nil
  | .array items => items ≠ .nil
  | .string s => s ≠ ""
  | .uuid _ => true
  | _ => false

/-- A connection with the identifier `id`. -/
def newConnection (id : JsValue) (data : JsFields)
    (name priority now : JsValue) : Connection := fun k =>
  if k = "id" then id
  else if k = "provider" then data.get "provider"
  else if k = "authType" then (data.get "authType").orElse (.string "oauth")
  else if k = "name" then name
  else if k = "priority" then priority
  else if k = "isActive" then if data.get "isActive" = .undefined then .bool true else data.get "isActive"
  else if k = "createdAt" then now
  else if k = "updatedAt" then now
  else if k ∈ optionalFields then if data.get k = .null then .undefined else data.get k
  else if k = "providerSpecificData" then
    if hasKeys (data.get "providerSpecificData") then data.get "providerSpecificData" else .undefined
  else .undefined

def createProviderConnection (db : ConnectionDb) (data : JsFields)
    (name priority now : JsValue) : Except String ConnectionDb :=
  match findExisting db data with
  | some existing =>
    if data.get "provider" = .string "codex" ∧ data.get "authType" = .string "oauth" ∧ (data.get "accessToken").truthy then
      upsert db (mergeCodexReauthorization (rowToConn existing) data now)
    else upsert db (((rowToConn existing).spread data).set "updatedAt" now)
  | none => upsert { db with supply := db.supply + 1 } (newConnection (.uuid db.supply) data name priority now)

/-! ### Updating -/

/-- What of a connection the operator controls (`captureAccountControls`). -/
def captureAccountControls (c : Connection) : Bool × JsValue × JsFields :=
  (c "isActive" ≠ .bool false, (c "priority").nullish .null, (c "quotaPauseThresholds").fields.sorted)

structure UpdateOptions where
  expectedControls : Option Connection := none
  expectedCredentials : Option Connection := none
  aborted : Bool := false

def updateProviderConnection (db : ConnectionDb) (id : JsValue) (data : JsFields)
    (options : UpdateOptions) (now : JsValue) :
    Except String ConnectionDb :=
  match db.rows.get? id with
  | none => .error "not_found"
  | some row =>
    let existing := rowToConn row
    if options.aborted then .error "aborted"
    else if options.expectedCredentials.any fun expected => credentialRevision existing ≠ credentialRevision expected then
      .error "CREDENTIAL_CONFLICT"
    else if options.expectedControls.any fun expected => captureAccountControls existing ≠ captureAccountControls expected then
      .error "CONTROL_CONFLICT"
    else upsert db ((existing.spread data).set "updatedAt" now)

def credentialFields : List String :=
  ["accessToken", "refreshToken", "idToken", "apiKey", "expiresAt", "expiresIn", "tokenType", "scope", "projectId", "lastRefreshAt"]

def proxyBoundKeys : List String :=
  ["proxyPoolId", "strictProxy", "connectionProxyMode", "connectionProxyEnabled", "connectionProxyUrl", "connectionNoProxy"]

/-- What is not blank of a text, and nothing of any other value. -/
def trimmed : JsValue → List Char
  | .string s => trim s.toList
  | _ => []

def withCredentials (c : Connection) (data : JsFields) : Connection := fun k =>
  if k ∈ credentialFields ∧ data.get k ≠ .undefined ∧ data.get k ≠ .null then data.get k else c k

/-- The provider data of a sign-in, merged key by key; the proxy policy is not its to write. -/
def mergedProviderData (existing : Connection) (data : JsFields) : JsFields :=
  (existing "providerSpecificData").fields.spread
    (proxyBoundKeys.foldl (fun psd key => psd.erase key) (data.get "providerSpecificData").fields)

def mergeReauthorization (existing : Connection) (data : JsFields) (now : JsValue) : Connection :=
  let psd := mergedProviderData existing data
  let c := withCredentials existing data
  let c := if trimmed (data.get "authType") = [] then c else c.set "authType" (.string (String.ofList (trimmed (data.get "authType"))))
  let c := if trimmed (data.get "email") = [] then c else c.set "email" (data.get "email")
  let c := if psd = .nil then c else c.set "providerSpecificData" (.object psd)
  clearReauthFailureState (((c.set "isActive" (.bool true)).set "testStatus" (.string "active")).set "updatedAt" now)

def reauthorizeProviderConnection (db : ConnectionDb) (id : JsValue) (data : JsFields)
    (now : JsValue) :
    Except String ConnectionDb :=
  match db.rows.get? id with
  | none => .error "not_found"
  | some row =>
    let existing := rowToConn row
    let incomingEmail := (trimmed (data.get "email")).flatMap lowerCase
    let existingEmail := (trimmed (existing "email")).flatMap lowerCase
    if (data.get "provider").truthy ∧ data.get "provider" ≠ existing "provider" then .error "provider_mismatch"
    else if ¬ (data.get "accessToken").truthy ∧ ¬ (data.get "refreshToken").truthy ∧ ¬ (data.get "apiKey").truthy then
      .error "empty_credential"
    else if data.get "force" ≠ .bool true ∧ incomingEmail ≠ [] ∧ existingEmail ≠ [] ∧ incomingEmail ≠ existingEmail then
      .error "identity_mismatch"
    else upsert db (mergeReauthorization existing data now)

def mergeProviderConnectionData (db : ConnectionDb)
    (id name providerSpecificData now : JsValue) : Except String ConnectionDb :=
  match db.rows.get? id with
  | none => .error "not_found"
  | some row =>
    let existing := rowToConn row
    let c := if name = .undefined then existing else existing.set "name" name
    upsert db ((c.set "providerSpecificData"
      (.object ((existing "providerSpecificData").fields.spread providerSpecificData.fields))).set "updatedAt" now)

/-! ### Proxy snapshots -/

def updateConnectionProxyPoolSnapshotIfBound (db : ConnectionDb)
    (id expectedPoolId proxyPoolId : JsValue) (strictProxy : Bool)
    (now : JsValue) : Except String ConnectionDb :=
  match db.rows.get? id with
  | none => .error "not_found"
  | some row =>
    let existing := rowToConn row
    match existing "providerSpecificData" with
    | .object psd =>
      if psd.get "proxyPoolId" ≠ expectedPoolId then .error "not_bound"
      else
        let psd := (psd.put "proxyPoolId" proxyPoolId).put "strictProxy" (.bool strictProxy)
        upsert db ((existing.set "providerSpecificData" (.object psd)).set "updatedAt" now)
    | _ => .error "not_bound"

/-- The row of an account that is bound to a pool, as a change of the pool leaves it. -/
def boundRow (row : ConnectionRow) (psd : JsFields) (supply : Nat)
    (now : JsValue) : ConnectionRow :=
  { row with
    data := fun k => (((row.data.set "credentialRevisionId" (.uuid supply)).set "providerSpecificData" (.object psd)) k).stored
    updatedAt := now
    data_stored := fun _ => JsValue.stored_stored _ }

def updateBoundConnectionSnapshot (proxyPoolId : JsValue) (strictProxy transportChanged : Bool)
    (now : JsValue) (db : ConnectionDb) (row : ConnectionRow) : ConnectionDb :=
  match row.data "providerSpecificData" with
  | .object psd =>
    if psd.get "proxyPoolId" ≠ proxyPoolId then db
    else if transportChanged = false ∧ psd.get "strictProxy" = .bool strictProxy then db
    else
      let psd := (psd.put "proxyPoolId" proxyPoolId).put "strictProxy" (.bool strictProxy)
      { rows := db.rows.put (boundRow row psd db.supply now), supply := db.supply + 1 }
  | _ => db

/-- A change of a pool reaches every account that is bound to it. -/
def updateBoundConnectionSnapshotsInTx (db : ConnectionDb) (proxyPoolId : JsValue)
    (strictProxy transportChanged : Bool) (now : JsValue) : ConnectionDb :=
  db.rows.rows.foldl (updateBoundConnectionSnapshot proxyPoolId strictProxy transportChanged now) db

/-! ### Runs -/

inductive CredentialOp where
  | create (data : JsFields) (name priority : JsValue)
  | update (id : JsValue) (data : JsFields) (options : UpdateOptions)
  | reauthorize (id : JsValue) (data : JsFields)
  | merge (id name providerSpecificData : JsValue)
  | snapshot (id expectedPoolId proxyPoolId : JsValue) (strictProxy : Bool)
  | poolChanged (proxyPoolId : JsValue) (strictProxy transportChanged : Bool)
  | renumber (priority : JsValue → JsValue)

def CredentialOp.write (db : ConnectionDb) (now : JsValue) : CredentialOp → Except String ConnectionDb
  | .create data name priority => createProviderConnection db data name priority now
  | .update id data options => updateProviderConnection db id data options now
  | .reauthorize id data => reauthorizeProviderConnection db id data now
  | .merge id name providerSpecificData => mergeProviderConnectionData db id name providerSpecificData now
  | .snapshot id expectedPoolId proxyPoolId strictProxy =>
    updateConnectionProxyPoolSnapshotIfBound db id expectedPoolId proxyPoolId strictProxy now
  | .poolChanged proxyPoolId strictProxy transportChanged =>
    .ok (updateBoundConnectionSnapshotsInTx db proxyPoolId strictProxy transportChanged now)
  | .renumber priority =>
    .ok { db with rows := db.rows.mapRows (fun row => { row with priority := priority row.id }) fun _ => rfl }

/-- One transaction, with the time it writes and whether it commits. -/
structure CredentialStep where
  op : CredentialOp
  now : JsValue := .null
  commits : Bool := true

def credentialStep (db : ConnectionDb) (s : CredentialStep) : ConnectionDb :=
  match s.op.write db s.now with
  | .error _ => db
  | .ok db' => if s.commits then db' else db

end TokenProxy.Credentials
