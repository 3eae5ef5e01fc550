import TokenProxy.Lib.Arena
import TokenProxy.Lib.Run
import TokenProxy.Lib.Table

/-!
# Sharing of token refreshes

A refresh token may be redeemed once, so concurrent callers share the redemption: those of one
credential revision share one that is locked under it, redemptions of one token share an entry whose
result stays cached for a while, and a durable publication of the replacement is shared by the
callers that ask for one.

A step is what runs between two awaits. A digest stands for what it digests. What a provider answers
and what a publisher acknowledges are parameters of the steps; tokens are all that is kept of a
refresh result.
-/

namespace TokenProxy.TokenRefresh

open Lib

def refreshResultTtlMs : Nat := 10000

def maxRefreshEntries : Nat := 256

def chainConnMax : Nat := 16

def truthy (s : Option String) : Option String := s.filter fun s => s ≠ ""

/-! ### Credentials -/

/-- The fields that `credentialContentRevision` digests. -/
structure ContentRevision where
  refreshToken : Option String
  content : String
  deriving DecidableEq

structure Revision where
  content : ContentRevision
  revisionId : String
  deriving DecidableEq

/-- `content` is what a revision digests besides the refresh token. -/
structure Credentials where
  connectionId : Option String := none
  id : Option String := none
  refreshToken : Option String := none
  content : String := ""
  credentialRevisionId : Option String := none
  deriving DecidableEq

def credentialContentRevision (credentials : Credentials) : ContentRevision where
  refreshToken := credentials.refreshToken
  content := credentials.content

def credentialRevision (credentials : Credentials) : Revision where
  content := credentialContentRevision credentials
  revisionId := (truthy credentials.credentialRevisionId).getD "legacy"

def ownerOf (credentials : Credentials) : Option String := (truthy credentials.connectionId).or (truthy credentials.id)

/-- A key of the refresh locks: `stable` is the provider with the connection. -/
structure LockKey where
  stable : String
  revision : Revision
  deriving DecidableEq

def getRefreshLockKey (provider : String) (credentials : Credentials) : LockKey where
  stable := provider ++ ":" ++ (ownerOf credentials).getD "unbound"
  revision := credentialRevision credentials

/-! ### Refresh results -/

structure Refreshed where
  error : Option String := none
  accessToken : Option String := none
  apiKey : Option String := none
  token : Option String := none
  refreshToken : Option String := none
  copilotToken : Option String := none
  deriving DecidableEq

def isUnrecoverableRefreshError (result : Refreshed) : Bool :=
  result.error.any fun e =>
    e = "unrecoverable_refresh_error" || e = "refresh_token_reused" || e = "invalid_request" || e = "invalid_grant"

def mergeRefreshedCredentials (current : Credentials) : Option Refreshed → Option Refreshed
  | none => none
  | some refreshed =>
    if isUnrecoverableRefreshError refreshed then some refreshed
    else
      some
        { accessToken := truthy refreshed.accessToken
          apiKey := truthy refreshed.apiKey
          token := truthy refreshed.token
          refreshToken := truthy (refreshed.refreshToken.or current.refreshToken)
          copilotToken := truthy refreshed.copilotToken }

def needsPublication (refreshed : Refreshed) : Bool :=
  (truthy refreshed.accessToken).isSome || (truthy refreshed.apiKey).isSome || (truthy refreshed.token).isSome ||
    (truthy refreshed.refreshToken).isSome || (truthy refreshed.copilotToken).isSome

def toPublish (refreshed : Option Refreshed) : Option Refreshed :=
  refreshed.filter fun r => needsPublication r && !isUnrecoverableRefreshError r

/-- What a promise settles with: a value, or the code of an error. -/
abbrev Answer (α : Type) := Except String α

/-! ### The module state -/

/-- An entry of the result cache: `outcome` is none while its promise is pending. -/
structure Entry where
  key : String
  context : ContentRevision
  revisions : Dict String Revision := .empty
  outcome : Option (Answer (Option Refreshed)) := none
  expiresAt : Nat := 0

inductive RedemptionPhase where
  | queued
  | awaiting (entry : Nat)
  | answered (answer : Answer (Option Refreshed))
  | settled (entry : Option Nat) (answer : Answer (Option Refreshed))

structure Redemption where
  key : LockKey
  provider : String
  credentials : Credentials
  phase : RedemptionPhase := .queued

/-- What a publication delivers: the refresh result, or the row that its publisher stored. -/
inductive Delivered (S : Type) where
  | refreshed (refreshed : Option Refreshed)
  | stored (row : S)
  deriving DecidableEq

inductive PublicationPhase (S : Type) where
  | waiting
  | offering
  | returned (answer : Answer (Delivered S))
  | settled (answer : Answer (Delivered S))

/-- `offered` is what its publisher was called with. -/
structure Publication (S : Type) where
  key : LockKey
  redemption : Nat
  phase : PublicationPhase S := .waiting
  offered : Option Refreshed := none

structure RefreshState (S : Type) where
  refreshLocks : Dict LockKey Nat := .empty
  publicationLocks : Dict LockKey Nat := .empty
  refreshDedupCache : Dict String Nat := .empty
  redemptions : List Redemption := []
  entries : List Entry := []
  publications : List (Publication S) := []

inductive Delivery where
  | redemption (id : Nat)
  | publication (id : Nat)
  deriving DecidableEq

inductive CallerPhase (S : Type) where
  | waiting
  | received (answer : Answer (Delivered S))
  | cancelled

/-- A call of `refreshProviderCredentials`. -/
structure Caller (S : Type) where
  key : LockKey
  asked : Bool
  redemption : Option Nat := none
  delivery : Option Delivery := none
  phase : CallerPhase S := .waiting

variable {S : Type}

/-! ### Redemption -/

def Entry.live (entry : Entry) (now : Nat) : Bool := entry.outcome.isNone || decide (now < entry.expiresAt)

def cachedEntry (s : RefreshState S) (key : String) : Option (Nat × Entry) :=
  (s.refreshDedupCache.lookup key).bind fun id => (s.entries[id]?).map fun entry => (id, entry)

/-- A caller joins an entry; its connection is registered with its credential revision. -/
def joinEntry (entry : Entry) (context : ContentRevision) (owner : Option String)
    (revision : Revision) : Answer Entry :=
  if entry.context ≠ context ∨ (owner.bind entry.revisions.lookup).any (fun r => r ≠ revision) then
    .error "REFRESH_CONTEXT_CONFLICT"
  else
    match owner with
    | none => .ok entry
    | some owner =>
      if (entry.revisions.lookup owner).isSome then .ok entry
      else if chainConnMax ≤ entry.revisions.rows.length then .error "REFRESH_CAPACITY"
      else .ok { entry with revisions := entry.revisions.put (owner, revision) }

def sweep (s : RefreshState S) (now : Nat) : RefreshState S :=
  { s with refreshDedupCache := s.refreshDedupCache.filter fun x => (s.entries[x.2]?).any fun entry => entry.live now }

def newEntry (key : String) (context : ContentRevision) (owner : Option String)
    (revision : Revision) : Entry where
  key := key
  context := context
  revisions := owner.elim .empty fun owner => Table.empty.put (owner, revision)

def startEntry (s : RefreshState S) (entry : Entry) : RefreshState S × RedemptionPhase :=
  ({ s with
      refreshDedupCache := s.refreshDedupCache.put (entry.key, s.entries.length)
      entries := s.entries ++ [entry] }, .awaiting s.entries.length)

def dedupRefresh (s : RefreshState S) (key : String) (context : ContentRevision)
    (owner : Option String) (revision : Revision) (now : Nat) : RefreshState S × RedemptionPhase :=
  match (cachedEntry s key).filter fun hit => hit.2.live now with
  | some (id, hit) =>
    match joinEntry hit context owner revision with
    | .ok hit => ({ s with entries := s.entries.set id hit }, .awaiting id)
    | .error code => (s, .answered (.error code))
  | none =>
    let s := { s with refreshDedupCache := s.refreshDedupCache.erase key }
    let s := if maxRefreshEntries ≤ s.refreshDedupCache.rows.length then sweep s now else s
    if maxRefreshEntries ≤ s.refreshDedupCache.rows.length then (s, .answered (.error "REFRESH_CAPACITY"))
    else startEntry s (newEntry key context owner revision)

/-- How a provider refreshes: `exchange` redeems a one-use token, shared under its key; `mint` signs
for a token of its own. -/
inductive Handler where
  | exchange (key : String)
  | mint
  | nothing
  deriving DecidableEq

structure Providers where
  clientId : String → String
  hasRefreshUrl : String → Bool

variable (providers : Providers)

/-- `REFRESH_HANDLERS`, and `refreshAccessToken` for any other provider. -/
def refreshHandler (provider : String) : Handler :=
  let refreshAccessToken key := if providers.hasRefreshUrl key then Handler.exchange key else .nothing
  match provider with
  | "gemini-cli" => .exchange s!"google:{providers.clientId provider}"
  | "antigravity" => .exchange s!"google:{providers.clientId provider}"
  | "claude" => refreshAccessToken "claude"
  | "codex" => .exchange "codex"
  | "iflow" => refreshAccessToken "iflow"
  | "github" => refreshAccessToken "github"
  | "kiro" => .exchange "kiro"
  | "xai" => .exchange "xai"
  | "grok-cli" => .exchange "xai"
  | "gcli" => .exchange "xai"
  | "codebuddy-cn" => .exchange "codebuddy-cn"
  | "codebuddy-intl" => .exchange "codebuddy-intl"
  | "trae" => .exchange "trae"
  | "zed" => .nothing
  | "windsurf" => .nothing
  | "kimi" => refreshAccessToken "kimi"
  | "kimi-coding" => refreshAccessToken "kimi"
  | "vertex" => .mint
  | "vertex-partner" => .mint
  | provider => refreshAccessToken provider

/-- A redemption goes as far as its first await: `minted` is what its provider signs for. -/
def refreshTokenByProvider (s : RefreshState S) (provider : String) (credentials : Credentials)
    (minted : Option Refreshed) (now : Nat) : RefreshState S × RedemptionPhase :=
  match truthy credentials.refreshToken with
  | none => (s, .answered (.ok none))
  | some token =>
    match refreshHandler providers provider with
    | .exchange key =>
      dedupRefresh s s!"{key}:{token}" (credentialContentRevision credentials) (ownerOf credentials) (credentialRevision credentials) now
    | .mint => (s, .answered (.ok minted))
    | .nothing => (s, .answered (.ok none))

def setRedemption (s : RefreshState S) (id : Nat) (r : Redemption) : RefreshState S :=
  { s with redemptions := s.redemptions.set id r }

def redeems (s : RefreshState S) (id : Nat) (r : Redemption) (minted : Option Refreshed)
    (now : Nat) : RefreshState S :=
  match r.phase with
  | .queued =>
    let (s, phase) := refreshTokenByProvider providers s r.provider r.credentials minted now
    setRedemption s id { r with phase := phase }
  | _ => s

/-- The provider's answer: a result stays cached for its time, an error leaves the cache at once. -/
def answers (s : RefreshState S) (id : Nat) (entry : Entry) (answer : Answer (Option Refreshed))
    (now : Nat) : RefreshState S :=
  match entry.outcome, answer with
  | none, .ok result =>
    { s with entries := s.entries.set id { entry with outcome := some (.ok result), expiresAt := now + refreshResultTtlMs } }
  | none, .error code =>
    { s with
      refreshDedupCache := s.refreshDedupCache.erase entry.key
      entries := s.entries.set id { entry with outcome := some (.error code) } }
  | some _, _ => s

def expires (s : RefreshState S) (id : Nat) (entry : Entry) : RefreshState S :=
  if entry.outcome.isSome ∧ s.refreshDedupCache.lookup entry.key = some id then
    { s with refreshDedupCache := s.refreshDedupCache.erase entry.key }
  else s

/-- What a redemption knows of its answer: the entry that gave it, if one did. -/
def answerOf (s : RefreshState S) : RedemptionPhase → Option (Option Nat × Answer (Option Refreshed))
  | .awaiting id => ((s.entries[id]?).bind Entry.outcome).map fun answer => (some id, answer)
  | .answered answer => some (none, answer)
  | _ => none

def ends (s : RefreshState S) (id : Nat) (r : Redemption) : RefreshState S :=
  match answerOf s r.phase with
  | some (entry, answer) =>
    setRedemption { s with refreshLocks := s.refreshLocks.erase r.key } id
      { r with phase := .settled entry (answer.map (mergeRefreshedCredentials r.credentials)) }
  | none => s

/-! ### Publication -/

def setPublication (s : RefreshState S) (id : Nat) (p : Publication S) : RefreshState S :=
  { s with publications := s.publications.set id p }

def publishes (s : RefreshState S) (id : Nat) (p : Publication S) : RefreshState S :=
  match p.phase, (s.redemptions[p.redemption]?).map Redemption.phase with
  | .waiting, some (.settled _ (.ok refreshed)) =>
    match toPublish refreshed with
    | some offered => setPublication s id { p with phase := .offering, offered := some offered }
    | none => setPublication s id { p with phase := .returned (.ok (.refreshed refreshed)) }
  | .waiting, some (.settled _ (.error code)) => setPublication s id { p with phase := .returned (.error code) }
  | _, _ => s

/-- The publisher's answer: no stored row is no acknowledgement. -/
def stores (s : RefreshState S) (id : Nat) (p : Publication S)
    (answer : Answer (Option S)) : RefreshState S :=
  match p.phase, answer with
  | .offering, .ok (some row) => setPublication s id { p with phase := .returned (.ok (.stored row)) }
  | .offering, .ok none => setPublication s id { p with phase := .returned (.error "CREDENTIAL_PERSISTENCE_UNCONFIRMED") }
  | .offering, .error code => setPublication s id { p with phase := .returned (.error code) }
  | _, _ => s

def returns (s : RefreshState S) (id : Nat) (p : Publication S) : RefreshState S :=
  match p.phase with
  | .returned answer =>
    setPublication { s with publicationLocks := s.publicationLocks.erase p.key } id { p with phase := .settled answer }
  | _ => s

/-! ### Calls -/

def withCredentialRefreshLock (s : RefreshState S) (provider : String)
    (credentials : Credentials) : RefreshState S × Nat :=
  let key := getRefreshLockKey provider credentials
  let r : Redemption := { key := key, provider := provider, credentials := credentials }
  match s.refreshLocks.lookup key with
  | some id => (s, id)
  | none =>
    if maxRefreshEntries ≤ s.refreshLocks.rows.length then
      ({ s with redemptions := s.redemptions ++ [{ r with phase := .settled none (.error "REFRESH_CAPACITY") }] },
        s.redemptions.length)
    else
      ({ s with
          refreshLocks := s.refreshLocks.put (key, s.redemptions.length)
          redemptions := s.redemptions ++ [r] }, s.redemptions.length)

/-- The publication in flight for the key, or a new one of the redemption. -/
def withPublicationLock (s : RefreshState S) (key : LockKey)
    (redemption : Nat) : RefreshState S × Nat :=
  match s.publicationLocks.lookup key with
  | some id => (s, id)
  | none =>
    ({ s with
        publicationLocks := s.publicationLocks.put (key, s.publications.length)
        publications := s.publications ++ [{ key := key, redemption := redemption }] }, s.publications.length)

/-- The arguments of a call; `expectedCredentials` says whether they are given. -/
structure Request where
  provider : String
  credentials : Credentials
  aborted : Bool := false
  onCredentialsRefreshed : Bool := false
  expectedCredentials : Bool := false

def refreshProviderCredentials (s : RefreshState S)
    (request : Request) : RefreshState S × Caller S :=
  let key := getRefreshLockKey request.provider request.credentials
  let caller : Caller S := { key := key, asked := request.onCredentialsRefreshed }
  if request.aborted then (s, { caller with phase := .received (.error "AbortError") })
  else
    let (s, redemption) := withCredentialRefreshLock s request.provider request.credentials
    let caller := { caller with redemption := some redemption }
    if request.onCredentialsRefreshed = false then (s, { caller with delivery := some (.redemption redemption) })
    else if request.expectedCredentials = false then (s, { caller with phase := .received (.error "TypeError") })
    else
      let (s, publication) := withPublicationLock s key redemption
      (s, { caller with delivery := some (.publication publication) })

def deliveredOf (s : RefreshState S) : Delivery → Option (Answer (Delivered S))
  | .redemption id =>
    match (s.redemptions[id]?).map Redemption.phase with
    | some (.settled _ answer) => some (answer.map .refreshed)
    | _ => none
  | .publication id =>
    match (s.publications[id]?).map Publication.phase with
    | some (.settled answer) => some answer
    | _ => none

/-- `waitForRefresh` -/
def resumeCaller (s : RefreshState S) (caller : Caller S) : Caller S :=
  match caller.phase, caller.delivery.bind (deliveredOf s) with
  | .waiting, some answer => { caller with phase := .received answer }
  | _, _ => caller

def cancelCaller (caller : Caller S) : Caller S :=
  match caller.phase with
  | .waiting => { caller with phase := .cancelled }
  | _ => caller

/-! ### Runs -/

inductive RefreshOp (S : Type) where
  | call (request : Request)
  | redeems (redemption : Nat) (minted : Option Refreshed)
  | answers (entry : Nat) (answer : Answer (Option Refreshed))
  | expires (entry : Nat)
  | ends (redemption : Nat)
  | publishes (publication : Nat)
  | stores (publication : Nat) (answer : Answer (Option S))
  | returns (publication : Nat)
  | resumes (caller : Nat)
  | cancels (caller : Nat)

structure RefreshRun (S : Type) where
  state : RefreshState S := {}
  callers : List (Caller S) := []

/-- What an operation does to the module, and the call that it makes. -/
def stateStep (s : RefreshState S) (now : Nat) : RefreshOp S → RefreshState S × Option (Caller S)
  | .call request =>
    let (s, caller) := refreshProviderCredentials s request
    (s, some caller)
  | .redeems id minted => ((s.redemptions[id]?).elim s fun r => redeems providers s id r minted now, none)
  | .answers id answer => ((s.entries[id]?).elim s fun entry => answers s id entry answer now, none)
  | .expires id => ((s.entries[id]?).elim s fun entry => expires s id entry, none)
  | .ends id => ((s.redemptions[id]?).elim s fun r => ends s id r, none)
  | .publishes id => ((s.publications[id]?).elim s fun p => publishes s id p, none)
  | .stores id answer => ((s.publications[id]?).elim s fun p => stores s id p answer, none)
  | .returns id => ((s.publications[id]?).elim s fun p => returns s id p, none)
  | .resumes _ => (s, none)
  | .cancels _ => (s, none)

def callerStep (s : RefreshState S) (callers : List (Caller S)) : RefreshOp S → List (Caller S)
  | .resumes id => callers.modify id (resumeCaller s)
  | .cancels id => callers.modify id cancelCaller
  | _ => callers

def refreshStep (g : RefreshRun S) (op : Nat × RefreshOp S) : RefreshRun S where
  state := (stateStep providers g.state op.1 op.2).1
  callers := callerStep g.state g.callers op.2 ++ (stateStep providers g.state op.1 op.2).2.toList

end TokenProxy.TokenRefresh
