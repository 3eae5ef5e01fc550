import TokenProxy.Lib.Interleaving

/-!
# Writer admission

Native database connections share the database file; the sql.js adapter rewrites it whole and must
be alone. Each process leaves a claim in the directory `<database>.writers`: a native one under a
name of its own, an exclusive one under `sqljs.json`. A claim of a dead process is reclaimed.

The programs below are `writerAdmission.js` operation by operation. Only the operations on the
directory and the look at a process are atomic; whatever lies between two of them belongs to the
first.

* A UUID is its position among those drawn; a process is known by its `instanceId`.
* A claim is written to a temporary file, which is linked to the claim's name: a name never shows
  half a claim.
* The directory, the drawn UUIDs and the leases handed out are the shared state.
-/

namespace TokenProxy.Writer

open TokenProxy.Lib

inductive Role where
  | native
  | sqljs
  | reaper
  deriving DecidableEq

/-- `processIdentity`: `none` where the host could not be read. -/
structure Identity where
  instanceId : Nat
  pid : Nat
  machine : Option String
  boot : Option String
  start : Option String
  deriving DecidableEq

structure Record where
  role : Role
  nonce : Nat
  identity : Identity
  deriving DecidableEq

inductive FileName where
  /-- `sqljs.json` -/
  | sqljs
  /-- `native-<nonce>.json` -/
  | native (nonce : Nat)
  /-- `reap-<nonce>-<predecessor>.json`, `none` for `root` -/
  | reap (nonce : Nat) (predecessor : Option Nat)
  /-- `.claim-<nonce>` -/
  | claim (nonce : Nat)
  deriving DecidableEq

structure File where
  ino : Nat
  dev : Nat
  content : Option Record
  deriving DecidableEq

/-- What `readClaim` returns. -/
structure Claim where
  record : Record
  ino : Nat
  dev : Nat
  deriving DecidableEq

inductive ErrorCode where
  | EEXIST
  | ENOENT
  | ESRCH
  | unverifiable
  | SyntaxError
  | DB_WRITER_OWNERSHIP_BUSY
  | DB_WRITER_OWNERSHIP_INVALID
  | DB_WRITER_OWNERSHIP_LOST
  deriving DecidableEq

inductive OwnerState where
  | alive
  | dead
  | unknown
  deriving DecidableEq

/-- `ownerState`; `startIdentity` is what the host says about a process. -/
def ownerState (self record : Identity) (startIdentity : Nat → Except ErrorCode String) : OwnerState :=
  if record.instanceId = self.instanceId ∧ record.pid = self.pid then .alive
  else
    match self.machine, record.machine, record.boot, record.start with
    | some machine, some machine', some boot, some start =>
      if machine ≠ machine' then .unknown
      else if self.boot ≠ some boot then .dead
      else
        match startIdentity record.pid with
        | .ok value => if value = start then .alive else .dead
        | .error code => if code = .ENOENT ∨ code = .ESRCH then .dead else .unknown
    | _, _, _, _ => .unknown

def sameClaim : Option Claim → Option Claim → Bool
  | some left, some right => left.ino == right.ino && left.dev == right.dev && left.record.nonce == right.record.nonce
  | _, _ => false

/-- `lease`: what an admission holds, and the process it was handed to. -/
structure Lease where
  owner : Nat
  name : FileName
  held : Option Claim
  released : Bool
  deriving DecidableEq

/-! ### The directory -/

structure WriterState where
  files : FileName → Option File
  /-- the process that drew each UUID -/
  uuids : List Nat
  leases : List Lease
  /-- the processes that are dead -/
  crashed : List Nat
  /-- the nonces that `sqljs.json` has carried; no operation reads them -/
  exclusives : List Nat

namespace WriterState

def put (s : WriterState) (name : FileName) (file : File) : WriterState :=
  { s with files := Function.update s.files name (some file) }

def remove (s : WriterState) (name : FileName) : WriterState :=
  { s with files := Function.update s.files name none }

def readClaim (s : WriterState) (name : FileName) : Except ErrorCode (Option Claim) :=
  match s.files name with
  | none => .ok none
  | some file =>
    match file.content with
    | some record => .ok (some ⟨record, file.ino, file.dev⟩)
    | none => .error .SyntaxError

def openExclusive (s : WriterState) (name : FileName)
    (ino dev : Nat) : Except ErrorCode Unit × WriterState :=
  match s.files name with
  | some _ => (.error .EEXIST, s)
  | none => (.ok (), s.put name ⟨ino, dev, none⟩)

def writeFile (s : WriterState) (name : FileName) (record : Record) : WriterState :=
  match s.files name with
  | some file => s.put name { file with content := some record }
  | none => s

/-- A file linked to the name `destination`. -/
def publish (s : WriterState) (destination : FileName) (file : File) : WriterState :=
  let nonces := match destination, file.content with
    | .sqljs, some record => [record.nonce]
    | _, _ => []
  { s.put destination file with exclusives := nonces ++ s.exclusives }

def link (s : WriterState) (source destination : FileName) : Except ErrorCode Unit × WriterState :=
  match s.files source, s.files destination with
  | none, _ => (.error .ENOENT, s)
  | some _, some _ => (.error .EEXIST, s)
  | some file, none => (.ok (), s.publish destination file)

def unlink (s : WriterState) (name : FileName) : Except ErrorCode Unit × WriterState :=
  match s.files name with
  | none => (.error .ENOENT, s)
  | some _ => (.ok (), s.remove name)

def randomUUID (s : WriterState) (p : Nat) : Nat × WriterState :=
  (s.uuids.length, { s with uuids := s.uuids ++ [p] })

end WriterState

inductive Op where
  | randomUUID
  | openExclusive (name : FileName)
  | writeFile (name : FileName) (record : Record)
  | link (source destination : FileName)
  | unlink (name : FileName)
  | readClaim (name : FileName)
  | readdir
  | ownerState (record : Record)

def Answer : Op → Type
  | .randomUUID => Nat
  | .openExclusive _ => Except ErrorCode Unit
  | .writeFile _ _ => Unit
  | .link _ _ => Except ErrorCode Unit
  | .unlink _ => Except ErrorCode Unit
  | .readClaim _ => Except ErrorCode (Option Claim)
  | .readdir => List FileName
  | .ownerState _ => OwnerState

/-- What the host decides: the inode of a new file, the order of a
listing, the state of a process. -/
structure Host where
  ino : Nat
  dev : Nat
  listing : List FileName
  startIdentity : Nat → Except ErrorCode String

/-- One atomic operation of the process `self`. -/
def execute (self : Identity) : (o : Op) → Host → WriterState → Answer o × WriterState
  | .randomUUID, _, s => s.randomUUID self.instanceId
  | .openExclusive name, host, s => s.openExclusive name host.ino host.dev
  | .writeFile name record, _, s => ((), s.writeFile name record)
  | .link source destination, _, s => s.link source destination
  | .unlink name, _, s => s.unlink name
  | .readClaim name, _, s => (s.readClaim name, s)
  | .readdir, host, s => (host.listing, s)
  | .ownerState record, host, s => (ownerState self record.identity host.startIdentity, s)

/-! ### The programs -/

abbrev Fs (α : Type) := Fallible Op Answer ErrorCode α

open Fallible (perform attempt ofExcept withFinally)

def MAX_RECLAIM_DEPTH : Nat := 8

def randomUUID : Fs Nat := perform Op.randomUUID

def openExclusive (name : FileName) : Fs Unit :=
  (perform (Op.openExclusive name) : Fs (Except ErrorCode Unit)) >>= ofExcept

def writeFile (name : FileName) (record : Record) : Fs Unit := perform (Op.writeFile name record)

def link (source destination : FileName) : Fs Unit :=
  (perform (Op.link source destination) : Fs (Except ErrorCode Unit)) >>= ofExcept

def unlink (name : FileName) : Fs Unit :=
  (perform (Op.unlink name) : Fs (Except ErrorCode Unit)) >>= ofExcept

def readClaim (name : FileName) : Fs (Option Claim) :=
  (perform (Op.readClaim name) : Fs (Except ErrorCode (Option Claim))) >>= ofExcept

def readdir : Fs (List FileName) := perform Op.readdir

def ownerStateOf (record : Record) : Fs OwnerState := perform (Op.ownerState record)

def busy {α : Type} : Fs α := Fallible.throw .DB_WRITER_OWNERSHIP_BUSY

def invalid {α : Type} : Fs α := Fallible.throw .DB_WRITER_OWNERSHIP_INVALID

def lost {α : Type} : Fs α := Fallible.throw .DB_WRITER_OWNERSHIP_LOST

def claim (self : Identity) (role : Role) : Fs Record := do
  let nonce ← randomUUID
  pure { role, nonce, identity := self }

/-- `try { unlinkSync(temporary) } catch (error) { if (error.code !== 'ENOENT') throw error }` -/
def unlinkTemporary (name : FileName) : Fs Unit := do
  match ← attempt (unlink name) with
  | .error .ENOENT => pure ()
  | r => ofExcept r

def writeTemporary (temporary name : FileName) (record : Record) : Fs Unit := do
  openExclusive temporary
  writeFile temporary record
  link temporary name

def publish (name : FileName) (record : Record) : Fs (Option Claim) := do
  withFinally (writeTemporary (.claim record.nonce) name record) (unlinkTemporary (.claim record.nonce))
  readClaim name

/-- The `try` block of `reclaimExclusive`. -/
def removeExclusive (previous : Claim) : Fs Unit := do
  if !sameClaim (← readClaim .sqljs) (some previous) then busy
  else unlink .sqljs

def withdraw (name : FileName) (held : Option Claim) : Fs Unit := do
  if sameClaim (← readClaim name) held then unlink name
  else pure ()

/-- What a reclaimer does with its claim `held` in place. -/
def reclaimHeld (previous : Claim) (name : FileName) (held : Option Claim) : Fs Unit := do
  match ← attempt (removeExclusive previous) with
  | .ok () => pure ()
  | .error e =>
    withdraw name held
    Fallible.throw e

/-- The rounds of `reclaimExclusive`: each dead reclaimer met is followed. -/
def reclaimFrom (self : Identity) (previous : Claim) : Nat → Option Nat → Fs Unit
  | 0, _ => busy
  | depth + 1, predecessor => do
    let reaper ← claim self .reaper
    match ← attempt (publish (.reap previous.record.nonce predecessor) reaper) with
    | .ok held => reclaimHeld previous (.reap previous.record.nonce predecessor) held
    | .error .EEXIST =>
      match ← readClaim (.reap previous.record.nonce predecessor) with
      | none => busy
      | some existing =>
        if existing.record.role ≠ .reaper then busy
        else if (← ownerStateOf existing.record) ≠ .dead then busy
        else reclaimFrom self previous depth (some existing.record.nonce)
    | .error e => Fallible.throw e

def reclaimExclusive (self : Identity) (previous : Claim) : Fs Unit := do
  if (← ownerStateOf previous.record) ≠ .dead then busy
  else reclaimFrom self previous MAX_RECLAIM_DEPTH none

def ensureNoExclusive (self : Identity) : Fs Unit := do
  match ← readClaim .sqljs with
  | none => pure ()
  | some current =>
    if current.record.role ≠ .sqljs then invalid
    else reclaimExclusive self current

def Lease.assertOwned (l : Lease) : Fs Unit :=
  if l.released then lost
  else do
    if !sameClaim (← Writer.readClaim l.name) l.held then lost
    else pure ()

/-- `release`; the lease is marked released when the call returns. -/
def Lease.release (l : Lease) : Fs Unit :=
  if l.released then pure ()
  else do
    l.assertOwned
    unlink l.name

/-- `catch (error) { admission.release(); throw error; }` around the last part of an admission. -/
def withAdmission (admission : Lease) (body : Fs Unit) : Fs Lease := do
  match ← attempt body with
  | .ok () => pure admission
  | .error e =>
    admission.release
    Fallible.throw e

def acquireNativeWriterAdmission (self : Identity) : Fs Lease := do
  ensureNoExclusive self
  let owner ← claim self .native
  let held ← publish (.native owner.nonce) owner
  withAdmission ⟨self.instanceId, .native owner.nonce, held, false⟩ (ensureNoExclusive self)

/-- The exclusive claim, once more after reclaiming a stale one. -/
def publishExclusive (self : Identity) (owner : Record) : Fs (Option Claim) := do
  match ← attempt (publish .sqljs owner) with
  | .error .EEXIST =>
    ensureNoExclusive self
    match ← attempt (publish .sqljs owner) with
    | .error .EEXIST => busy
    | r => ofExcept r
  | r => ofExcept r

/-- The native claims listed: dead ones are removed, any other bars the admission. -/
def scanNatives : List FileName → Fs Unit
  | [] => pure ()
  | .native nonce :: names => do
    match ← readClaim (.native nonce) with
    | none => scanNatives names
    | some current =>
      if current.record.role ≠ .native ∨ nonce ≠ current.record.nonce then invalid
      else if (← ownerStateOf current.record) ≠ .dead then busy
      else do
        unlink (.native nonce)
        scanNatives names
  | _ :: names => scanNatives names

def refuseNatives : Fs Unit := do
  scanNatives (← readdir)

def acquireSqlJsWriterAdmission (self : Identity) : Fs Lease := do
  let owner ← claim self .sqljs
  let held ← publishExclusive self owner
  withAdmission ⟨self.instanceId, .sqljs, held, false⟩ refuseNatives

/-! ### The processes -/

inductive Call where
  | acquireNativeWriterAdmission
  | acquireSqlJsWriterAdmission
  | assertOwned (lease : Nat)
  | release (lease : Nat)

/-- A call on a lease of the process; on any other there is nothing to call. -/
def onLease (self : Identity) (s : WriterState) (lease : Nat)
    (f : Lease → Fs Unit) : Fs (Option Lease) :=
  match s.leases[lease]? with
  | some l =>
    if l.owner = self.instanceId then do
      f l
      pure none
    else invalid
  | none => invalid

def code (self : Identity) : Call → WriterState → Fs (Option Lease)
  | .acquireNativeWriterAdmission, _ => do
    let l ← Writer.acquireNativeWriterAdmission self
    pure (some l)
  | .acquireSqlJsWriterAdmission, _ => do
    let l ← Writer.acquireSqlJsWriterAdmission self
    pure (some l)
  | .assertOwned lease, s => onLease self s lease Lease.assertOwned
  | .release lease, s => onLease self s lease Lease.release

/-- An admission returned is in hand; a lease released is marked. -/
def deliver : Call → Except ErrorCode (Option Lease) → WriterState → WriterState
  | _, .ok (some l), s => { s with leases := s.leases ++ [l] }
  | .release lease, .ok none, s =>
    { s with leases := s.leases.modify lease fun l => { l with released := true } }
  | _, _, s => s

/-- The identity of a process: its instance, and what it could read of its host. -/
def identityOf (processes : Nat → Identity) (p : Nat) : Identity := { processes p with instanceId := p }

def writers (processes : Nat → Identity) :
    Machine Nat Call Op Host WriterState Answer (Except ErrorCode (Option Lease)) where
  code p c s := code (identityOf processes p) c s
  exec p o host s := execute (identityOf processes p) o host s
  deliver _ c r s := deliver c r s
  stop p s := { s with crashed := p :: s.crashed }
  stopped s p := decide (p ∈ s.crashed)

def noWriters : World Nat Call Op WriterState Answer (Except ErrorCode (Option Lease)) where
  shared := { files := fun _ => none, uuids := [], leases := [], crashed := [], exclusives := [] }
  running := fun _ => none

end TokenProxy.Writer
