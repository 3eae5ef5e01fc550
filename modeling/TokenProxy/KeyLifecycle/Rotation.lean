import TokenProxy.KeyLifecycle.ApiKeys

/-!
# Key rotation

`rotateApiKey` is a chain of writes with await points between them, none of which undoes an earlier
one: it creates the successor, copies the governed fields onto it, gives the predecessor an expiry,
records the rotation and marks the predecessor. Rotations, updates, adoptions and validations of any
keys interleave at these points, and any write may fail.
-/

namespace TokenProxy.KeyLifecycle

open Lib (Table)

structure RotationError where
  message : String
  status : Nat := 400
  deriving DecidableEq

def maxOverlapHours : Nat := 24 * 90

/-- A number of hours; none is what `Number` does not make finite. -/
def normalizeOverlapHours (value : Option ℚ) : Except RotationError Nat :=
  match value with
  | some n =>
    if n < 0 ∨ (maxOverlapHours : ℚ) < n then .error { message := "overlapHours must be between 0 and 2160." }
    else .ok ⌊n⌋.toNat
  | none => .error { message := "overlapHours must be between 0 and 2160." }

/-- The last stamp whose text has a year of four digits; the text of a later
one sorts before all of these. -/
def lastPlainStamp : Nat := 253402300799999

def stampBefore (a b : Nat) : Bool :=
  if (lastPlainStamp < a) = (lastPlainStamp < b) then a < b else lastPlainStamp < a

def overlapEndsAt (rotatedAt hours : Nat) : Nat := rotatedAt + hours * 3600000

def effectiveEnd (previous : ApiKey) (rotatedAt hours : Nat) : Nat :=
  match previous.expiresAt with
  | some expiry => if stampBefore expiry (overlapEndsAt rotatedAt hours) then expiry else overlapEndsAt rotatedAt hours
  | none => overlapEndsAt rotatedAt hours

/-- `GOVERNED_FIELDS` of a key as it was read, and its profile linkage. -/
def carried (previous : ApiKey) : KeyPatch where
  allowedModels := some previous.allowedModels
  maxPromptTokens := some (previous.maxPromptTokens.map fun n => (n : ℚ))
  maxCompletionTokens := some (previous.maxCompletionTokens.map fun n => (n : ℚ))
  maxCostUsd := some previous.maxCostUsd
  budgetPolicy := some previous.budgetPolicy
  accessProfileId := some previous.accessProfileId
  accessProfileVersion := some previous.accessProfileVersion
  accessProfileAdoptedAt := some previous.accessProfileAdoptedAt

/-- A row of `apiKeyRotations`. -/
structure RotationRow where
  successorKeyId : Nat
  predecessorKeyId : Nat
  rotatedAt : Nat
  overlapEndsAt : Nat
  overlapHours : Nat
  deriving DecidableEq

inductive Phase where
  | creating
  | copying
  | shortening
  | recording
  | superseding
  | returned
  deriving DecidableEq

/-- A rotation that read its key. `written` is what it made of the predecessor's row,
before and after each write. -/
structure Rotation where
  keyId : Nat
  hours : Nat
  name : Option Text
  previous : ApiKey
  rotatedAt : Nat
  phase : Phase := .creating
  failed : Bool := false
  successor : Option Nat := none
  written : List (ApiKey × ApiKey) := []
  deriving DecidableEq

def Rotation.end (r : Rotation) : Nat := effectiveEnd r.previous r.rotatedAt r.hours

structure State where
  clock : Nat
  keys : Keys
  rotations : List RotationRow := []
  running : List Rotation := []
  usage : Nat → Usage := fun _ => {}
  nextId : Nat

/-- The checks of `rotateApiKey` on the key as it reads it. -/
def beginRotation (s : State) (keyId : Nat) (overlapHours : Option ℚ)
    (name : Option Text) : Except RotationError Rotation := do
  let hours ← normalizeOverlapHours overlapHours
  match s.keys.get? keyId with
  | none => .error { message := "Key not found.", status := 404 }
  | some previous =>
    if previous.supersededAt.isSome then .error { message := "This key has already been rotated.", status := 409 }
    else if previous.machineId.getD [] = [] then
      .error { message := "This key cannot be rotated without a machine identity.", status := 409 }
    else .ok { keyId, hours, name, previous, rotatedAt := s.clock }

def successorName (r : Rotation) : Text :=
  if r.name.getD [] ≠ [] then r.name.getD []
  else (if r.previous.name = [] then "Key".toList else r.previous.name) ++ " (rotated)".toList

def writePredecessor (s : State) (r : Rotation)
    (f : ApiKey → ApiKey) : State × List (ApiKey × ApiKey) :=
  match s.keys.get? r.keyId with
  | none => (s, [])
  | some key => ({ s with keys := s.keys.put (f key) }, [(key, f key)])

def shorten (s : State) (r : Rotation) (key : ApiKey) : ApiKey := applyPatch key { expiresAt := some (some r.end) } s.clock

def supersede (r : Rotation) (key : ApiKey) : ApiKey := { key with supersededAt := some r.rotatedAt }

def advance (s : State) (r : Rotation) : State × Rotation :=
  match r.phase, r.successor with
  | .creating, _ =>
    ({ s with
        keys := s.keys.put (newKey s.nextId (successorName r) r.previous.machineId r.previous.expiresAt s.clock)
        nextId := s.nextId + 1 },
      { r with phase := .copying, successor := some s.nextId })
  | .copying, some successor =>
    ({ s with keys := updateApiKey s.keys successor (carried r.previous) s.clock }, { r with phase := .shortening })
  | .shortening, some _ =>
    let (s, written) := writePredecessor s r (shorten s r)
    (s, { r with phase := .recording, written := r.written ++ written })
  | .recording, some successor =>
    ({ s with
        rotations := s.rotations ++
          [{ successorKeyId := successor, predecessorKeyId := r.keyId, rotatedAt := r.rotatedAt, overlapEndsAt := r.end
             overlapHours := r.hours }] },
      { r with phase := .superseding })
  | .superseding, some _ =>
    let (s, written) := writePredecessor s r (supersede r)
    (s, { r with phase := .returned, written := r.written ++ written })
  | _, _ => (s, r)

section

variable {s : State} {r : Rotation} {k : Nat} {key : ApiKey}

theorem advance_creating (hphase : r.phase = .creating) : advance s r =
    ({ s with
        keys := s.keys.put (newKey s.nextId (successorName r) r.previous.machineId r.previous.expiresAt s.clock)
        nextId := s.nextId + 1 },
      { r with phase := .copying, successor := some s.nextId }) := by
  simp only [advance, hphase]

theorem advance_copying (hphase : r.phase = .copying) (hk : r.successor = some k) : advance s r =
    ({ s with keys := updateApiKey s.keys k (carried r.previous) s.clock }, { r with phase := .shortening }) := by
  simp only [advance, hphase, hk]

theorem advance_shortening (hphase : r.phase = .shortening) (hk : r.successor = some k)
    (hkey : s.keys.get? r.keyId = some key) :
    advance s r = ({ s with keys := s.keys.put (shorten s r key) },
      { r with phase := .recording, written := r.written ++ [(key, shorten s r key)] }) := by
  simp only [advance, hphase, hk, writePredecessor, hkey]

theorem advance_recording (hphase : r.phase = .recording)
    (hk : r.successor = some k) : advance s r =
    ({ s with
        rotations := s.rotations ++
          [{ successorKeyId := k, predecessorKeyId := r.keyId, rotatedAt := r.rotatedAt, overlapEndsAt := r.end
             overlapHours := r.hours }] },
      { r with phase := .superseding }) := by
  simp only [advance, hphase, hk]

theorem advance_superseding (hphase : r.phase = .superseding) (hk : r.successor = some k)
    (hkey : s.keys.get? r.keyId = some key) :
    advance s r = ({ s with keys := s.keys.put (supersede r key) },
      { r with phase := .returned, written := r.written ++ [(key, supersede r key)] }) := by
  simp only [advance, hphase, hk, writePredecessor, hkey]

end

def State.setRotation (s : State) (i : Nat) (r : Rotation) : State := { s with running := s.running.set i r }

/-- The rotation goes on; a write that fails makes it throw, and what it did before stays. -/
def resume (s : State) (i : Nat) (fault : Bool) : State :=
  match s.running[i]? with
  | some r =>
    if r.failed ∨ r.phase = .returned then s
    else if fault then s.setRotation i { r with failed := true }
    else (advance s r).1.setRotation i (advance s r).2
  | none => s

/-- What happens next. An update or an adoption that throws has no effect; a profile that is missing
makes an adoption throw, and its date is taken before its write. -/
inductive Op where
  | elapse (milliseconds : Nat)
  | rotate (keyId : Nat) (overlapHours : Option ℚ) (name : Option Text)
  | resume (i : Nat) (fault : Bool)
  | update (id : Nat) (data : KeyPatch) (fault : Bool)
  | adopt (id : Nat) (settings : Option ProfileVersion) (date : Nat) (fault : Bool)
  | spend (id : Nat) (usage : Usage)
  | validate (id : Nat)

def Op.patch : Op → Option (Nat × KeyPatch)
  | .update id data false => some (id, data)
  | .adopt id (some settings) date false => some (id, adoptionPatch settings date)
  | _ => none

def step (s : State) (op : Op) : State :=
  match op with
  | .elapse milliseconds => { s with clock := s.clock + milliseconds }
  | .rotate keyId overlapHours name =>
    match beginRotation s keyId overlapHours name with
    | .ok r => { s with running := s.running ++ [r] }
    | .error _ => s
  | .resume i fault => resume s i fault
  | .spend id usage => { s with usage := fun k => if k = id then usage else s.usage k }
  | .validate _ => s
  | op =>
    match op.patch with
    | some (id, data) => { s with keys := updateApiKey s.keys id data s.clock }
    | none => s

def State.validates (s : State) (key : ApiKey) : Bool := validateApiKey key (s.usage key.id) s.clock

end TokenProxy.KeyLifecycle
