import Mathlib.Algebra.Order.Floor.Ring
import Mathlib.Data.Rat.Floor
import TokenProxy.Lib.Table
import TokenProxy.Lib.Text

/-!
# API keys

A key has a validity (active, not expired, no ceiling reached) and restrictions: an allowlist of
models, three ceilings and an expiry, each of which may be absent. Stamps are milliseconds, and a
value that the repository would store as null is none.
-/

namespace TokenProxy.KeyLifecycle

open Lib (Table trim)

abbrev Text := List Char

inductive BudgetPolicy where
  | strict
  | reserveRemaining
  deriving DecidableEq

structure ApiKey where
  id : Nat
  name : Text
  machineId : Option Text
  isActive : Bool := true
  createdAt : Nat
  expiresAt : Option Nat := none
  maxPromptTokens : Option Nat := none
  maxCompletionTokens : Option Nat := none
  maxCostUsd : Option ℚ := none
  budgetPolicy : Option BudgetPolicy := none
  allowedModels : Option (List Text) := none
  accessProfileId : Option Text := none
  accessProfileVersion : Option Nat := none
  accessProfileAdoptedAt : Option Nat := none
  supersededAt : Option Nat := none
  deriving DecidableEq

abbrev Keys := Table ApiKey.id

/-! ### Values as they are stored -/

def normalizeLimit (value : Option ℚ) : Option Nat := value.bind fun n => if 0 ≤ n then some ⌊n⌋.toNat else none

def normalizeCost (value : Option ℚ) : Option ℚ := value.bind fun n => if 0 ≤ n then some n else none

def normalizeAllowedModels (value : Option (List Text)) : Option (List Text) :=
  value.bind fun list =>
    let cleaned := ((list.map trim).filter fun m => m ≠ []).eraseDups
    if cleaned = [] then none else some cleaned

/-! ### Requests -/

/-- `s.split("/").pop()` -/
def bareModel (s : Text) : Text := (s.reverse.takeWhile (· ≠ '/')).reverse

def admitsEntry (want raw : Text) : Bool :=
  let entry := (trim raw).flatMap Lib.lowerCase
  if entry = want then true
  else if "/*".toList <:+ entry then entry.dropLast.dropLast = want.takeWhile (· ≠ '/')
  else if '/' ∉ entry then entry = bareModel want
  else if '/' ∉ want then bareModel entry = want
  else false

def matchesAllowedModel (allowed : Option (List Text)) (model : Text) : Bool :=
  match allowed with
  | none => true
  | some allowed =>
    let want := (trim model).flatMap Lib.lowerCase
    want ≠ [] && allowed.any (admitsEntry want)

def isExpired (expiresAt : Option Nat) (now : Nat) : Bool := expiresAt.any (· ≤ now)

structure Usage where
  promptTokens : Nat := 0
  completionTokens : Nat := 0
  costUsd : ℚ := 0
  deriving DecidableEq

inductive Limit where
  | promptTokens
  | completionTokens
  | costUsd
  deriving DecidableEq

def exceededLimit (key : ApiKey) (usage : Usage) : Option Limit :=
  if key.maxPromptTokens.any (· ≤ usage.promptTokens) then some .promptTokens
  else if key.maxCompletionTokens.any (· ≤ usage.completionTokens) then some .completionTokens
  else if key.maxCostUsd.any (· ≤ usage.costUsd) then some .costUsd
  else none

def validateApiKey (key : ApiKey) (usage : Usage) (now : Nat) : Bool :=
  !isExpired key.expiresAt now && (exceededLimit key usage).isNone && key.isActive

/-! ### Writing -/

structure KeyPatch where
  name : Option Text := none
  machineId : Option (Option Text) := none
  isActive : Option Bool := none
  expiresAt : Option (Option Nat) := none
  maxPromptTokens : Option (Option ℚ) := none
  maxCompletionTokens : Option (Option ℚ) := none
  maxCostUsd : Option (Option ℚ) := none
  budgetPolicy : Option (Option BudgetPolicy) := none
  allowedModels : Option (Option (List Text)) := none
  accessProfileId : Option (Option Text) := none
  accessProfileVersion : Option (Option Nat) := none
  accessProfileAdoptedAt : Option (Option Nat) := none
  deriving DecidableEq

def newKey (id : Nat) (name : Text) (machineId : Option Text) (expiresAt : Option Nat)
    (now : Nat) : ApiKey where
  id := id
  name := name
  machineId := machineId
  createdAt := now
  expiresAt := expiresAt
  budgetPolicy := some .strict

def adoptedAt (key : ApiKey) (data : KeyPatch) (now : Nat) : Option Nat :=
  if data.accessProfileId = none ∧ data.accessProfileVersion = none then key.accessProfileAdoptedAt
  else if data.accessProfileId.getD key.accessProfileId = none then none
  else some ((data.accessProfileAdoptedAt.getD none).getD now)

/-- The row that `updateApiKey` stores, from the row as it is in its transaction. -/
def applyPatch (key : ApiKey) (data : KeyPatch) (now : Nat) : ApiKey :=
  { key with
    name := data.name.getD key.name
    machineId := data.machineId.getD key.machineId
    isActive := data.isActive.getD key.isActive
    expiresAt := data.expiresAt.getD key.expiresAt
    maxPromptTokens := (data.maxPromptTokens.map normalizeLimit).getD key.maxPromptTokens
    maxCompletionTokens := (data.maxCompletionTokens.map normalizeLimit).getD key.maxCompletionTokens
    maxCostUsd := (data.maxCostUsd.map normalizeCost).getD key.maxCostUsd
    budgetPolicy := data.budgetPolicy.getD key.budgetPolicy
    allowedModels := (data.allowedModels.map normalizeAllowedModels).getD key.allowedModels
    accessProfileId := data.accessProfileId.getD key.accessProfileId
    accessProfileVersion := data.accessProfileVersion.getD key.accessProfileVersion
    accessProfileAdoptedAt := adoptedAt key data now }

@[simp] theorem applyPatch_id (key : ApiKey) (data : KeyPatch)
    (now : Nat) : (applyPatch key data now).id = key.id := rfl

@[simp] theorem applyPatch_expiresAt (key : ApiKey) (data : KeyPatch) (now : Nat) :
    (applyPatch key data now).expiresAt = data.expiresAt.getD key.expiresAt := rfl

@[simp] theorem applyPatch_supersededAt (key : ApiKey) (data : KeyPatch) (now : Nat) :
    (applyPatch key data now).supersededAt = key.supersededAt := rfl

def updateApiKey (keys : Keys) (id : Nat) (data : KeyPatch) (now : Nat) : Keys :=
  match keys.get? id with
  | none => keys
  | some key => keys.put (applyPatch key data now)

theorem get?_updateApiKey (keys : Keys) (id : Nat) (data : KeyPatch) (now k : Nat) :
    (updateApiKey keys id data now).get? k =
      if k = id then (keys.get? k).map fun key => applyPatch key data now else keys.get? k := by
  unfold updateApiKey
  cases hkey : keys.get? id with
  | none =>
    by_cases hk : k = id
    · simp [hk, hkey]
    · simp [hk]
  | some key =>
    have hid : key.id = id := Table.get?_key hkey
    rw [Table.get?_put, applyPatch_id, hid]
    by_cases hk : k = id
    · simp [hk, hkey]
    · simp [hk]

/-! ### Access profiles -/

structure ProfileVersion where
  profileId : Text
  version : Nat
  allowedModels : Option (List Text) := none
  maxPromptTokens : Option ℚ := none
  maxCompletionTokens : Option ℚ := none
  maxCostUsd : Option ℚ := none
  budgetPolicy : Option BudgetPolicy := none
  expiryDays : Option Nat := none
  deriving DecidableEq

/-- The patch of `adoptAccessProfile`: a profile carries a lifetime, and the key a date. -/
def adoptionPatch (settings : ProfileVersion) (now : Nat) : KeyPatch where
  allowedModels := some settings.allowedModels
  maxPromptTokens := some settings.maxPromptTokens
  maxCompletionTokens := some settings.maxCompletionTokens
  maxCostUsd := some settings.maxCostUsd
  budgetPolicy := some settings.budgetPolicy
  expiresAt := settings.expiryDays.map fun days => some (now + days * 86400000)
  accessProfileId := some (some settings.profileId)
  accessProfileVersion := some (some settings.version)

end TokenProxy.KeyLifecycle
