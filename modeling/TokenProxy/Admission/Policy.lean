import Mathlib.Data.Rat.Floor
import TokenProxy.Lib.Table

/-!
# The admission policy

`validateAdmissionPolicy` of `resourceAdmission.js`. A setting that passes its check is a number
inside its bounds, so `AdmissionPolicy` keeps every setting as a `Limit`, and the two checks across
settings (the stream bounds, the operator's override) as fields.
-/

namespace TokenProxy.Admission

open TokenProxy.Lib

/-- What a setting of the operator's input may hold: the cases the validation tells apart. `other`
is every value that is no boolean, no `null` and no safe integer. -/
inductive SettingValue
  | bool (b : Bool)
  | null
  | int (n : Int)
  | other
  deriving DecidableEq

/-- A setting's value once checked: a positive integer up to `max`. -/
abbrev Limit (max : Nat) := {n : Nat // 1 ≤ n ∧ n ≤ max}

abbrev countMax : Nat := 65536

/-- The bound on a setting whose key ends in `Ms`. -/
abbrev durationMax : Nat := 300000

structure AdmissionPolicy where
  adaptive : Bool
  minStreams : Limit countMax
  maxStreams : Limit countMax
  maxHandlers : Limit countMax
  clientStreams : Limit countMax
  clientHandlers : Limit countMax
  providerStreams : Limit countMax
  queueDepth : Limit countMax
  clientQueueDepth : Limit countMax
  maxWaitMs : Limit durationMax
  memoryBudgetMb : Limit countMax
  eventLoopBudgetMs : Limit durationMax
  minSamples : Limit countMax
  cooldownMs : Limit durationMax
  overrideStreams : Option (Limit countMax)
  min_le_max : minStreams.1 ≤ maxStreams.1
  override_inside : ∀ o ∈ overrideStreams, minStreams.1 ≤ o.1 ∧ o.1 ≤ maxStreams.1
  deriving DecidableEq

/-- `ADMISSION_DEFAULTS`. -/
def admissionDefaults : AdmissionPolicy where
  adaptive := true
  minStreams := ⟨8, by decide⟩
  maxStreams := ⟨128, by decide⟩
  maxHandlers := ⟨64, by decide⟩
  clientStreams := ⟨32, by decide⟩
  clientHandlers := ⟨32, by decide⟩
  providerStreams := ⟨64, by decide⟩
  queueDepth := ⟨512, by decide⟩
  clientQueueDepth := ⟨128, by decide⟩
  maxWaitMs := ⟨30000, by decide⟩
  memoryBudgetMb := ⟨2048, by decide⟩
  eventLoopBudgetMs := ⟨100, by decide⟩
  minSamples := ⟨5, by decide⟩
  cooldownMs := ⟨10000, by decide⟩
  overrideStreams := none
  min_le_max := by decide
  override_inside := by decide

/-- The keys of `ADMISSION_DEFAULTS`, in their order. -/
def admissionKeys : List String :=
  ["adaptive", "minStreams", "maxStreams", "maxHandlers", "clientStreams", "clientHandlers", "providerStreams",
    "queueDepth", "clientQueueDepth", "maxWaitMs", "memoryBudgetMb", "eventLoopBudgetMs", "minSamples",
    "cooldownMs", "overrideStreams"]

abbrev PolicyInput := Dict String SettingValue

def checkLimit (key : String) (max : Nat) : SettingValue → Except String (Limit max)
  | .int n => if h : 1 ≤ n ∧ n ≤ max then .ok ⟨n.toNat, by omega⟩ else .error ("Invalid " ++ key)
  | _ => .error ("Invalid " ++ key)

/-- The check of a numeric setting: the input's value where it has one, else the default. -/
def limitSetting (input : PolicyInput) (key : String) {max : Nat} (default : Limit max) :
    Except String (Limit max) :=
  match input.get? key with
  | none => .ok default
  | some e => checkLimit key max e.2

def adaptiveSetting (input : PolicyInput) : Except String Bool :=
  match input.get? "adaptive" with
  | none => .ok admissionDefaults.adaptive
  | some (_, .bool b) => .ok b
  | some _ => .error "adaptive must be boolean"

def overrideSetting (input : PolicyInput) : Except String (Option (Limit countMax)) :=
  match input.get? "overrideStreams" with
  | none => .ok admissionDefaults.overrideStreams
  | some (_, .null) => .ok none
  | some e => (checkLimit "overrideStreams" countMax e.2).map some

/-- The checks of the merged object run in the order of its keys: the defaults' keys, then the keys
the defaults do not have, the first of which is refused. -/
def unknownSetting (input : PolicyInput) : Except String Unit :=
  match input.rows.find? (fun e => !admissionKeys.contains e.1) with
  | some e => .error ("Unknown admission setting " ++ e.1)
  | none => .ok ()

def validateAdmissionPolicy : Option PolicyInput → Except String AdmissionPolicy
  | none => .error "Admission policy must be an object"
  | some input => do
    let d := admissionDefaults
    let adaptive ← adaptiveSetting input
    let minStreams ← limitSetting input "minStreams" d.minStreams
    let maxStreams ← limitSetting input "maxStreams" d.maxStreams
    let maxHandlers ← limitSetting input "maxHandlers" d.maxHandlers
    let clientStreams ← limitSetting input "clientStreams" d.clientStreams
    let clientHandlers ← limitSetting input "clientHandlers" d.clientHandlers
    let providerStreams ← limitSetting input "providerStreams" d.providerStreams
    let queueDepth ← limitSetting input "queueDepth" d.queueDepth
    let clientQueueDepth ← limitSetting input "clientQueueDepth" d.clientQueueDepth
    let maxWaitMs ← limitSetting input "maxWaitMs" d.maxWaitMs
    let memoryBudgetMb ← limitSetting input "memoryBudgetMb" d.memoryBudgetMb
    let eventLoopBudgetMs ← limitSetting input "eventLoopBudgetMs" d.eventLoopBudgetMs
    let minSamples ← limitSetting input "minSamples" d.minSamples
    let cooldownMs ← limitSetting input "cooldownMs" d.cooldownMs
    let overrideStreams ← overrideSetting input
    unknownSetting input
    if hmin : minStreams.1 ≤ maxStreams.1 then
      if hover : ∀ o ∈ overrideStreams, minStreams.1 ≤ o.1 ∧ o.1 ≤ maxStreams.1 then
        return { adaptive, minStreams, maxStreams, maxHandlers, clientStreams, clientHandlers, providerStreams,
                 queueDepth, clientQueueDepth, maxWaitMs, memoryBudgetMb, eventLoopBudgetMs, minSamples,
                 cooldownMs, overrideStreams, min_le_max := hmin, override_inside := hover }
      else throw "Override must be inside operator bounds"
    else throw "Minimum streams exceeds maximum"

end TokenProxy.Admission
