import Mathlib.Algebra.Order.Floor.Semiring
import Mathlib.Data.Rat.Floor
import TokenProxy.Capacity.History
import TokenProxy.Lib.Json

/-!
# The context budget

How much of a model's window a request may occupy, and how far over it a request is. Characters are
counted over the whole body; tokens come from characters by a constant and a calibration.
`Number(value)` of an operator's setting is none where it is not finite.
-/

namespace TokenProxy.Context

open Lib (Json JsonItems JsonFields)

/-- `CHARS_PER_TOKEN` -/
def charsPerToken : ℚ := 16 / 5

def defaultContextWindow : ℕ := 200000

def defaultReserveFraction : ℚ := 1 / 20

def minReserveTokens : ℕ := 8000

def defaultReliefFraction : ℚ := 1 / 10

def mediaTokenEstimate : ℕ := 1600

/-! ### Characters -/

def mediaTypes : List String :=
  ["image_url", "image", "input_image", "input_audio", "audio_url", "audio", "input_video", "video_url", "video", "document", "file"]

/-- `Boolean(block.key?.inner)` -/
def hasField (block : JsonFields) (key inner : String) : Bool :=
  (((block.get key).bind fun value => value.field inner).map Json.truthy).getD false

def isMediaBlock (block : JsonFields) : Bool :=
  (match block.get "type" with
    | some (.string type) => type ∈ mediaTypes
    | _ => false) ||
    hasField block "inlineData" "mimeType" || hasField block "fileData" "mimeType" || hasField block "source" "data"

/-- `Math.round(MEDIA_TOKEN_ESTIMATE * CHARS_PER_TOKEN)` -/
def mediaChars : ℕ := ⌊(mediaTokenEstimate : ℚ) * charsPerToken + 1 / 2⌋₊

mutual

/-- `estimateChars`; nothing is counted below the twelfth level. -/
def estimateChars (depth : ℕ) : Json → ℕ
  | .null => 0
  | .bool b => if 12 < depth then 0 else if b then 4 else 5
  | .number text => if 12 < depth then 0 else Capacity.jsLength text
  | .string s => if 12 < depth then 0 else Capacity.jsLength s
  | .array items => if 12 < depth then 0 else itemChars (depth + 1) items
  | .object fields => if 12 < depth then 0 else if isMediaBlock fields then mediaChars else fieldChars (depth + 1) fields

def itemChars (depth : ℕ) : JsonItems → ℕ
  | .nil => 0
  | .cons item items => estimateChars depth item + itemChars depth items

def fieldChars (depth : ℕ) : JsonFields → ℕ
  | .nil => 0
  | .cons key value fields => Capacity.jsLength key + estimateChars depth value + fieldChars depth fields

end

def charsOf (part : Option Json) : ℕ := (part.map (estimateChars 0)).getD 0

def arrayField (body : Json) (key : String) : Option Json :=
  match body.field key with
  | some (.array items) => some (.array items)
  | _ => none

def conversationOf (body : Json) : Option Json :=
  (arrayField body "messages").orElse fun _ => (arrayField body "input").orElse fun _ => arrayField body "contents"

/-- The characters that `estimateRequestTokens` counts. -/
def requestChars (body : Json) : ℕ :=
  charsOf (body.field "system") + charsOf (body.field "instructions") + charsOf (body.field "tools") + charsOf (body.field "systemInstruction") +
    charsOf (conversationOf body)

def estimateRequestTokens (body : Json) : ℕ := ⌈(requestChars body : ℚ) / charsPerToken⌉₊

/-! ### The budget -/

/-- The settings of an operator, each as `Number` reads it. -/
structure Settings where
  memoryContextWindowOverride : Option ℚ := none
  memoryContextReserveFraction : Option ℚ := none
  memoryContextReliefFraction : Option ℚ := none

def positiveInt (value : Option ℚ) : Option ℕ := (value.filter (0 < ·)).map fun n => ⌊n⌋₊

def fraction (value : Option ℚ) (fallback : ℚ) : ℚ := (value.filter fun n => 0 ≤ n ∧ n < 1 / 2).getD fallback

structure Budget where
  limit : ℕ
  reserve : ℕ
  budget : ℤ
  target : ℤ
  deriving DecidableEq

def resolveContextBudget (contextWindow : Option ℚ) (settings : Settings) : Budget :=
  let limit := ((positiveInt settings.memoryContextWindowOverride).orElse fun _ => positiveInt contextWindow).getD defaultContextWindow
  let reserveFraction := fraction settings.memoryContextReserveFraction defaultReserveFraction
  let reliefFraction := fraction settings.memoryContextReliefFraction defaultReliefFraction
  let reserve := max minReserveTokens ⌈(limit : ℚ) * reserveFraction⌉₊
  let budget : ℤ := max (limit / 2 : ℕ) (limit - reserve)
  let target := max 1 ⌊(budget : ℚ) * (1 - reliefFraction)⌋
  { limit, reserve, budget, target }

def calibrationFactor (value : Option ℚ) : ℚ :=
  match value with
  | some n => if 0 < n then min 4 (max (1 / 2) n) else 1
  | none => 1

structure Pressure where
  projected : ℤ
  limit : ℕ
  reserve : ℕ
  budget : ℤ
  target : ℤ
  isOver : Bool
  deficitTokens : ℤ
  calibration : ℚ
  deficitChars : ℤ

def measureContextPressure (body : Json) (contextWindow : Option ℚ) (settings : Settings)
    (calibration : Option ℚ) : Pressure :=
  let { limit, reserve, budget, target } := resolveContextBudget contextWindow settings
  let cal := calibrationFactor calibration
  let projected := ⌈(estimateRequestTokens body : ℚ) * cal⌉
  let isOver := decide (budget < projected)
  let deficitTokens := if isOver then projected - target else 0
  { projected, limit, reserve, budget, target, isOver, deficitTokens, calibration := cal
    deficitChars := ⌈(deficitTokens : ℚ) * (charsPerToken / cal)⌉ }

end TokenProxy.Context
