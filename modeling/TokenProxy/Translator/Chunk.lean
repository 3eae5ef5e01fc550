import Mathlib.Algebra.Order.Ring.Rat
import Mathlib.Data.List.Infix

/-!
# Chunks of an OpenAI chat stream

The chunks that the response translators read, and the pieces of them that several translators
share: reasoning text across vendor shapes, and the accumulated arguments of a tool call. A text
that is empty stands for an absent or null one, which the translators treat alike; numbers are
rationals.
-/

namespace TokenProxy.Translator

abbrev Text := List Char

/-! ### JSON -/

inductive Json where
  | null
  | bool (b : Bool)
  | number (q : ℚ)
  | string (s : Text)
  | array (items : List Json)
  | object (fields : List (Text × Json))

/-- `JSON.parse`, which throws on a text that is not JSON, and `JSON.stringify`. -/
structure JsonText where
  parse : Text → Option Json
  stringify : Json → Text

def noJson : JsonText := ⟨fun _ => none, fun _ => []⟩

/-! ### Chunks -/

/-- `usage`, with the counts of its `prompt_tokens_details` and `completion_tokens_details`. -/
structure ChunkUsage where
  promptTokens : Option ℚ := none
  completionTokens : Option ℚ := none
  totalTokens : Option ℚ := none
  detailsCachedTokens : Option ℚ := none
  detailsCacheCreationTokens : Option ℚ := none
  detailsReasoningTokens : Option ℚ := none
  cachedTokens : Option ℚ := none
  cacheReadInputTokens : Option ℚ := none
  cacheCreationInputTokens : Option ℚ := none
  cost : Option ℚ := none
  upstreamInferenceCost : Option ℚ := none
  deriving DecidableEq

/-- A chunk leaves `usage` out, sets it to null, or reports it. -/
inductive UsageField where
  | absent
  | null
  | reported (usage : ChunkUsage)
  deriving DecidableEq

/-- An entry of `reasoning_details`. -/
inductive ReasoningDetail where
  | text (s : Text)
  | entry (text content : Text)
  deriving DecidableEq

/-- An entry of a delta's `tool_calls`. -/
structure ToolCallFragment where
  index : Option Nat := none
  id : Text := []
  name : Text := []
  arguments : Text := []
  deriving DecidableEq

/-- `tc.index ?? 0` -/
def ToolCallFragment.idx (tc : ToolCallFragment) : Nat := tc.index.getD 0

structure Delta where
  content : Text := []
  reasoningContent : Text := []
  reasoning : Text := []
  reasoningDetails : List ReasoningDetail := []
  toolCalls : List ToolCallFragment := []
  deriving DecidableEq

structure Choice where
  index : Nat := 0
  delta : Delta := {}
  finishReason : Text := []
  deriving DecidableEq

structure Chunk where
  id : Text := []
  model : Text := []
  requestId : Text := []
  traceId : Text := []
  choices : List Choice := []
  usage : UsageField := .absent
  deriving DecidableEq

/-! ### Reasoning -/

def ReasoningDetail.read : ReasoningDetail → Text
  | .text s => s
  | .entry t content => if t ≠ [] then t else content

def extractReasoningText (delta : Delta) : Text :=
  if delta.reasoningContent ≠ [] then delta.reasoningContent
  else if delta.reasoning ≠ [] then delta.reasoning
  else delta.reasoningDetails.flatMap ReasoningDetail.read

/-! ### Tool arguments -/

/-- The loop of `mergeToolArguments`: JSON that is replayed as a whole is kept once. Each round
halves the text, so its length bounds the rounds. -/
def unreplay (json : JsonText) : Nat → Text → Text
  | 0, merged => merged
  | rounds + 1, merged =>
    let half := merged.take (merged.length / 2)
    if merged ≠ [] ∧ merged.length % 2 = 0 ∧ half = merged.drop (merged.length / 2) ∧ (json.parse half).isSome then
      unreplay json rounds half
    else merged

def mergeToolArguments (json : JsonText) (prev next : Text) : Text :=
  let merged := if prev ≠ [] ∧ prev.length < next.length ∧ prev <+: next then next else prev ++ next
  unreplay json merged.length merged

end TokenProxy.Translator
