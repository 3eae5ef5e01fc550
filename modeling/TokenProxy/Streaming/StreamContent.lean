import TokenProxy.Lib.Text
import TokenProxy.Translator.Chunk
import Mathlib.Algebra.Ring.Nat

/-!
# What a frame of a stream carries

Whether the payload of an event is output of the model, and whether that output is an upstream error
in disguise. A value that is `undefined` is none; `v?.key` reads the fields of an object only.
-/

namespace TokenProxy.Streaming

open Lib (isBlank trim)
open Translator (Json Text)

inductive TypeError where
  | notAFunction
  | notAPrimitive
  deriving DecidableEq

/-- Built-in functions on parsed values: `JSON.parse`, `Number` where the result is finite, and the
text of a value in a template; these throw for an object that hides its `toString`. -/
structure Builtins where
  parse : Text → Option Json
  number : Json → Except TypeError (Option ℚ)
  text : Json → Option Text

/-! ### Reading a parsed value -/

/-- `v?.key` -/
def prop (v : Option Json) (key : String) : Option Json :=
  match v with
  | some (.object fields) => fields.lookup key.toList
  | _ => none

/-- `v?.[0]` -/
def first : Option Json → Option Json
  | some (.array items) => items.head?
  | some (.object fields) => fields.lookup ['0']
  | some (.string s) => s.head?.map fun c => .string [c]
  | _ => none

def truthy : Option Json → Bool
  | none => false
  | some .null => false
  | some (.bool b) => b
  | some (.number q) => q ≠ 0
  | some (.string s) => s ≠ []
  | some (.array _) => true
  | some (.object _) => true

/-- `v?.length` is neither absent nor zero. -/
def hasLength : Option Json → Bool
  | some (.array items) => !items.isEmpty
  | some (.string s) => !s.isEmpty
  | v => truthy (prop v "length")

/-- `a ?? b` -/
def nullish (a b : Option Json) : Option Json :=
  match a with
  | none => b
  | some .null => b
  | a => a

def isString (v : Option Json) (s : String) : Bool :=
  match v with
  | some (.string t) => t = s.toList
  | _ => false

def nonEmptyString : Option Json → Bool
  | some (.string s) => s ≠ []
  | _ => false

def textOf : Option Json → Text
  | some (.string s) => s
  | _ => []

/-! ### Output of the model -/

def partIsActionable (part : Json) : Bool :=
  let part := some part
  (nonEmptyString (prop part "text") && !(match prop part "thought" with | some (.bool true) => true | _ => false))
    || truthy (prop part "functionCall") || truthy (prop (prop part "inlineData") "data")

/-- `candidate?.content?.parts?.some(…)`: parts that are no array have no such method. -/
def candidateIsActionable (candidate : Json) : Except TypeError Bool :=
  match prop (prop (some candidate) "content") "parts" with
  | some (.array parts) => .ok (parts.any partIsActionable)
  | none => .ok false
  | some .null => .ok false
  | some _ => .error .notAFunction

def frameCarriesActionableGeminiOutput (payload : Json) : Except TypeError (Option Bool) :=
  let wrapped := prop (some payload) "response"
  match prop (if truthy wrapped then wrapped else some payload) "candidates" with
  | some (.array candidates) => do return some (← candidates.anyM candidateIsActionable)
  | _ => .ok (if truthy wrapped then some false else none)

def hasOutputTokens (js : Builtins) (usage : Option Json) : Except TypeError Bool :=
  match usage with
  | some (.object _) =>
    let value := nullish (nullish (prop usage "completion_tokens") (prop usage "output_tokens")) (prop usage "candidatesTokenCount")
    match nullish value (some (.number 0)) with
    | some v => do return (← js.number v).any (0 < ·)
    | none => .ok false
  | _ => .ok false

structure PeekOptions where
  preserveOnNoContent : Bool := false
  includeClaudeTerminal : Bool := false
  requireActionableGeminiOutput : Bool := false

def partCarriesContent (part : Json) : Bool :=
  nonEmptyString (prop (some part) "text") || truthy (prop (some part) "functionCall") || truthy (prop (some part) "inlineData")

def carriesOutput (options : PeekOptions) (parsed : Json) : Bool :=
  let parsed := some parsed
  let delta := prop (first (prop parsed "choices")) "delta"
  let contentDelta := prop parsed "delta"
  nonEmptyString (prop delta "content")
    || nonEmptyString (prop delta "reasoning_content") || nonEmptyString (prop delta "reasoning")
    || hasLength (prop delta "tool_calls") || truthy (prop delta "function_call")
    || (isString (prop parsed "type") "content_block_delta" &&
      (nonEmptyString (prop contentDelta "text") || nonEmptyString (prop contentDelta "partial_json")
        || nonEmptyString (prop contentDelta "thinking")))
    || (isString (prop parsed "type") "content_block_start" && isString (prop (prop parsed "content_block") "type") "tool_use")
    || (options.includeClaudeTerminal && isString (prop parsed "type") "message_stop")
    || (decide (".delta".toList <:+ textOf (prop parsed "type")) && nonEmptyString (prop parsed "delta"))
    || (match prop (prop (first (prop parsed "candidates")) "content") "parts" with
      | some (.array parts) => parts.any partCarriesContent
      | _ => false)
    || nonEmptyString (prop (prop parsed "message") "content") || nonEmptyString (prop parsed "response")
    || hasLength (prop (prop parsed "message") "tool_calls")

/-- With Gemini's format an event is judged by its visible parts; other formats, and Gemini events
without candidates, by what they carry. -/
def payloadCarriesContent (js : Builtins) (options : PeekOptions)
    (parsed : Json) : Except TypeError Bool := do
  if options.requireActionableGeminiOutput then
    if let some actionable ← frameCarriesActionableGeminiOutput parsed then return actionable
  if ← hasOutputTokens js (prop (some parsed) "usage") then return true
  if ← hasOutputTokens js (prop (prop (some parsed) "response") "usage") then return true
  return carriesOutput options parsed

def parseDataPayload (js : Builtins) (data : Text) : Option Json :=
  let payload := trim data
  if payload = [] ∨ payload = "[DONE]".toList then none
  else
    match js.parse payload with
    | some .null => none
    | parsed => parsed

/-- The text of an event, in the shapes in which an upstream error arrives. -/
def payloadContentText (parsed : Json) : Text :=
  let parsed := some parsed
  let delta := prop (first (prop parsed "choices")) "delta"
  if nonEmptyString (prop delta "content") then textOf (prop delta "content")
  else if isString (prop parsed "type") "content_block_delta" && nonEmptyString (prop (prop parsed "delta") "text") then
    textOf (prop (prop parsed "delta") "text")
  else if nonEmptyString (prop (prop parsed "message") "content") then textOf (prop (prop parsed "message") "content")
  else textOf (prop parsed "response")

/-! ### Upstream errors as content -/

structure UpstreamError where
  reason : Text
  retryable : Bool
  status : Option ℚ
  deriving DecidableEq

def unitsOf (cs : Text) : Nat := (cs.map fun c => if c.val < 0x10000 then 1 else 2).sum

/-- `cs.slice(0, n)`; a character that the cut would halve is left out. -/
def sliceUnits : Nat → Text → Text
  | n, c :: cs => if unitsOf [c] ≤ n then c :: sliceUnits (n - unitsOf [c]) cs else []
  | _, [] => []

def isMarkerLabel (c : Char) : Bool := c.isAlphanum || c = '_' || c = '.' || c = '-' || c = ' '

/-- What stands between the colon of a marker and the bracket that ends the text. -/
def markerPayload (cs : Text) : Option Text :=
  let payload := cs.dropWhile isBlank
  if payload.getLast? = some ']' then some payload.dropLast else none

/-- A marker after its label: the HTTP status, if there is one, and the payload. -/
def markerTail (cs : Text) : Option (Text × Text) :=
  if " error".toList <+: cs then
    let rest := cs.drop 6
    let status := (rest.dropWhile isBlank).take 3
    let afterStatus := (rest.dropWhile isBlank).drop 3
    if rest.head?.any isBlank ∧ status.length = 3 ∧ status.all Char.isDigit ∧ afterStatus.head? = some ':' then
      (markerPayload (afterStatus.drop 1)).map fun payload => (status, payload)
    else if rest.head? = some ':' then (markerPayload (rest.drop 1)).map fun payload => ([], payload)
    else none
  else none

/-- A marker at the beginning of a text: its label, the longest one first,
its status and its payload. -/
def markerAt : Text → Option (Text × Text × Text)
  | '[' :: c :: cs =>
    if c.isAlpha then
      (List.range 41).reverse.findSome? fun n =>
        if n ≤ cs.length ∧ (cs.take n).all isMarkerLabel then (markerTail (cs.drop n)).map fun r => (c :: cs.take n, r.1, r.2)
        else none
    else none
  | _ => none

/-- `STRUCTURED_MARKER`, in a text that is trimmed. -/
def structuredMarker (cs : Text) : Option (Text × Text × Text) := cs.tails.findSome? markerAt

def proseSignatures : List String :=
  ["servers are currently overloaded", "service temporarily unavailable", "upstream error", "model call unauthorized",
    "model call rejected", "upstream stream ended before terminal chunk", "rate limit exceeded", "too many requests"]

def maxProseErrorLength : Nat := 300

/-- The detail of a marker: what its payload calls the message or the type, else the payload. -/
def markerDetail (js : Builtins) (parsed : Option Json) (payload : Text) : Except TypeError Text :=
  let named := if truthy (prop parsed "message") then prop parsed "message" else prop parsed "type"
  match named with
  | some v =>
    if truthy named then
      match js.text v with
      | some detail => .ok detail
      | none => .error .notAPrimitive
    else .ok (sliceUnits 120 (trim payload))
  | none => .ok (sliceUnits 120 (trim payload))

def detectUpstreamErrorContent (js : Builtins)
    (text : Text) : Except TypeError (Option UpstreamError) :=
  let trimmed := trim text
  if trimmed = [] then .ok none
  else
    match structuredMarker trimmed with
    | some (label, markerStatus, payload) => do
      let parsed := js.parse (trim payload)
      let detail ← markerDetail js parsed payload
      return some
        { reason := label ++ " upstream error: ".toList ++ detail
          retryable := match prop parsed "isRetryable" with | some (.bool b) => b | _ => true
          status :=
            match prop parsed "statusCode" with
            | some (.number q) => some q
            | _ => (String.ofList markerStatus).toNat?.map fun n => (n : ℚ) }
    | none =>
      let lower := trimmed.flatMap Lib.lowerCase
      if maxProseErrorLength < unitsOf trimmed then .ok none
      else if proseSignatures.any fun sig => decide (sig.toList <:+: lower) then
        .ok (some { reason := "upstream error in content: ".toList ++ sliceUnits 120 trimmed, retryable := true, status := none })
      else .ok none

end TokenProxy.Streaming
