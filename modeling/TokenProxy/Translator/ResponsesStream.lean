import Mathlib.Data.List.Sort
import TokenProxy.Lib.Emitter
import TokenProxy.Lib.Table
import TokenProxy.Lib.Text
import TokenProxy.Translator.Chunk

/-!
# From OpenAI chunks to a Responses stream

`openaiToOpenAIResponsesResponse`: chunks of an OpenAI chat stream become the events of the
Responses API. Reasoning, the message of each choice and each tool call are output items with an
index of their own; an item is added, filled by deltas and done, and `response.completed` lists the
items as they were recorded last.
-/

namespace TokenProxy.Translator

open Lib

/-! ### Items and events -/

/-- An item of the response's output. The summary and the content of an item
that was only added are none. -/
inductive OutputItem where
  | reasoning (id : Text) (summary : Option Text)
  | message (id : Text) (content : Option Text)
  | functionCall (id callId name : Text) (space : Option Text) (arguments : Text)
  | customToolCall (id callId name : Text) (space : Option Text) (input : Text)
  deriving DecidableEq

/-- What the deltas of a part are of: `response.reasoning_summary_text`,
`response.output_text` and so on. -/
inductive Channel where
  | reasoningSummaryText
  | outputText
  | functionCallArguments
  | customToolCallInput
  deriving DecidableEq

structure ResponsesUsage where
  inputTokens : ℚ
  outputTokens : ℚ
  totalTokens : ℚ
  cachedTokens : Option ℚ
  cacheCreationTokens : Option ℚ
  reasoningTokens : Option ℚ
  deriving DecidableEq

/-- The data of an event; `k` is its `output_index`. -/
inductive ResponsesData where
  | created (id : Text) (createdAt : Nat)
  | inProgress (id : Text) (createdAt : Nat)
  | itemAdded (k : Int) (item : OutputItem)
  | partAdded (k : Int) (itemId : Text)
  | delta (k : Int) (channel : Channel) (itemId text : Text)
  | textDone (k : Int) (channel : Channel) (itemId text : Text)
  | partDone (k : Int) (itemId text : Text)
  | itemDone (k : Int) (item : OutputItem)
  | completed (id : Text) (createdAt : Nat) (output : List OutputItem) (usage : Option ResponsesUsage)
  deriving DecidableEq

structure ResponsesEvent where
  sequenceNumber : Nat
  data : ResponsesData
  deriving DecidableEq

/-! ### State -/

inductive OutputKey where
  | reasoning
  | msg (idx : Nat)
  | tool (idx : Nat)
  deriving DecidableEq

/-- The message of a choice, from its first text on (`msgTextBuf`, `msgItemDone`). -/
structure Message where
  textBuf : Text := []
  itemDone : Bool := false
  deriving DecidableEq

/-- `funcNames`, `funcCallIds`, `funcItemAdded`, `funcArgsBuf` and `funcItemDone` of an index. -/
structure Call where
  name : Text := []
  callId : Text := []
  itemAdded : Bool := false
  argsBuf : Text := []
  itemDone : Bool := false
  deriving DecidableEq

structure ResponsesState where
  seq : Nat := 0
  responseId : Text := []
  createdAt : Nat := 0
  started : Bool := false
  usage : Option ChunkUsage := none
  inThinking : Bool := false
  reasoningId : Text := []
  reasoningIndex : Int := -1
  reasoningBuf : Text := []
  reasoningDone : Bool := false
  messages : Dict Nat Message := .empty
  calls : Dict Nat Call := .empty
  outputIndices : Dict OutputKey Nat := .empty
  nextOutputIndex : Nat := 0
  responseOutput : Dict Int OutputItem := .empty
  finishReason : Text := []
  completionPending : Bool := false
  completedSent : Bool := false

abbrev ResponsesEmitter := Emitter ResponsesState ResponsesEvent

def ResponsesState.call (state : ResponsesState)
    (idx : Nat) : Call := ((state.calls.get? idx).map Prod.snd).getD {}

/-- The keys of an object with integer keys, in the order in which `for … in` visits them. -/
def integerKeys {ν : Type} (d : Dict Nat ν) : List Nat := (d.rows.map Prod.fst).insertionSort (· ≤ ·)

/-! ### Names of tools -/

structure ToolMetadata where
  name : Text
  space : Option Text := none
  custom : Bool := false
  deriving DecidableEq

/-- The tools that the request declared: `customToolNames` and `responsesToolNameMap`. -/
structure ToolNames where
  customToolNames : List Text := []
  responsesToolNameMap : Dict Text ToolMetadata := .empty

def resolveResponsesToolCall (names : ToolNames) (name : Text) : ToolMetadata :=
  match names.responsesToolNameMap.get? name with
  | some direct => direct.2
  | none =>
    -- a namespaced tool called by its bare name, if one such tool was declared
    match (names.responsesToolNameMap.rows.map Prod.snd).filter fun m => m.space.any (· ≠ []) && m.name = name with
    | [found] => found
    | _ => { name := name }

def isCustomTool (names : ToolNames) (name : Text) : Bool :=
  name ≠ [] && (names.customToolNames.contains name || (resolveResponsesToolCall names name).custom)

variable (json : JsonText) (names : ToolNames)

/-- The freeform input inside the JSON wrapper, or the text itself. -/
def extractCustomToolInput (argumentsText : Text) : Text :=
  match json.parse argumentsText with
  | some (.object fields) =>
    match fields.lookup "input".toList with
    | some (.string input) => input
    | _ => argumentsText
  | _ => argumentsText

def callItem (call : Call) (text : Text) : OutputItem :=
  let resolved := resolveResponsesToolCall names call.name
  let space := resolved.space.filter (· ≠ [])
  if isCustomTool names call.name then
    .customToolCall ("ctc_".toList ++ call.callId) call.callId resolved.name space text
  else .functionCall ("fc_".toList ++ call.callId) call.callId resolved.name space text

/-! ### Emission -/

/-- The event's number, and the record that `response.completed` is made of. -/
def emit (data : ResponsesData) : ResponsesEmitter := fun state =>
  let responseOutput := match data with
    | .itemAdded k item | .itemDone k item => state.responseOutput.put (k, item)
    | _ => state.responseOutput
  ({ state with seq := state.seq + 1, responseOutput := responseOutput }, [⟨state.seq + 1, data⟩])

/-- The index of the key; a key that has none is assigned the next one. -/
def outputIndexFor (key : OutputKey) (state : ResponsesState) : ResponsesState × Nat :=
  match state.outputIndices.get? key with
  | some assigned => (state, assigned.2)
  | none =>
    ({ state with
        nextOutputIndex := state.nextOutputIndex + 1
        outputIndices := state.outputIndices.put (key, state.nextOutputIndex) }, state.nextOutputIndex)

def emitAt (key : OutputKey) (datas : Int → List ResponsesData) : ResponsesEmitter := fun state =>
  let r := outputIndexFor key state
  Emitter.each emit (datas r.2) r.1

/-! ### Reasoning -/

def startReasoning (idx : Nat) : ResponsesEmitter := fun state =>
  if state.reasoningId ≠ [] then (state, [])
  else
    let id := "rs_".toList ++ state.responseId ++ "_".toList ++ (toString idx).toList
    let r := outputIndexFor .reasoning state
    Emitter.each emit [.itemAdded r.2 (.reasoning id none), .partAdded r.2 id]
      { r.1 with reasoningId := id, reasoningIndex := r.2 }

def emitReasoningDelta (text : Text) : ResponsesEmitter := fun state =>
  if text = [] then (state, [])
  else emit (.delta state.reasoningIndex .reasoningSummaryText state.reasoningId text)
    { state with reasoningBuf := state.reasoningBuf ++ text }

def closeReasoning : ResponsesEmitter := fun state =>
  if state.reasoningId = [] ∨ state.reasoningDone then (state, [])
  else
    Emitter.each emit
      [.textDone state.reasoningIndex .reasoningSummaryText state.reasoningId state.reasoningBuf,
        .partDone state.reasoningIndex state.reasoningId state.reasoningBuf,
        .itemDone state.reasoningIndex (.reasoning state.reasoningId (some state.reasoningBuf))]
      { state with reasoningDone := true }

/-! ### Messages -/

def messageId (state : ResponsesState) (idx : Nat) : Text :=
  "msg_".toList ++ state.responseId ++ "_".toList ++ (toString idx).toList

/-- `msgItemAdded` and `msgContentAdded` are set together, with the first text. -/
def startMessageItem (idx : Nat) : ResponsesEmitter := fun state =>
  if (state.messages.get? idx).isSome then (state, [])
  else
    emitAt (.msg idx) (fun k => [.itemAdded k (.message (messageId state idx) none), .partAdded k (messageId state idx)])
      { state with messages := state.messages.put (idx, {}) }

def emitTextContent (idx : Nat) (content : Text) : ResponsesEmitter :=
  (startMessageItem idx).seq fun state =>
    (emitAt (.msg idx) fun k => [.delta k .outputText (messageId state idx) content]).seq
      (.modify fun s =>
        let message := ((s.messages.get? idx).map Prod.snd).getD {}
        { s with messages := s.messages.put (idx, { message with textBuf := message.textBuf ++ content }) }) state

def closeMessage (idx : Nat) : ResponsesEmitter := fun state =>
  match state.messages.get? idx with
  | none => (state, [])
  | some (_, message) =>
    if message.itemDone then (state, [])
    else
      emitAt (.msg idx)
        (fun k => [.textDone k .outputText (messageId state idx) message.textBuf,
          .partDone k (messageId state idx) message.textBuf,
          .itemDone k (.message (messageId state idx) (some message.textBuf))])
        { state with messages := state.messages.put (idx, { message with itemDone := true }) }

/-! ### Tool calls -/

def Call.learn (call : Call) (tc : ToolCallFragment) : Call :=
  { call with
    name := if tc.name = [] then call.name else tc.name
    callId := if tc.id = [] then call.callId else tc.id }

def announceCall (idx : Nat) : ResponsesEmitter := fun state =>
  let call := state.call idx
  if ¬ call.itemAdded ∧ call.callId ≠ [] ∧ call.name ≠ [] then
    emitAt (.tool idx) (fun k => [.itemAdded k (callItem names call [])])
      { state with calls := state.calls.put (idx, { call with itemAdded := true }) }
  else (state, [])

/-- A fragment is streamed as it came, and merged into the buffer. The input of a
custom tool waits for the close. -/
def emitArguments (idx : Nat) (fragment : Text) : ResponsesEmitter := fun state =>
  let call := state.call idx
  if fragment = [] then (state, [])
  else
    (if call.itemAdded ∧ call.callId ≠ [] ∧ ¬ isCustomTool names call.name then
        emitAt (.tool idx) fun k => [.delta k .functionCallArguments ("fc_".toList ++ call.callId) fragment]
      else .skip).seq
      (.modify fun s =>
        { s with calls := s.calls.put (idx, { call with argsBuf := mergeToolArguments json call.argsBuf fragment }) }) state

def emitToolCall (tc : ToolCallFragment) : ResponsesEmitter :=
  ((Emitter.modify fun s => { s with calls := s.calls.put (tc.idx, (s.call tc.idx).learn tc) }).seq
    (announceCall names tc.idx)).seq (emitArguments json names tc.idx tc.arguments)

def Call.args (call : Call) : Text := if call.argsBuf = [] then "\x7b\x7d".toList else call.argsBuf

def Call.doneText (call : Call) : Text :=
  if isCustomTool names call.name then extractCustomToolInput json call.args else call.args

def closeToolCall (idx : Nat) : ResponsesEmitter := fun state =>
  let call := state.call idx
  if call.callId = [] ∨ call.itemDone then (state, [])
  else
    emitAt (.tool idx)
      (fun k =>
        (if isCustomTool names call.name then
          [ResponsesData.delta k .customToolCallInput ("ctc_".toList ++ call.callId) (call.doneText json names),
            .textDone k .customToolCallInput ("ctc_".toList ++ call.callId) (call.doneText json names)]
        else [ResponsesData.textDone k .functionCallArguments ("fc_".toList ++ call.callId) (call.doneText json names)]) ++
          [ResponsesData.itemDone k (callItem names call (call.doneText json names))])
      { state with calls := state.calls.put (idx, { call with itemDone := true }) }

/-! ### The end of the response -/

def positive (q : ℚ) : Option ℚ := if 0 < q then some q else none

def toResponsesUsage (raw : ChunkUsage) : Option ResponsesUsage :=
  let inputTokens := raw.promptTokens.getD 0
  let outputTokens := raw.completionTokens.getD 0
  let totalTokens := raw.totalTokens.getD 0
  if inputTokens = 0 ∧ outputTokens = 0 then none
  else
    some
      { inputTokens := inputTokens
        outputTokens := outputTokens
        totalTokens := if totalTokens = 0 then inputTokens + outputTokens else totalTokens
        cachedTokens :=
          positive ((raw.cachedTokens <|> raw.detailsCachedTokens <|> raw.cacheReadInputTokens).getD 0)
        cacheCreationTokens :=
          positive ((raw.cacheCreationInputTokens <|> raw.detailsCacheCreationTokens).getD 0)
        reasoningTokens := positive (raw.detailsReasoningTokens.getD 0) }

def recordedOutput (state : ResponsesState) : List OutputItem :=
  (List.range state.nextOutputIndex).filterMap fun (k : Nat) => (state.responseOutput.get? k).map Prod.snd

def sendCompleted : ResponsesEmitter := fun state =>
  if state.completedSent then (state, [])
  else
    emit (.completed state.responseId state.createdAt (recordedOutput state) (state.usage.bind toResponsesUsage))
      { state with completedSent := true }

/-- Every item is done: the messages, the reasoning and the calls that have an id. -/
def closeItems : ResponsesEmitter := fun state =>
  ((Emitter.each closeMessage (integerKeys state.messages)).seq closeReasoning).seq
    (Emitter.each (closeToolCall json names) (integerKeys state.calls)) state

def flushEvents : ResponsesEmitter := fun state =>
  if state.completedSent then (state, []) else (closeItems json names).seq sendCompleted state

/-! ### One chunk -/

/-- What a content is, between and outside `<think>` tags. -/
structure ContentParts where
  opens : Bool
  closes : Bool
  reasoning : Text
  text : Text
  inThinking : Bool
  deriving DecidableEq

def readContent (inThinking : Bool) (content : Text) : ContentParts :=
  let opens := (splitFirst "<think>".toList content).isSome
  let content := removeFirst "<think>".toList content
  match splitFirst "</think>".toList content with
  | some (thinkPart, textPart) => ⟨opens, true, thinkPart, textPart, false⟩
  | none => if inThinking || opens then ⟨opens, false, content, [], true⟩ else ⟨opens, false, [], content, false⟩

/-- The content ends inside a `<think>` section, and the rest of the chunk is not read. -/
def staysInThought (inThinking : Bool) (content : Text) : Bool :=
  content ≠ [] && (readContent inThinking content).inThinking && (readContent inThinking content).reasoning ≠ []

def startResponse (chunk : Chunk) : ResponsesEmitter := fun state =>
  if state.started then (state, [])
  else
    let id := if chunk.id = [] then state.responseId else "resp_".toList ++ chunk.id
    Emitter.each emit [.created id state.createdAt, .inProgress id state.createdAt]
      { state with started := true, responseId := id }

def emitReasoningText (idx : Nat) (text : Text) : ResponsesEmitter :=
  if text = [] then .skip else (startReasoning idx).seq (emitReasoningDelta text)

def endReasoning : ResponsesEmitter := fun state =>
  if state.inThinking then (state, []) else closeReasoning state

def emitParts (idx : Nat) (parts : ContentParts) : ResponsesEmitter :=
  ((((endReasoning.seq (if parts.opens then startReasoning idx else .skip)).seq (emitReasoningDelta parts.reasoning)).seq
    (if parts.closes then closeReasoning else .skip)).seq
      (.modify fun s => { s with inThinking := parts.inThinking })).seq
        (if parts.text = [] then .skip else emitTextContent idx parts.text)

def emitContentText (idx : Nat) (content : Text) : ResponsesEmitter := fun state =>
  if content = [] then (state, []) else emitParts idx (readContent state.inThinking content) state

def emitToolCallsOf (idx : Nat) (toolCalls : List ToolCallFragment) : ResponsesEmitter :=
  if toolCalls = [] then .skip else (closeMessage idx).seq (.each (emitToolCall json names) toolCalls)

def finishResponse (reason : Text) : ResponsesEmitter :=
  if reason = [] then .skip
  else
    (((Emitter.modify fun s => { s with finishReason := reason }).seq (closeItems json names)).seq
      (.modify fun s => { s with completionPending := true })).seq
        fun state => if state.usage.isSome then sendCompleted state else (state, [])

def emitResponsesChoice (chunk : Chunk) (choice : Choice) : ResponsesEmitter :=
  ((startResponse chunk).seq (emitReasoningText choice.index (extractReasoningText choice.delta))).seq fun state =>
    if staysInThought state.inThinking choice.delta.content then emitContentText choice.index choice.delta.content state
    else
      ((emitContentText choice.index choice.delta.content).seq
        (emitToolCallsOf json names choice.index choice.delta.toolCalls)).seq
          (finishResponse json names choice.finishReason) state

def noteUsage (usage : UsageField) : ResponsesEmitter := .modify fun state =>
  match usage with
  | .reported usage => { state with usage := some usage }
  | _ => state

/-- `openaiToOpenAIResponsesResponse` on a chunk, or on the null of the flush. -/
def openaiToOpenAIResponsesResponse : Option Chunk → ResponsesEmitter
  | none => flushEvents json names
  | some chunk =>
    (noteUsage chunk.usage).seq fun state =>
      match chunk.choices.head? with
      | none => if state.completionPending ∧ state.usage.isSome then sendCompleted state else (state, [])
      | some choice => emitResponsesChoice json names chunk choice state

def responsesChunks (chunks : List Chunk) : ResponsesEmitter :=
  .each (fun c => openaiToOpenAIResponsesResponse json names (some c)) chunks

def responsesStream (chunks : List Chunk) : ResponsesEmitter :=
  (responsesChunks json names chunks).seq (openaiToOpenAIResponsesResponse json names none)

end TokenProxy.Translator
