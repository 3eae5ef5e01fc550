import TokenProxy.Lib.Emitter
import TokenProxy.Lib.Table
import TokenProxy.Lib.Text
import TokenProxy.Translator.Chunk

/-!
# From OpenAI chunks to a Claude stream

`openaiToClaudeResponse`: chunks of an OpenAI chat stream become the events of an Anthropic message.
Reasoning and text stream into blocks of their own, tool arguments are buffered by index and sent
when the block closes, and the terminal of a finish chunk that promises usage waits for the usage. A
return of null is the empty list.
-/

namespace TokenProxy.Translator

open Lib

/-! ### Events -/

inductive ContentBlock where
  | thinking
  | text
  | toolUse (id name : Text)
  deriving DecidableEq

inductive BlockDelta where
  | thinkingDelta (thinking : Text)
  | textDelta (text : Text)
  | inputJsonDelta (partialJson : Text)
  deriving DecidableEq

structure ClaudeUsage where
  inputTokens : ℚ := 0
  outputTokens : ℚ := 0
  cacheReadInputTokens : Option ℚ := none
  cacheCreationInputTokens : Option ℚ := none
  cost : Option ℚ := none
  deriving DecidableEq

inductive ClaudeEvent where
  | messageStart (id model : Text)
  | contentBlockStart (index : Nat) (block : ContentBlock)
  | contentBlockDelta (index : Nat) (delta : BlockDelta)
  | contentBlockStop (index : Nat)
  | messageDelta (stopReason : Text) (usage : ClaudeUsage)
  | messageStop
  deriving DecidableEq

/-! ### State -/

structure ToolInfo where
  id : Text
  name : Text
  blockIndex : Nat
  deriving DecidableEq

structure PendingTool where
  id : Text := []
  name : Text := []
  deriving DecidableEq

/-- The fields of `initState` that this translator uses, and the ones it adds. -/
structure ClaudeState where
  messageId : Text := []
  model : Text := []
  messageStartSent : Bool := false
  nextBlockIndex : Nat := 0
  thinkingBlockStarted : Bool := false
  thinkingBlockIndex : Nat := 0
  textBlockStarted : Bool := false
  textBlockClosed : Bool := false
  textBlockIndex : Nat := 0
  toolCalls : Dict Nat ToolInfo := .empty
  toolPending : Dict Nat PendingTool := .empty
  toolArgBuffers : Dict Nat Text := .empty
  finishReason : Text := []
  pendingFinishReason : Text := []
  claudeTerminalEmitted : Bool := false
  usage : Option ClaudeUsage := none

/-- A function of the translator, which pushes onto `results`. -/
abbrev ClaudeEmitter := Emitter ClaudeState ClaudeEvent

/-! ### Arguments of a tool call -/

def claudeOauthToolPrefix : Text := "proxy_".toList

def stripToolPrefix (toolName : Text) : Text :=
  if claudeOauthToolPrefix <+: toolName then toolName.drop claudeOauthToolPrefix.length else toolName

def numberOf (s : Text) : Option ℚ :=
  if s ≠ [] ∧ s.all Char.isDigit then some (s.foldl (fun n c => 10 * n + ((c.toNat - '0'.toNat : Nat) : ℚ)) 0) else none

def signedNumberOf : Text → Option ℚ
  | '-' :: s => (numberOf s).map Neg.neg
  | s => numberOf s

/-- `args[name]` -/
def field (fields : List (Text × Json)) (name : String) : Option Json := fields.lookup name.toList

def setField (fields : List (Text × Json)) (name : String) (value : Json) : List (Text × Json) :=
  fields.map fun f => if f.1 = name.toList then (f.1, value) else f

def deleteField (fields : List (Text × Json)) (name : String) : List (Text × Json) :=
  fields.filter fun f => f.1 ≠ name.toList

/-- `/^\d+(?:-\d+)?$/` -/
def isPageRange (pages : Text) : Bool :=
  match splitFirst ['-'] pages with
  | none => (numberOf pages).isSome
  | some (first, last) => (numberOf first).isSome && (numberOf last).isSome

def isValidPdfPagesArg (filePath pages : Option Json) : Bool :=
  match filePath, pages with
  | some (.string filePath), some (.string pages) =>
    ".pdf".toList.isSuffixOf (filePath.flatMap lowerCase) && isPageRange pages
  | _, _ => false

def sanitizeLimit (args : List (Text × Json)) : List (Text × Json) :=
  let args := match field args "limit" with
    | some (.string s) => ((numberOf s).map fun q => setField args "limit" (.number q)).getD args
    | _ => args
  match field args "limit" with
  | some (.number q) =>
    if 2000 < q then setField args "limit" (.number 2000) else if q < 1 then deleteField args "limit" else args
  | _ => args

def sanitizeOffset (args : List (Text × Json)) : List (Text × Json) :=
  let args := match field args "offset" with
    | some (.string s) => ((signedNumberOf s).map fun q => setField args "offset" (.number q)).getD args
    | _ => args
  match field args "offset" with
  | some (.number q) => if q < 0 then setField args "offset" (.number 0) else args
  | _ => args

/-- Throws where the `in` operator does, on anything that is not an object or an array. -/
def sanitizeReadArgs : Json → Option Json
  | .object args =>
    let args := sanitizeOffset (sanitizeLimit args)
    let invalid := (field args "pages").isSome && !isValidPdfPagesArg (field args "file_path") (field args "pages")
    some (.object (if invalid then deleteField args "pages" else args))
  | .array items => some (.array items)
  | _ => none

variable (json : JsonText)

/-- Arguments that do not parse, or that cannot be repaired, are sent as they came. -/
def sanitizeToolArgs (toolName argsJson : Text) : Text :=
  match json.parse argsJson with
  | none => argsJson
  | some args =>
    match if stripToolPrefix toolName = "Read".toList then sanitizeReadArgs args else some args with
    | none => argsJson
    | some args => json.stringify args

/-! ### Blocks -/

/-- `fromOpenAIFinish(reason, "claude")` -/
def convertFinishReason (reason : Text) : Text :=
  if reason = "stop".toList then "end_turn".toList
  else if reason = "length".toList then "max_tokens".toList
  else if reason = "tool_calls".toList then "tool_use".toList
  else "end_turn".toList

def emitDeferredTerminal : ClaudeEmitter := fun state =>
  if state.pendingFinishReason = [] then (state, [])
  else ({ state with pendingFinishReason := [] },
    [.messageDelta (convertFinishReason state.pendingFinishReason) (state.usage.getD {}), .messageStop])

def stopThinkingBlock : ClaudeEmitter := fun state =>
  if state.thinkingBlockStarted then
    ({ state with thinkingBlockStarted := false }, [.contentBlockStop state.thinkingBlockIndex])
  else (state, [])

def stopTextBlock : ClaudeEmitter := fun state =>
  if state.textBlockStarted ∧ ¬ state.textBlockClosed then
    ({ state with textBlockClosed := true, textBlockStarted := false }, [.contentBlockStop state.textBlockIndex])
  else (state, [])

def openToolBlock (idx : Nat) (id name : Text) : ClaudeEmitter :=
  (stopThinkingBlock.seq stopTextBlock).seq fun state =>
    ({ state with
        nextBlockIndex := state.nextBlockIndex + 1
        toolCalls := state.toolCalls.put (idx, ⟨id, name, state.nextBlockIndex⟩) },
      [.contentBlockStart state.nextBlockIndex (.toolUse id (stripToolPrefix name))])

/-- A call whose name never arrived still has to reach the client. -/
def openPending : ClaudeEmitter := fun state =>
  (Emitter.each (fun r : Nat × PendingTool => if r.2.id = [] then .skip else openToolBlock r.1 r.2.id r.2.name)
    state.toolPending.rows).seq (.modify fun s => { s with toolPending := .empty }) state

/-- The buffered arguments in one delta, and the end of the block. -/
def closeTool (r : Nat × ToolInfo) : ClaudeEmitter := fun state =>
  (state, (match ((state.toolArgBuffers.get? r.1).map Prod.snd).getD [] with
    | [] => []
    | buffered => [ClaudeEvent.contentBlockDelta r.2.blockIndex (.inputJsonDelta (sanitizeToolArgs json r.2.name buffered))]) ++
    [ClaudeEvent.contentBlockStop r.2.blockIndex])

def closeTools : ClaudeEmitter := fun state =>
  (Emitter.each (closeTool json) state.toolCalls.rows).seq (.modify fun s => { s with toolArgBuffers := .empty }) state

/-! ### The end of the stream -/

def drainBlocks : ClaudeEmitter :=
  ((((Emitter.modify fun s => { s with claudeTerminalEmitted := true }).seq openPending).seq stopThinkingBlock).seq
    stopTextBlock).seq (closeTools json)

def drainToolBlocks : ClaudeEmitter :=
  (drainBlocks json).seq fun state =>
    ({ state with finishReason := "tool_calls".toList },
      [.messageDelta (convertFinishReason "tool_calls".toList) (state.usage.getD {}), .messageStop])

def drainToolBlocksAtFlush : ClaudeEmitter := fun state =>
  if state.pendingFinishReason ≠ [] then emitDeferredTerminal state
  else if state.claudeTerminalEmitted then (state, [])
  else if state.toolCalls.rows = [] ∧ state.toolPending.rows = [] then (state, [])
  else drainToolBlocks json state

/-! ### One chunk -/

def resolveProviderCost (usage : ChunkUsage) : Option ℚ := usage.cost <|> usage.upstreamInferenceCost

def readUsage (usage : ChunkUsage) : ClaudeUsage :=
  let cacheRead := (usage.detailsCachedTokens <|> usage.cachedTokens <|> usage.cacheReadInputTokens).getD 0
  let cacheCreate := (usage.detailsCacheCreationTokens <|> usage.cacheCreationInputTokens).getD 0
  { inputTokens := usage.promptTokens.getD 0 - cacheRead - cacheCreate
    outputTokens := usage.completionTokens.getD 0
    cacheReadInputTokens := if 0 < cacheRead then some cacheRead else none
    cacheCreationInputTokens := if 0 < cacheCreate then some cacheCreate else none
    cost := resolveProviderCost usage }

def trackUsage (usage : UsageField) : ClaudeEmitter := .modify fun state =>
  match usage with
  | .reported usage => { state with usage := some (readUsage usage) }
  | _ => state

/-- The id of the chunk, of its `extend_fields`, or a new one. -/
def messageIdOf (now : Nat) (chunk : Chunk) : Text :=
  let fresh := "msg_".toList ++ (toString now).toList
  let stem := removeFirst "chatcmpl-".toList chunk.id
  let id := if stem = [] then fresh else stem
  if id = "chat".toList ∨ id.length < 8 then
    if chunk.requestId ≠ [] then chunk.requestId else if chunk.traceId ≠ [] then chunk.traceId else fresh
  else id

def startMessage (now : Nat) (chunk : Chunk) : ClaudeEmitter := fun state =>
  if state.messageStartSent then (state, [])
  else
    let id := messageIdOf now chunk
    let model := if chunk.model = [] then "unknown".toList else chunk.model
    ({ state with messageStartSent := true, messageId := id, model := model, nextBlockIndex := 0 },
      [.messageStart id model])

def startThinkingBlock : ClaudeEmitter := fun state =>
  if state.thinkingBlockStarted then (state, [])
  else ({ state with
      thinkingBlockIndex := state.nextBlockIndex
      nextBlockIndex := state.nextBlockIndex + 1
      thinkingBlockStarted := true }, [.contentBlockStart state.nextBlockIndex .thinking])

def startTextBlock : ClaudeEmitter := fun state =>
  if state.textBlockStarted then (state, [])
  else ({ state with
      textBlockIndex := state.nextBlockIndex
      nextBlockIndex := state.nextBlockIndex + 1
      textBlockStarted := true
      textBlockClosed := false }, [.contentBlockStart state.nextBlockIndex .text])

def emitReasoning (delta : Delta) : ClaudeEmitter :=
  let reasoningContent := extractReasoningText delta
  if reasoningContent = [] then .skip
  else (stopTextBlock.seq startThinkingBlock).seq fun state =>
    (state, [.contentBlockDelta state.thinkingBlockIndex (.thinkingDelta reasoningContent)])

def emitContent (delta : Delta) : ClaudeEmitter :=
  if delta.content = [] then .skip
  else (stopThinkingBlock.seq startTextBlock).seq fun state =>
    (state, [.contentBlockDelta state.textBlockIndex (.textDelta delta.content)])

def pendingWith (state : ClaudeState) (tc : ToolCallFragment) : PendingTool :=
  let known := ((state.toolPending.get? tc.idx).map Prod.snd).getD {}
  { id := if tc.id = [] then known.id else tc.id
    name := if tc.name = [] then known.name else tc.name }

/-- The block opens once for each index, when its id and its name are both known. -/
def emitToolStart (tc : ToolCallFragment) : ClaudeEmitter := fun state =>
  if (state.toolCalls.get? tc.idx).isSome then (state, [])
  else
    let pending := pendingWith state tc
    let state := { state with toolPending := state.toolPending.put (tc.idx, pending) }
    if pending.id ≠ [] ∧ pending.name ≠ [] then
      (openToolBlock tc.idx pending.id pending.name).seq
        (.modify fun s => { s with toolPending := s.toolPending.erase tc.idx }) state
    else (state, [])

def bufferArguments (tc : ToolCallFragment) : ClaudeEmitter := .modify fun state =>
  if tc.arguments = [] then state
  else
    let known := ((state.toolArgBuffers.get? tc.idx).map Prod.snd).getD []
    { state with toolArgBuffers := state.toolArgBuffers.put (tc.idx, mergeToolArguments json known tc.arguments) }

def emitToolCalls (delta : Delta) : ClaudeEmitter :=
  .each (fun tc => (emitToolStart tc).seq (bufferArguments json tc)) delta.toolCalls

def finishBlocks (reason : Text) : ClaudeEmitter :=
  (((((Emitter.modify fun s => { s with claudeTerminalEmitted := true }).seq stopThinkingBlock).seq stopTextBlock).seq
    openPending).seq (closeTools json)).seq
      (.modify fun s => { s with finishReason := reason, pendingFinishReason := reason })

/-- The terminal follows at once, unless the explicit null of the chunk promises usage. -/
def finish (reason : Text) (usage : UsageField) : ClaudeEmitter :=
  (finishBlocks json reason).seq (if usage = .null then .skip else emitDeferredTerminal)

def emitChoice (now : Nat) (chunk : Chunk) (choice : Choice) : ClaudeEmitter :=
  ((((startMessage now chunk).seq (emitReasoning choice.delta)).seq (emitContent choice.delta)).seq
    (emitToolCalls json choice.delta)).seq
      (if choice.finishReason = [] then .skip else finish json choice.finishReason chunk.usage)

/-- `openaiToClaudeResponse` on a chunk -/
def openaiToClaudeChunk (now : Nat) (chunk : Chunk) : ClaudeEmitter :=
  (trackUsage chunk.usage).seq fun state =>
    match chunk.choices.head? with
    | none => emitDeferredTerminal state
    | some choice => if state.claudeTerminalEmitted then (state, []) else emitChoice json now chunk choice state

/-- `openaiToClaudeResponse` on a chunk, or on the null of the flush. -/
def openaiToClaudeResponse (now : Nat) : Option Chunk → ClaudeEmitter
  | none => drainToolBlocksAtFlush json
  | some chunk => openaiToClaudeChunk json now chunk

def claudeChunks (chunks : List (Nat × Chunk)) : ClaudeEmitter :=
  .each (fun c => openaiToClaudeResponse json c.1 (some c.2)) chunks

def claudeStream (chunks : List (Nat × Chunk)) (now : Nat) : ClaudeEmitter :=
  (claudeChunks json chunks).seq (openaiToClaudeResponse json now none)

end TokenProxy.Translator
