import TokenProxy.Lib.AppendCons
import TokenProxy.Lib.Batches
import TokenProxy.Lib.JsonPrint
import TokenProxy.Lib.Text
import TokenProxy.Translator.ChatStream
import Mathlib.Data.List.Nodup
import Mathlib.Data.List.TakeWhile

/-!
# Claude requests through the pivot

`claudeToOpenAIRequest` splits the blocks of a Claude message into chat messages, and answers the
calls that have no result; `openaiToClaudeRequest` gathers chat messages into turns again. What the
way there and back makes of the messages of a request.

* `openaiToClaudeRequest_flat`: the way back keeps the order of the blocks.
* `fixMissingToolResponsesOpenAI_eq_scan`: the answers that are put in.
* `claude_roundTrip`: what becomes of a Claude conversation, and that each call is answered once.
-/

namespace TokenProxy.ClaudePivot

open Lib
open Translator (Text)

/-! ### Claude requests -/

inductive ImageSource where
  | base64 (mediaType data : Text)
  | url (url : Text)
  | other
  deriving DecidableEq

inductive ResultBlock where
  | text (text : Text)
  | image (source : ImageSource)
  | other (value : Json)
  deriving DecidableEq

inductive ResultContent where
  | absent
  | string (text : Text)
  | blocks (blocks : List ResultBlock)
  deriving DecidableEq

inductive ClaudeBlock where
  | text (text : Text)
  | thinking (thinking : Text)
  | image (source : ImageSource)
  | toolUse (id name : Text) (input : Json)
  | toolResult (toolUseId : Text) (content : ResultContent) (isError : Bool)
  deriving DecidableEq

inductive ClaudeRole where
  | system
  | user
  | assistant
  deriving DecidableEq

inductive ClaudeContent where
  | absent
  | string (text : Text)
  | blocks (blocks : List ClaudeBlock)
  deriving DecidableEq

structure ClaudeMessage where
  role : ClaudeRole
  content : ClaudeContent
  deriving DecidableEq

/-! ### Chat requests -/

inductive ChatRole where
  | user
  | assistant
  | tool
  deriving DecidableEq

inductive ChatPart where
  | text (text : Text)
  | imageUrl (url : Text)
  deriving DecidableEq

inductive ChatContent where
  | absent
  | string (text : Text)
  | parts (parts : List ChatPart)
  deriving DecidableEq

structure ToolCall where
  id : Text
  name : Text
  arguments : Text
  deriving DecidableEq

structure ChatMessage where
  role : ChatRole
  content : ChatContent := .absent
  reasoningContent : Option Text := none
  toolCalls : List ToolCall := []
  toolCallId : Text := []
  deriving DecidableEq

/-- The JSON of the runtime: `JSON.stringify` of a value and of the blocks of
a result, and `JSON.parse`. -/
structure JsonRuntime where
  stringify : Json → Text
  stringifyBlocks : List ResultBlock → Text
  parse : Text → Option Json

variable (json : JsonRuntime)

/-! ### From Claude to chat -/

def joinLines (texts : List Text) : Text := ['\n'].intercalate texts

def encodeDataUri (mimeType base64 : Text) : Text := "data:".toList ++ (mimeType ++ (";base64,".toList ++ base64))

def partText : ChatPart → Option Text
  | .text text => some text
  | .imageUrl _ => none

def collapseTextParts (parts : List ChatPart) : ChatContent :=
  if parts.all fun part => (partText part).isSome then .string (joinLines (parts.filterMap partText)) else .parts parts

def imagePart : ImageSource → List ChatPart
  | .base64 mediaType data => [.imageUrl (encodeDataUri mediaType data)]
  | .url url => [.imageUrl url]
  | .other => []

def liftedImage : ResultBlock → List ChatPart
  | .image (.base64 mediaType data) => [.imageUrl (encodeDataUri mediaType data)]
  | _ => []

def blockText : ResultBlock → Option Text
  | .text text => some text
  | _ => none

def imageNotice : Text := "[tool returned an image; see attached]".toList

def resultText : ResultContent → Text
  | .absent => []
  | .string text => text
  | .blocks blocks =>
    let text := joinLines (blocks.filterMap blockText)
    if text ≠ [] then text
    else if blocks.flatMap liftedImage ≠ [] then imageNotice
    else json.stringifyBlocks blocks

def liftedImages : ResultContent → List ChatPart
  | .blocks blocks => blocks.flatMap liftedImage
  | _ => []

/-- `block.input || {}` -/
def inputOf (input : Json) : Json := if input.truthy then input else .object .nil

structure Gathered where
  parts : List ChatPart := []
  toolCalls : List ToolCall := []
  toolResults : List ChatMessage := []
  reasoning : List Text := []

def Gathered.block (gathered : Gathered) : ClaudeBlock → Gathered
  | .text text => { gathered with parts := gathered.parts ++ [.text text] }
  | .thinking thinking => if thinking = [] then gathered else { gathered with reasoning := gathered.reasoning ++ [thinking] }
  | .image source => { gathered with parts := gathered.parts ++ imagePart source }
  | .toolUse id name input =>
    { gathered with toolCalls := gathered.toolCalls ++ [⟨id, name, json.stringify (inputOf input)⟩] }
  | .toolResult toolUseId content _ =>
    { gathered with
      parts := gathered.parts ++ liftedImages content
      toolResults := gathered.toolResults ++ [{ role := .tool, toolCallId := toolUseId, content := .string (resultText json content) }] }

def gather (blocks : List ClaudeBlock) : Gathered := blocks.foldl (Gathered.block json) {}

def systemReminderText (content : ClaudeContent) : Text :=
  let texts := match content with
    | .absent => []
    | .string text => [text]
    | .blocks blocks => blocks.filterMap fun
      | ClaudeBlock.text text => some text
      | _ => none
  let text := joinLines (texts.filter (· ≠ []))
  if trim text = [] then [] else "<instructions>\n".toList ++ text ++ "\n</instructions>".toList

def convertClaudeMessage (msg : ClaudeMessage) : List ChatMessage :=
  if msg.role = .system then
    let text := systemReminderText msg.content
    if text = [] then [] else [{ role := .user, content := .string text }]
  else
    let role := if msg.role = .user then ChatRole.user else .assistant
    match msg.content with
    | .absent => []
    | .string text => [{ role := role, content := .string text }]
    | .blocks blocks =>
      let gathered := gather json blocks
      if gathered.toolResults ≠ [] then
        gathered.toolResults ++ if gathered.parts ≠ [] then [{ role := .user, content := collapseTextParts gathered.parts }] else []
      else if gathered.toolCalls ≠ [] then
        [{ role := .assistant
           content := if gathered.parts ≠ [] then collapseTextParts gathered.parts else .absent
           reasoningContent := some gathered.reasoning.flatten
           toolCalls := gathered.toolCalls }]
      else if gathered.parts ≠ [] then
        [{ role := role
           content := collapseTextParts gathered.parts
           reasoningContent := if gathered.reasoning ≠ [] ∧ role = .assistant then some gathered.reasoning.flatten else none }]
      else if gathered.reasoning ≠ [] ∧ role = .assistant then
        [{ role := role, content := .string [], reasoningContent := some gathered.reasoning.flatten }]
      else if blocks = [] then [{ role := role, content := .string [] }]
      else []

def isReply (msg : ChatMessage) : Bool := msg.role = .tool && msg.toolCallId ≠ []

def noResponse : Text := "[No response received]".toList

def missingResponse (id : Text) : ChatMessage := { role := .tool, toolCallId := id, content := .string noResponse }

def callIds (msg : ChatMessage) : List Text := if msg.role = .assistant then msg.toolCalls.map ToolCall.id else []

def missingIds (toolCallIds respondedIds : List Text) : List Text := toolCallIds.filter fun id => !respondedIds.contains id

/-- The loop over the messages: a call without an answer in the tool messages that
follow gets one behind them. -/
def fixMissingToolResponsesOpenAI : List ChatMessage → List ChatMessage
  | [] => []
  | msg :: messages =>
    let replies := messages.takeWhile isReply
    let missing := missingIds (callIds msg) (replies.map ChatMessage.toolCallId)
    if missing = [] then msg :: fixMissingToolResponsesOpenAI messages
    else msg :: (replies ++ missing.map missingResponse ++ fixMissingToolResponsesOpenAI (messages.drop replies.length))
  termination_by messages => messages.length
  decreasing_by all_goals simp +arith

def claudeToOpenAIRequest (messages : List ClaudeMessage) : List ChatMessage :=
  fixMissingToolResponsesOpenAI (messages.flatMap (convertClaudeMessage json))

/-! ### From chat to Claude -/

/-- What `/^data:([^;]+);base64,([\s\S]+)$/` takes apart. -/
def parseDataUri (url : Text) : Option (Text × Text) :=
  if "data:".toList <+: url then
    let mimeType := (url.drop 5).takeWhile (· ≠ ';')
    let rest := (url.drop 5).dropWhile (· ≠ ';')
    if mimeType ≠ [] ∧ ";base64,".toList <+: rest ∧ rest.drop 8 ≠ [] then some (mimeType, rest.drop 8) else none
  else none

def isHttpUrl (url : Text) : Bool := "http://".toList <+: url ∨ "https://".toList <+: url

def textBlock (text : Text) : List ClaudeBlock := if text = [] then [] else [.text text]

def imageBlock (url : Text) : List ClaudeBlock :=
  match parseDataUri url with
  | some (mimeType, base64) => [.image (.base64 mimeType base64)]
  | none => if isHttpUrl url then [.image (.url url)] else []

def userBlocks : ChatPart → List ClaudeBlock
  | .text text => textBlock text
  | .imageUrl url => imageBlock url

def assistantBlocks : ChatPart → List ClaudeBlock
  | .text text => textBlock text
  | .imageUrl _ => []

def resultContent : ChatContent → ResultContent
  | .absent => .absent
  | .string text => .string text
  | .parts parts => .blocks (parts.map fun
    | .text text => .text text
    | .imageUrl url => .other (.object (.cons "type" (.string "image_url")
        (.cons "image_url" (.object (.cons "url" (.string (String.ofList url)) .nil)) .nil))))

def toolUseBlock (call : ToolCall) : ClaudeBlock :=
  .toolUse call.id call.name ((json.parse call.arguments).getD (.string (String.ofList call.arguments)))

def contentBlocks (part : ChatPart → List ClaudeBlock) : ChatContent → List ClaudeBlock
  | .absent => []
  | .string text => textBlock text
  | .parts parts => parts.flatMap part

def getContentBlocksFromMessage (msg : ChatMessage) : List ClaudeBlock :=
  match msg.role with
  | .tool => [.toolResult msg.toolCallId (resultContent msg.content) false]
  | .user => contentBlocks userBlocks msg.content
  | .assistant =>
    (match msg.reasoningContent with
      | some reasoning => if reasoning = [] then [] else [.thinking reasoning]
      | none => []) ++
      contentBlocks assistantBlocks msg.content ++ msg.toolCalls.map (toolUseBlock json)

def ClaudeBlock.isToolUse : ClaudeBlock → Bool
  | .toolUse _ _ _ => true
  | _ => false

def ClaudeBlock.isToolResult : ClaudeBlock → Bool
  | .toolResult _ _ _ => true
  | _ => false

abbrev Turn := ClaudeRole × List ClaudeBlock

structure Turns where
  messages : List Turn := []
  currentRole : Option ClaudeRole := none
  currentParts : List ClaudeBlock := []

namespace Turns

def flush (turns : Turns) : Turns :=
  match turns.currentRole with
  | some role => if turns.currentParts ≠ [] then { turns with messages := turns.messages ++ [(role, turns.currentParts)], currentParts := [] } else turns
  | none => turns

def newRole (msg : ChatMessage) : ClaudeRole := if msg.role = .assistant then .assistant else .user

def message (turns : Turns) (msg : ChatMessage) : Turns :=
  let blocks := getContentBlocksFromMessage json msg
  if blocks.any ClaudeBlock.isToolResult then
    let toolResultBlocks := blocks.filter ClaudeBlock.isToolResult
    let otherBlocks := blocks.filter fun block => !block.isToolResult
    let turns := turns.flush
    let turns := if toolResultBlocks ≠ [] then { turns with messages := turns.messages ++ [(.user, toolResultBlocks)] } else turns
    if otherBlocks ≠ [] then { turns with currentRole := some (newRole msg), currentParts := turns.currentParts ++ otherBlocks } else turns
  else
    let turns := if turns.currentRole ≠ some (newRole msg) then { turns.flush with currentRole := some (newRole msg) } else turns
    let turns := { turns with currentParts := turns.currentParts ++ blocks }
    if blocks.any ClaudeBlock.isToolUse then turns.flush else turns

end Turns

def openaiToClaudeRequest (messages : List ChatMessage) : List Turn := ((messages.foldl (Turns.message json) {}).flush).messages

/-! ### The way back -/

section Back

variable {json}

def roleBlocks (json : JsonRuntime) (msg : ChatMessage) : List (ClaudeRole × ClaudeBlock) :=
  (getContentBlocksFromMessage json msg).map (Turns.newRole msg, ·)

namespace Turns

def flat (turns : Turns) : List (ClaudeRole × ClaudeBlock) :=
  Batches.flat turns.messages ++ match turns.currentRole with
    | some role => turns.currentParts.map (role, ·)
    | none => []

def Ok (turns : Turns) : Prop := turns.currentRole = none → turns.currentParts = []

theorem Ok.flush {turns : Turns} (h : turns.Ok) :
    turns.flush.Ok ∧ turns.flush.currentParts = [] ∧ turns.flush.flat = turns.flat := by
  obtain ⟨messages, currentRole, currentParts⟩ := turns
  cases currentRole with
  | none => exact ⟨h, h rfl, rfl⟩
  | some role =>
    by_cases hparts : currentParts = []
    · subst hparts
      exact ⟨h, rfl, rfl⟩
    · simp [Turns.flush, hparts, flat, Ok]

end Turns

theorem isToolResult_textBlock {text : Text} {block : ClaudeBlock}
    (h : block ∈ textBlock text) : block.isToolResult = false := by
  unfold textBlock at h
  split at h
  · simp at h
  · rw [List.mem_singleton.1 h]
    rfl

theorem isToolResult_imageBlock {url : Text} {block : ClaudeBlock}
    (h : block ∈ imageBlock url) : block.isToolResult = false := by
  unfold imageBlock at h
  split at h
  · rw [List.mem_singleton.1 h]
    rfl
  · split at h
    · rw [List.mem_singleton.1 h]
      rfl
    · simp at h

theorem isToolResult_contentBlocks (part : ChatPart → List ClaudeBlock)
    (hpart : ∀ p, ∀ block ∈ part p, block.isToolResult = false)
    {content : ChatContent} {block : ClaudeBlock} (h : block ∈ contentBlocks part content) :
    block.isToolResult = false := by
  cases content with
  | absent => simp [contentBlocks] at h
  | string text => exact isToolResult_textBlock h
  | parts parts =>
    obtain ⟨p, -, hp⟩ := List.mem_flatMap.1 h
    exact hpart p block hp

theorem any_isToolResult (json : JsonRuntime) (msg : ChatMessage) :
    (getContentBlocksFromMessage json msg).any ClaudeBlock.isToolResult = decide (msg.role = .tool) := by
  unfold getContentBlocksFromMessage
  cases hrole : msg.role with
  | tool => rfl
  | user =>
    refine List.any_eq_false.2 fun block hblock => ?_
    rw [isToolResult_contentBlocks userBlocks ?_ hblock]
    · simp
    · intro p block' h
      cases p with
      | text text => exact isToolResult_textBlock h
      | imageUrl url => exact isToolResult_imageBlock h
  | assistant =>
    refine List.any_eq_false.2 fun block hblock => ?_
    simp only [List.mem_append, List.mem_map] at hblock
    rcases hblock with (hblock | hblock) | ⟨call, -, rfl⟩
    · split at hblock
      · split at hblock
        · simp at hblock
        · rw [List.mem_singleton.1 hblock]
          simp [ClaudeBlock.isToolResult]
      · simp at hblock
    · rw [isToolResult_contentBlocks assistantBlocks ?_ hblock]
      · simp
      · intro p block' h
        cases p with
        | text text => exact isToolResult_textBlock h
        | imageUrl url => simp [assistantBlocks] at h
    · simp [toolUseBlock, ClaudeBlock.isToolResult]

theorem getContentBlocks_tool (json : JsonRuntime) {msg : ChatMessage} (h : msg.role = .tool) :
    getContentBlocksFromMessage json msg = [.toolResult msg.toolCallId (resultContent msg.content) false] := by
  rw [getContentBlocksFromMessage, h]

theorem Turns.message_tool (json : JsonRuntime) (turns : Turns) {msg : ChatMessage}
    (h : msg.role = .tool) :
    turns.message json msg =
      { turns.flush with
        messages := turns.flush.messages ++ [(.user, [.toolResult msg.toolCallId (resultContent msg.content) false])] } := by
  unfold Turns.message
  rw [getContentBlocks_tool json h]
  rfl

theorem Turns.Ok.message {turns : Turns} (h : turns.Ok) (json : JsonRuntime) (msg : ChatMessage) :
    (turns.message json msg).Ok ∧ (turns.message json msg).flat = turns.flat ++ roleBlocks json msg := by
  obtain ⟨hok, hparts, hflat⟩ := h.flush
  by_cases htool : msg.role = .tool
  · have hrole : Turns.newRole msg = .user := by
      rw [Turns.newRole, htool]
      rfl
    rw [Turns.message_tool json turns htool, roleBlocks, getContentBlocks_tool json htool, hrole, ← hflat]
    refine ⟨fun _ => hparts, ?_⟩
    simp only [Turns.flat, hparts, Batches.flat_append]
    cases turns.flush.currentRole <;> simp
  · have hany : (getContentBlocksFromMessage json msg).any ClaudeBlock.isToolResult = false := by
      rw [any_isToolResult, decide_eq_false htool]
    unfold Turns.message
    simp only [hany, Bool.false_eq_true, if_false]
    have hstart : ∀ start : Turns,
        start = (if turns.currentRole ≠ some (Turns.newRole msg) then { turns.flush with currentRole := some (Turns.newRole msg) } else turns) →
        start.currentRole = some (Turns.newRole msg) ∧ start.flat = turns.flat := by
      rintro start rfl
      split
      · refine ⟨rfl, ?_⟩
        rw [← hflat]
        simp only [Turns.flat, hparts]
        cases turns.flush.currentRole <;> simp
      · rename_i hsame
        exact ⟨not_not.1 hsame, rfl⟩
    obtain ⟨hcurrent, hstartFlat⟩ := hstart _ rfl
    generalize (if turns.currentRole ≠ some (Turns.newRole msg) then { turns.flush with currentRole := some (Turns.newRole msg) } else turns)
      = start at hcurrent hstartFlat ⊢
    have hnext : Turns.Ok { start with currentParts := start.currentParts ++ getContentBlocksFromMessage json msg } := by
      intro hnone
      rw [hcurrent] at hnone
      exact absurd hnone (Option.some_ne_none _)
    have hnextFlat : Turns.flat { start with currentParts := start.currentParts ++ getContentBlocksFromMessage json msg }
        = turns.flat ++ roleBlocks json msg := by
      rw [← hstartFlat]
      simp [Turns.flat, hcurrent, roleBlocks]
    split
    · exact ⟨hnext.flush.1, hnext.flush.2.2.trans hnextFlat⟩
    · exact ⟨hnext, hnextFlat⟩

theorem flat_foldl_message {turns : Turns} (h : turns.Ok) (json : JsonRuntime)
    (messages : List ChatMessage) :
    (messages.foldl (Turns.message json) turns).Ok ∧
      (messages.foldl (Turns.message json) turns).flat = turns.flat ++ messages.flatMap (roleBlocks json) := by
  induction messages generalizing turns with
  | nil => exact ⟨h, (List.append_nil _).symm⟩
  | cons msg messages ih =>
    obtain ⟨hok, hflat⟩ := h.message json msg
    obtain ⟨hok', hflat'⟩ := ih hok
    refine ⟨hok', ?_⟩
    rw [List.foldl_cons, hflat', hflat, List.flatMap_cons, List.append_assoc]

/-- **The way back keeps the order of the blocks.** -/
theorem openaiToClaudeRequest_flat (json : JsonRuntime) (messages : List ChatMessage) :
    Batches.flat (openaiToClaudeRequest json messages) = messages.flatMap (roleBlocks json) := by
  obtain ⟨hok, hflat⟩ := flat_foldl_message (show Turns.Ok {} from fun _ => rfl) json messages
  obtain ⟨-, hparts, hflush⟩ := hok.flush
  have hmessages : ∀ turns : Turns, turns.currentParts = [] → turns.flat = Batches.flat turns.messages := by
    intro turns hnil
    rw [Turns.flat, hnil]
    cases turns.currentRole <;> simp
  rw [openaiToClaudeRequest, ← hmessages _ hparts, hflush, hflat]
  rfl

end Back

/-! ### The answers that are put in -/

/-- The loop as a scan: `owed` are the calls of the last assistant
message that have no answer yet. -/
def scan (owed : List Text) : List ChatMessage → List ChatMessage
  | [] => owed.map missingResponse
  | msg :: messages =>
    if isReply msg then msg :: scan (missingIds owed [msg.toolCallId]) messages
    else owed.map missingResponse ++ msg :: scan (callIds msg) messages

theorem callIds_of_tool {msg : ChatMessage} (h : msg.role = .tool) : callIds msg = [] := by
  rw [callIds, h]
  rfl

theorem tool_of_isReply {msg : ChatMessage} (h : isReply msg = true) : msg.role = .tool := by
  simp only [isReply, Bool.and_eq_true, decide_eq_true_eq] at h
  exact h.1

theorem scan_nil_cons (msg : ChatMessage) (messages : List ChatMessage) :
    scan [] (msg :: messages) = msg :: scan (callIds msg) messages := by
  rw [scan]
  split
  · rename_i h
    rw [callIds_of_tool (tool_of_isReply h)]
    rfl
  · rfl

theorem missingIds_nil (ids : List Text) : missingIds ids [] = ids := List.filter_eq_self.2 fun _ _ => rfl

theorem missingIds_missingIds (ids answered answered' : List Text) :
    missingIds (missingIds ids answered) answered' = missingIds ids (answered ++ answered') := by
  unfold missingIds
  rw [List.filter_filter]
  refine List.filter_congr fun id _ => ?_
  rw [List.contains_append, Bool.not_or, Bool.and_comm]

theorem scan_replies {replies : List ChatMessage} (h : ∀ msg ∈ replies, isReply msg = true)
    (owed : List Text) (rest : List ChatMessage) :
    scan owed (replies ++ rest) = replies ++ scan (missingIds owed (replies.map ChatMessage.toolCallId)) rest := by
  induction replies generalizing owed with
  | nil => rw [List.nil_append, List.nil_append, List.map_nil, missingIds_nil]
  | cons reply replies ih =>
    rw [List.cons_append, scan, if_pos (h reply (by simp)), ih fun msg hmsg => h msg (by simp [hmsg]), missingIds_missingIds]
    rfl

theorem scan_of_not_reply {messages : List ChatMessage}
    (h : ∀ msg ∈ messages.head?, isReply msg = false) (owed : List Text) :
    scan owed messages = owed.map missingResponse ++ scan [] messages := by
  cases messages with
  | nil => simp [scan]
  | cons msg messages =>
    rw [scan_nil_cons, scan, h msg rfl]
    rfl

theorem head?_dropWhile_isReply (messages : List ChatMessage) :
    ∀ msg ∈ (messages.dropWhile isReply).head?, isReply msg = false := by
  intro msg hmsg
  have := List.head?_dropWhile_not isReply messages
  rw [Option.mem_def.1 hmsg] at this
  simpa using this

theorem scan_eq (owed : List Text) (messages : List ChatMessage) :
    scan owed messages = messages.takeWhile isReply ++
      (missingIds owed ((messages.takeWhile isReply).map ChatMessage.toolCallId)).map missingResponse ++ scan [] (messages.dropWhile isReply) := by
  conv_lhs => rw [← List.takeWhile_append_dropWhile (p := isReply) (l := messages)]
  rw [scan_replies fun msg hmsg => List.mem_takeWhile_imp hmsg, scan_of_not_reply (head?_dropWhile_isReply messages), List.append_assoc]

theorem drop_length_takeWhile (messages : List ChatMessage) :
    messages.drop (messages.takeWhile isReply).length = messages.dropWhile isReply := by
  induction messages with
  | nil => rfl
  | cons msg messages ih => by_cases h : isReply msg <;> simp [h, ih]

/-- **The loop puts in what the scan does.** -/
theorem fixMissingToolResponsesOpenAI_eq_scan
    (messages : List ChatMessage) : fixMissingToolResponsesOpenAI messages = scan [] messages := by
  induction messages using fixMissingToolResponsesOpenAI.induct with
  | case1 =>
    rw [fixMissingToolResponsesOpenAI]
    rfl
  | case2 msg messages replies missing hmissing ih =>
    rw [fixMissingToolResponsesOpenAI, if_pos hmissing, ih, scan_nil_cons, scan_eq (callIds msg)]
    rw [show missingIds (callIds msg) _ = [] from hmissing, scan_eq []]
    simp [missingIds]
  | case3 msg messages replies missing hmissing ih =>
    have hrest : messages.drop replies.length = messages.dropWhile isReply := drop_length_takeWhile messages
    rw [fixMissingToolResponsesOpenAI, if_neg hmissing, ih, scan_nil_cons, scan_eq (callIds msg), hrest]

/-! ### Plain conversations -/

def ImageSource.Readable : ImageSource → Prop
  | .base64 mediaType data => mediaType ≠ [] ∧ ';' ∉ mediaType ∧ data ≠ []
  | .url address => isHttpUrl address = true
  | .other => False

inductive Part where
  | text (text : Text)
  | image (source : ImageSource) (readable : source.Readable)

structure ToolResult where
  id : Text
  content : Text
  isError : Bool
  id_ne : id ≠ []

structure ToolUse where
  id : Text
  name : Text
  input : Json
  id_ne : id ≠ []

/-- A string, results with texts and images behind them, or texts with calls behind them. -/
inductive PlainMessage where
  | userText (text : Text)
  | user (results : List ToolResult) (parts : List Part)
  | assistantText (text : Text)
  | assistant (texts : List Text) (uses : List ToolUse)

def Part.block : Part → ClaudeBlock
  | .text content => .text content
  | .image source _ => .image source

def ToolResult.block (result : ToolResult) : ClaudeBlock := .toolResult result.id (.string result.content) result.isError

def ToolUse.block (use : ToolUse) : ClaudeBlock := .toolUse use.id use.name use.input

namespace PlainMessage

def claude : PlainMessage → ClaudeMessage
  | .userText text => ⟨.user, .string text⟩
  | .user results parts => ⟨.user, .blocks (results.map ToolResult.block ++ parts.map Part.block)⟩
  | .assistantText text => ⟨.assistant, .string text⟩
  | .assistant texts uses => ⟨.assistant, .blocks (texts.map .text ++ uses.map ToolUse.block)⟩

def results : PlainMessage → List ToolResult
  | .user results _ => results
  | _ => []

def uses : PlainMessage → List ToolUse
  | .assistant _ uses => uses
  | _ => []

def resultIds (msg : PlainMessage) : List Text := msg.results.map ToolResult.id

def useIds (msg : PlainMessage) : List Text := msg.uses.map ToolUse.id

def onlyResults : PlainMessage → Bool
  | .user results parts => !results.isEmpty && parts.isEmpty
  | _ => false

end PlainMessage

/-! ### What is carried -/

def Part.text? : Part → Option Text
  | .text content => some content
  | .image _ _ => none

def Part.carried : Part → List ClaudeBlock
  | .text content => textBlock content
  | .image source _ => [.image source]

def carriedParts (parts : List Part) : List ClaudeBlock :=
  if parts.all fun part => part.text?.isSome then textBlock (joinLines (parts.filterMap Part.text?)) else parts.flatMap Part.carried

def ToolResult.carried (result : ToolResult) : ClaudeBlock := .toolResult result.id (.string result.content) false

def ToolUse.carried (use : ToolUse) : ClaudeBlock := .toolUse use.id use.name (inputOf use.input)

def unanswered (id : Text) : ClaudeBlock := .toolResult id (.string noResponse) false

def PlainMessage.carried : PlainMessage → Turn
  | .userText text => (.user, textBlock text)
  | .user _ parts => (.user, carriedParts parts)
  | .assistantText text => (.assistant, textBlock text)
  | .assistant texts uses => (.assistant, textBlock (joinLines texts) ++ uses.map ToolUse.carried)

/-- What is left of a conversation: `owed` are the calls of the last
turn that have no result yet. -/
def carried (owed : List Text) : List PlainMessage → List Turn
  | [] => [(.user, owed.map unanswered)]
  | msg :: messages =>
    let owed := missingIds owed msg.resultIds
    (.user, msg.results.map ToolResult.carried) ::
      if msg.onlyResults then carried owed messages else (.user, owed.map unanswered) :: msg.carried :: carried msg.useIds messages

section Carried

variable {json}

def Part.chat : Part → List ChatPart
  | .text content => [.text content]
  | .image source _ => imagePart source

def ToolResult.chat (result : ToolResult) : ChatMessage := { role := .tool, toolCallId := result.id, content := .string result.content }

def ToolUse.chat (json : JsonRuntime) (use : ToolUse) : ToolCall := ⟨use.id, use.name, json.stringify (inputOf use.input)⟩

def PlainMessage.chat (json : JsonRuntime) : PlainMessage → ChatMessage
  | .userText text => { role := .user, content := .string text }
  | .user _ parts => { role := .user, content := collapseTextParts (parts.flatMap Part.chat) }
  | .assistantText text => { role := .assistant, content := .string text }
  | .assistant texts uses =>
    { role := .assistant
      content := if uses ≠ [] ∧ texts = [] then .absent else .string (joinLines texts)
      reasoningContent := if uses = [] then none else some []
      toolCalls := uses.map (ToolUse.chat json) }

theorem foldl_results (results : List ToolResult) (gathered : Gathered) :
    (results.map ToolResult.block).foldl (Gathered.block json) gathered =
      { gathered with toolResults := gathered.toolResults ++ results.map ToolResult.chat } := by
  induction results generalizing gathered with
  | nil => simp
  | cons result results ih =>
    rw [List.map_cons, List.foldl_cons, ih]
    simp [Gathered.block, ToolResult.block, ToolResult.chat, liftedImages, resultText]

theorem foldl_parts (parts : List Part) (gathered : Gathered) :
    (parts.map Part.block).foldl (Gathered.block json) gathered = { gathered with parts := gathered.parts ++ parts.flatMap Part.chat } := by
  induction parts generalizing gathered with
  | nil => simp
  | cons part parts ih =>
    rw [List.map_cons, List.foldl_cons, ih]
    cases part <;> simp [Gathered.block, Part.block, Part.chat]

theorem foldl_uses (uses : List ToolUse) (gathered : Gathered) :
    (uses.map ToolUse.block).foldl (Gathered.block json) gathered =
      { gathered with toolCalls := gathered.toolCalls ++ uses.map (ToolUse.chat json) } := by
  induction uses generalizing gathered with
  | nil => simp
  | cons use uses ih =>
    rw [List.map_cons, List.foldl_cons, ih]
    simp [Gathered.block, ToolUse.block, ToolUse.chat]

theorem chat_ne_nil (part : Part) : part.chat ≠ [] := by
  cases part with
  | text text => simp [Part.chat]
  | image source readable =>
    cases source with
    | base64 mediaType data => simp [Part.chat, imagePart]
    | url url => simp [Part.chat, imagePart]
    | other => exact readable.elim

theorem flatMap_chat_eq_nil {parts : List Part} : parts.flatMap Part.chat = [] ↔ parts = [] := by
  cases parts with
  | nil => simp
  | cons part parts => simp [chat_ne_nil]

theorem convertClaudeMessage_plain (msg : PlainMessage) :
    convertClaudeMessage json msg.claude = msg.results.map ToolResult.chat ++ if msg.onlyResults then [] else [msg.chat json] := by
  cases msg with
  | userText text => rfl
  | assistantText text => rfl
  | user results parts =>
    have hgather : gather json (results.map ToolResult.block ++ parts.map Part.block)
        = { parts := parts.flatMap Part.chat, toolResults := results.map ToolResult.chat } := by
      rw [gather, List.foldl_append, foldl_results, foldl_parts]
      rfl
    rw [convertClaudeMessage, PlainMessage.claude, if_neg (by simp)]
    simp only [hgather, PlainMessage.results, PlainMessage.chat, PlainMessage.onlyResults, ne_eq, List.map_eq_nil_iff, flatMap_chat_eq_nil]
    by_cases hresults : results = []
    · by_cases hparts : parts = []
      · subst hresults hparts
        rfl
      · simp [hresults, hparts]
    · by_cases hparts : parts = []
      · simp [hresults, hparts]
      · simp [hresults, hparts]
  | assistant texts uses =>
    have hparts : texts.map ClaudeBlock.text = (texts.map Part.text).map Part.block := by
      rw [List.map_map]
      rfl
    have hchat : (texts.map Part.text).flatMap Part.chat = texts.map .text := by
      rw [List.flatMap_map]
      exact List.map_eq_flatMap.symm
    have hgather : gather json (texts.map ClaudeBlock.text ++ uses.map ToolUse.block)
        = { parts := texts.map .text, toolCalls := uses.map (ToolUse.chat json) } := by
      rw [gather, List.foldl_append, hparts, foldl_parts, foldl_uses, hchat]
      rfl
    have hcollapse : collapseTextParts (texts.map .text) = .string (joinLines texts) := by
      rw [collapseTextParts, if_pos (by simp [partText]), List.filterMap_map]
      congr 2
      exact List.filterMap_some
    rw [convertClaudeMessage, PlainMessage.claude, if_neg (by simp)]
    simp only [hgather, hcollapse, PlainMessage.results, PlainMessage.chat, PlainMessage.onlyResults, ne_eq, List.map_eq_nil_iff]
    by_cases htexts : texts = []
    · by_cases huses : uses = []
      · subst htexts huses
        rfl
      · simp [htexts, huses]
    · by_cases huses : uses = []
      · simp [htexts, huses]
      · simp [htexts, huses]

theorem drop_append_length {xs ys : Text} {n : ℕ} (h : n = xs.length) : (xs ++ ys).drop n = ys := by
  rw [h, List.drop_left]

theorem parseDataUri_encodeDataUri {mimeType base64 : Text} (hmime : mimeType ≠ [])
    (hsemicolon : ';' ∉ mimeType) (hdata : base64 ≠ []) :
    parseDataUri (encodeDataUri mimeType base64) = some (mimeType, base64) := by
  have hplain : ∀ c ∈ mimeType, decide (c ≠ ';') = true := by
    intro c hc
    simpa using fun h : c = ';' => hsemicolon (h ▸ hc)
  have hbody : (encodeDataUri mimeType base64).drop 5 = mimeType ++ ';' :: ("base64,".toList ++ base64) := drop_append_length rfl
  have htake : (mimeType ++ ';' :: ("base64,".toList ++ base64)).takeWhile (· ≠ ';') = mimeType := by
    rw [List.takeWhile_append_of_pos hplain]
    simp
  have hdrop : (mimeType ++ ';' :: ("base64,".toList ++ base64)).dropWhile (· ≠ ';') = ";base64,".toList ++ base64 := by
    rw [List.dropWhile_append_of_pos hplain]
    rfl
  have hrest : (";base64,".toList ++ base64).drop 8 = base64 := drop_append_length rfl
  have hprefix : "data:".toList <+: encodeDataUri mimeType base64 := List.prefix_append _ _
  rw [parseDataUri, if_pos hprefix, hbody]
  simp only [htake, hdrop, hrest]
  rw [if_pos ⟨hmime, List.prefix_append _ _, hdata⟩]

theorem parseDataUri_of_isHttpUrl {url : Text}
    (h : isHttpUrl url = true) : parseDataUri url = none := by
  rw [parseDataUri, if_neg]
  intro hdata
  have hhead : ∀ {xs : Text}, xs <+: url → xs ≠ [] → url.head? = xs.head? := by
    rintro xs ⟨ys, rfl⟩ hne
    cases xs with
    | nil => exact absurd rfl hne
    | cons x xs => rfl
  have hd := hhead hdata (by decide)
  simp only [isHttpUrl, decide_eq_true_eq] at h
  rcases h with h | h
  · rw [hhead h (by decide)] at hd
    exact absurd hd (by decide)
  · rw [hhead h (by decide)] at hd
    exact absurd hd (by decide)

theorem userBlocks_chat (part : Part) : part.chat.flatMap userBlocks = part.carried := by
  cases part with
  | text text => simp [Part.chat, userBlocks, Part.carried]
  | image source readable =>
    cases source with
    | base64 mediaType data =>
      obtain ⟨hmime, hsemicolon, hdata⟩ := readable
      simp [Part.chat, imagePart, userBlocks, imageBlock, parseDataUri_encodeDataUri hmime hsemicolon hdata, Part.carried]
    | url url =>
      have hurl : isHttpUrl url = true := readable
      simp [Part.chat, imagePart, userBlocks, imageBlock, parseDataUri_of_isHttpUrl hurl, hurl, Part.carried]
    | other => exact readable.elim

theorem contentBlocks_collapse (parts : List Part) :
    contentBlocks userBlocks (collapseTextParts (parts.flatMap Part.chat)) = carriedParts parts := by
  have hall : ((parts.flatMap Part.chat).all fun part => (partText part).isSome) = parts.all fun part => part.text?.isSome := by
    rw [List.all_flatMap]
    congr 1
    funext part
    cases part with
    | text text => rfl
    | image source readable =>
      cases source with
      | base64 mediaType data => rfl
      | url url => rfl
      | other => exact readable.elim
  rw [collapseTextParts, hall, carriedParts]
  split
  · rename_i htexts
    rw [contentBlocks]
    congr 2
    clear hall
    induction parts with
    | nil => rfl
    | cons part parts ih =>
      rw [List.all_cons, Bool.and_eq_true] at htexts
      cases part with
      | text text => simp [Part.chat, partText, Part.text?, ih htexts.2]
      | image source readable => simp [Part.text?] at htexts
  · rw [contentBlocks, List.flatMap_assoc]
    congr 1
    funext part
    exact userBlocks_chat part

def ReadsBack (json : JsonRuntime) (messages : List PlainMessage) : Prop :=
  ∀ msg ∈ messages, ∀ use ∈ msg.uses, json.parse (json.stringify (inputOf use.input)) = some (inputOf use.input)

theorem isReply_chat (result : ToolResult) : isReply result.chat = true := by
  simp [isReply, ToolResult.chat, result.id_ne]

theorem isReply_plain (json : JsonRuntime) (msg : PlainMessage) :
    isReply (msg.chat json) = false := by
  cases msg <;> rfl

theorem callIds_plain (json : JsonRuntime) (msg : PlainMessage) :
    callIds (msg.chat json) = msg.useIds := by
  cases msg with
  | assistant texts uses =>
    rw [callIds, PlainMessage.chat, if_pos rfl, List.map_map]
    rfl
  | _ => rfl

theorem roleBlocks_plain {msg : PlainMessage}
    (h : ∀ use ∈ msg.uses, json.parse (json.stringify (inputOf use.input)) = some (inputOf use.input)) :
    roleBlocks json (msg.chat json) = msg.carried.2.map (msg.carried.1, ·) := by
  cases msg with
  | userText text => rfl
  | user results parts =>
    rw [roleBlocks, PlainMessage.carried, ← contentBlocks_collapse]
    rfl
  | assistantText text => simp [roleBlocks, getContentBlocksFromMessage, PlainMessage.chat, contentBlocks, PlainMessage.carried, Turns.newRole]
  | assistant texts uses =>
    have huses : (uses.map (ToolUse.chat json)).map (toolUseBlock json) = uses.map ToolUse.carried := by
      rw [List.map_map]
      refine List.map_congr_left fun use huse => ?_
      show ClaudeBlock.toolUse use.id use.name ((json.parse (json.stringify (inputOf use.input))).getD _) = _
      rw [h use huse]
      rfl
    have hcontent : contentBlocks assistantBlocks (if uses ≠ [] ∧ texts = [] then .absent else .string (joinLines texts))
        = textBlock (joinLines texts) := by
      split
      · rename_i hnone
        rw [hnone.2]
        rfl
      · rfl
    have hblocks : getContentBlocksFromMessage json (PlainMessage.chat json (.assistant texts uses))
        = textBlock (joinLines texts) ++ uses.map ToolUse.carried := by
      rw [getContentBlocksFromMessage, PlainMessage.chat]
      simp only [hcontent, huses]
      by_cases hnone : uses = [] <;> simp [hnone]
    rw [roleBlocks, hblocks]
    rfl

theorem roleBlocks_results (json : JsonRuntime) (results : List ToolResult) :
    (results.map ToolResult.chat).flatMap (roleBlocks json) = (results.map ToolResult.carried).map (ClaudeRole.user, ·) := by
  rw [List.flatMap_map, List.map_map, List.map_eq_flatMap]
  rfl

theorem roleBlocks_missing (json : JsonRuntime) (ids : List Text) :
    (ids.map missingResponse).flatMap (roleBlocks json) = (ids.map unanswered).map (ClaudeRole.user, ·) := by
  rw [List.flatMap_map, List.map_map, List.map_eq_flatMap]
  rfl

theorem scan_plain (json : JsonRuntime) (owed : List Text) (msg : PlainMessage)
    (rest : List ChatMessage) :
    scan owed (convertClaudeMessage json msg.claude ++ rest) = msg.results.map ToolResult.chat ++
      if msg.onlyResults then scan (missingIds owed msg.resultIds) rest
      else (missingIds owed msg.resultIds).map missingResponse ++ msg.chat json :: scan msg.useIds rest := by
  have hreplies : ∀ reply ∈ msg.results.map ToolResult.chat, isReply reply = true := by
    intro reply hreply
    obtain ⟨result, -, rfl⟩ := List.mem_map.1 hreply
    exact isReply_chat result
  have hids : (msg.results.map ToolResult.chat).map ChatMessage.toolCallId = msg.resultIds := by
    rw [List.map_map]
    rfl
  rw [convertClaudeMessage_plain, List.append_assoc, scan_replies hreplies, hids]
  congr 1
  split
  · rfl
  · rw [List.singleton_append, scan, isReply_plain, callIds_plain]
    rfl

/-- **There and back.** -/
theorem flat_scan (owed : List Text) (messages : List PlainMessage) (h : ReadsBack json messages) :
    (scan owed ((messages.map PlainMessage.claude).flatMap (convertClaudeMessage json))).flatMap (roleBlocks json) =
      Batches.flat (carried owed messages) := by
  induction messages generalizing owed with
  | nil =>
    rw [List.map_nil, List.flatMap_nil, scan, roleBlocks_missing, carried]
    simp
  | cons msg messages ih =>
    have hrest : ReadsBack json messages := fun m hm => h m (List.mem_cons_of_mem msg hm)
    rw [List.map_cons, List.flatMap_cons, scan_plain, List.flatMap_append, roleBlocks_results, carried]
    simp only [Batches.flat_cons]
    congr 1
    split
    · exact ih _ hrest
    · rw [List.flatMap_append, roleBlocks_missing, List.flatMap_cons, ih _ hrest, roleBlocks_plain (h msg List.mem_cons_self)]
      rfl

/-! ### One answer for each call -/

/-- Every call is answered once, in the tool messages that directly follow. -/
def AnsweredOnce (messages : List ChatMessage) : Prop :=
  ∀ before msg after, messages = before ++ msg :: after →
    ∀ id ∈ callIds msg, ((after.takeWhile fun m => m.role = .tool).map ChatMessage.toolCallId).count id = 1

def directResults : List PlainMessage → List Text
  | [] => []
  | msg :: messages => msg.resultIds ++ if msg.onlyResults then directResults messages else []

/-- No turn calls by an id twice or is given two results for one. -/
def Orderly (messages : List PlainMessage) : Prop :=
  ∀ before msg after, messages = before ++ msg :: after → msg.useIds ≠ [] → msg.useIds.Nodup ∧ (directResults after).Nodup

/-- A message with calls is one of the messages that were there, and the scan goes
on behind it with its calls. -/
theorem scan_split {owed : List Text} {messages before after : List ChatMessage} {msg : ChatMessage}
    (h : scan owed messages = before ++ msg :: after) (hcalls : callIds msg ≠ []) :
    ∃ front rest, messages = front ++ msg :: rest ∧ after = scan (callIds msg) rest := by
  have hmissing : ∀ ids : List Text, msg ∉ ids.map missingResponse := by
    intro ids hmem
    obtain ⟨id, -, rfl⟩ := List.mem_map.1 hmem
    exact hcalls rfl
  induction messages generalizing owed before with
  | nil => exact absurd (by rw [scan] at h; rw [h]; simp) (hmissing owed)
  | cons m messages ih =>
    rw [scan] at h
    split at h
    · rename_i hreply
      cases before with
      | nil =>
        obtain ⟨rfl, -⟩ := List.cons.inj h
        exact absurd (callIds_of_tool (tool_of_isReply hreply)) hcalls
      | cons y before =>
        obtain ⟨-, h⟩ := List.cons.inj h
        obtain ⟨front, rest, rfl, hafter⟩ := ih h
        exact ⟨m :: front, rest, rfl, hafter⟩
    · rcases append_cons_eq_append_cons h (hmissing owed) with ⟨-, rfl, rfl⟩ | ⟨between, -, h⟩
      · exact ⟨[], messages, rfl, rfl⟩
      · obtain ⟨front, rest, rfl, hafter⟩ := ih h
        exact ⟨m :: front, rest, rfl, hafter⟩

/-- The answers behind a message with calls: those that were there, and one
for each call that had none. -/
theorem answers_scan (owed : List Text) {messages : List ChatMessage}
    (h : ∀ msg ∈ messages, msg.role = .tool → isReply msg = true) :
    ((scan owed messages).takeWhile fun m => m.role = .tool).map ChatMessage.toolCallId =
      (messages.takeWhile isReply).map ChatMessage.toolCallId ++
        missingIds owed ((messages.takeWhile isReply).map ChatMessage.toolCallId) := by
  have hreplies : ∀ msg ∈ messages.takeWhile isReply, decide (msg.role = .tool) = true :=
    fun msg hmsg => decide_eq_true (tool_of_isReply (List.mem_takeWhile_imp hmsg))
  have hmissing : ∀ ids : List Text, ∀ msg ∈ ids.map missingResponse, decide (msg.role = .tool) = true := by
    intro ids msg hmsg
    obtain ⟨id, -, rfl⟩ := List.mem_map.1 hmsg
    rfl
  have hrest : (scan [] (messages.dropWhile isReply)).takeWhile (fun m => m.role = .tool) = [] := by
    have hhead := head?_dropWhile_isReply messages
    have hmem : ∀ msg ∈ messages.dropWhile isReply, msg ∈ messages := fun msg hmsg => (List.dropWhile_sublist isReply).subset hmsg
    cases hdrop : messages.dropWhile isReply with
    | nil => rfl
    | cons msg rest =>
      rw [hdrop] at hhead hmem
      have hne : msg.role ≠ .tool := by
        intro htool
        have := h msg (hmem msg List.mem_cons_self) htool
        rw [hhead msg rfl] at this
        exact absurd this Bool.false_ne_true
      rw [scan_nil_cons, List.takeWhile_cons_of_neg (by simpa using hne)]
  rw [scan_eq, List.append_assoc, List.takeWhile_append_of_pos hreplies, List.takeWhile_append_of_pos (hmissing _), hrest, List.append_nil,
    List.map_append, List.map_map]
  congr 1
  exact List.map_id _

def converted (json : JsonRuntime) (messages : List PlainMessage) : List ChatMessage :=
  (messages.map PlainMessage.claude).flatMap (convertClaudeMessage json)

theorem converted_cons (json : JsonRuntime) (msg : PlainMessage) (messages : List PlainMessage) :
    converted json (msg :: messages) =
      msg.results.map ToolResult.chat ++ ((if msg.onlyResults then [] else [msg.chat json]) ++ converted json messages) := by
  rw [converted, List.map_cons, List.flatMap_cons, convertClaudeMessage_plain, List.append_assoc]
  rfl

theorem isReply_converted (json : JsonRuntime) (messages : List PlainMessage) :
    ∀ msg ∈ converted json messages, msg.role = .tool → isReply msg = true := by
  induction messages with
  | nil => simp [converted]
  | cons m messages ih =>
    intro msg hmsg htool
    rw [converted_cons, List.mem_append, List.mem_append] at hmsg
    rcases hmsg with hmsg | hmsg | hmsg
    · obtain ⟨result, -, rfl⟩ := List.mem_map.1 hmsg
      exact isReply_chat result
    · split at hmsg
      · simp at hmsg
      · rw [List.mem_singleton.1 hmsg] at htool
        cases m <;> simp [PlainMessage.chat] at htool
    · exact ih msg hmsg htool

theorem replies_converted (json : JsonRuntime) (messages : List PlainMessage) :
    ((converted json messages).takeWhile isReply).map ChatMessage.toolCallId = directResults messages := by
  induction messages with
  | nil => rfl
  | cons msg messages ih =>
    have hreplies : ∀ reply ∈ msg.results.map ToolResult.chat, isReply reply = true := by
      intro reply hreply
      obtain ⟨result, -, rfl⟩ := List.mem_map.1 hreply
      exact isReply_chat result
    rw [converted_cons, List.takeWhile_append_of_pos hreplies, List.map_append, List.map_map, directResults]
    congr 1
    split
    · exact ih
    · rw [List.singleton_append, List.takeWhile_cons_of_neg (by rw [isReply_plain]; exact Bool.false_ne_true)]
      rfl

theorem converted_split {messages : List PlainMessage} {before after : List ChatMessage}
    {msg : ChatMessage}
    (h : converted json messages = before ++ msg :: after) (hcalls : callIds msg ≠ []) :
    ∃ front m rest, messages = front ++ m :: rest ∧ callIds msg = m.useIds ∧ after = converted json rest := by
  induction messages generalizing before with
  | nil => simp [converted] at h
  | cons m messages ih =>
    have hresults : msg ∉ m.results.map ToolResult.chat := by
      intro hmem
      obtain ⟨result, -, rfl⟩ := List.mem_map.1 hmem
      exact hcalls rfl
    rw [converted_cons] at h
    have hrest : ∀ {before}, converted json messages = before ++ msg :: after →
        ∃ front m' rest, m :: messages = front ++ m' :: rest ∧ callIds msg = m'.useIds ∧ after = converted json rest := by
      intro before h
      obtain ⟨front, m', rest, rfl, hids, hafter⟩ := ih h
      exact ⟨m :: front, m', rest, rfl, hids, hafter⟩
    split at h
    · rw [List.nil_append] at h
      rcases List.append_eq_append_iff.1 h with ⟨t, -, ht⟩ | ⟨t, ht, ht'⟩
      · exact hrest ht
      · cases t with
        | nil => exact @hrest [] ht'.symm
        | cons y t =>
          obtain ⟨rfl, -⟩ := List.cons.inj ht'
          exact absurd (by rw [ht]; simp) hresults
    · rw [List.singleton_append] at h
      rcases append_cons_eq_append_cons h hresults with ⟨-, rfl, rfl⟩ | ⟨between, -, h⟩
      · exact ⟨[], m, messages, rfl, callIds_plain json m, rfl⟩
      · exact hrest h

theorem answeredOnce_of_orderly {messages : List PlainMessage} (h : Orderly messages) :
    AnsweredOnce (claudeToOpenAIRequest json (messages.map PlainMessage.claude)) := by
  intro before msg after hsplit id hid
  have hcalls : callIds msg ≠ [] := List.ne_nil_of_mem hid
  rw [claudeToOpenAIRequest, fixMissingToolResponsesOpenAI_eq_scan] at hsplit
  obtain ⟨front, rest, hconverted, rfl⟩ := scan_split hsplit hcalls
  have htool : ∀ m ∈ rest, m.role = .tool → isReply m = true := by
    intro m hm
    refine isReply_converted json messages m ?_
    rw [converted, hconverted]
    simp [hm]
  obtain ⟨front', m, rest', rfl, hids, rfl⟩ := @converted_split json _ _ _ _ hconverted hcalls
  rw [answers_scan _ htool, replies_converted, hids, List.count_append]
  rw [hids] at hid hcalls
  obtain ⟨huses, hresults⟩ := h front' m rest' rfl hcalls
  by_cases hanswered : id ∈ directResults rest'
  · rw [List.count_eq_one_of_mem hresults hanswered, List.count_eq_zero_of_not_mem]
    simp [missingIds, hanswered]
  · rw [List.count_eq_zero_of_not_mem hanswered, missingIds, List.count_filter (by simpa using hanswered), List.count_eq_one_of_mem huses hid]

/-- **A conversation through the pivot.** It comes back as what is carried of it, and where the ids
of a turn are distinct each call has one answer on the way. -/
theorem claude_roundTrip (json : JsonRuntime) (messages : List PlainMessage)
    (h : ReadsBack json messages) :
    Batches.merge (openaiToClaudeRequest json (claudeToOpenAIRequest json (messages.map PlainMessage.claude)))
        = Batches.merge (carried [] messages) ∧
      (Orderly messages → AnsweredOnce (claudeToOpenAIRequest json (messages.map PlainMessage.claude))) := by
  refine ⟨?_, answeredOnce_of_orderly⟩
  rw [Batches.merge_eq_iff, openaiToClaudeRequest_flat, claudeToOpenAIRequest, fixMissingToolResponsesOpenAI_eq_scan]
  exact flat_scan [] messages h

end Carried

/-! ### A conversation -/

def sent (msg : ClaudeMessage) : Turn :=
  (msg.role, match msg.content with
    | .absent => []
    | .string text => [.text text]
    | .blocks blocks => blocks)

def sampleInput : Json := .object (.cons "path" (.string "a.js") .nil)

def sampleJson : JsonRuntime where
  stringify := Json.print
  stringifyBlocks _ := []
  parse text := if text = sampleInput.print then some sampleInput else none

/-- Two calls, one of which fails and one of which is not answered. -/
def sample : List PlainMessage :=
  [.user [] [.text "Look at this.".toList, .image (.base64 "image/png".toList "iVBORw0KGgo=".toList) ⟨by decide, by decide, by decide⟩],
    .assistant ["One moment.".toList, "I will read both.".toList]
      [⟨"toolu_1".toList, "read".toList, sampleInput, by decide⟩, ⟨"toolu_2".toList, "read".toList, sampleInput, by decide⟩],
    .user [⟨"toolu_1".toList, "no such file".toList, true, by decide⟩] [.text "Go on.".toList]]

theorem claude_roundTrip_sample :
    Batches.merge (openaiToClaudeRequest sampleJson (claudeToOpenAIRequest sampleJson (sample.map PlainMessage.claude)))
        = Batches.merge (carried [] sample) ∧
      AnsweredOnce (claudeToOpenAIRequest sampleJson (sample.map PlainMessage.claude)) := by
  have hreads : ReadsBack sampleJson sample := by
    intro msg hmsg use huse
    have hinput : use.input = sampleInput := by
      simp only [sample, List.mem_cons, List.not_mem_nil, or_false] at hmsg
      rcases hmsg with rfl | rfl | rfl
      · simp [PlainMessage.uses] at huse
      · simp only [PlainMessage.uses, List.mem_cons, List.not_mem_nil, or_false] at huse
        rcases huse with rfl | rfl <;> rfl
      · simp [PlainMessage.uses] at huse
    rw [hinput]
    rfl
  have horderly : Orderly sample := by
    intro before msg after h huses
    rcases before with _ | ⟨first, _ | ⟨second, _ | ⟨third, rest⟩⟩⟩
    · obtain ⟨rfl, -⟩ := List.cons.inj h
      exact absurd rfl huses
    · obtain ⟨-, h⟩ := List.cons.inj h
      obtain ⟨rfl, rfl⟩ := List.cons.inj h
      exact ⟨by decide, by decide⟩
    · obtain ⟨-, h⟩ := List.cons.inj h
      obtain ⟨-, h⟩ := List.cons.inj h
      obtain ⟨rfl, -⟩ := List.cons.inj h
      exact absurd rfl huses
    · simp [sample] at h
  exact ⟨(claude_roundTrip sampleJson sample hreads).1, (claude_roundTrip sampleJson sample hreads).2 horderly⟩

/-- What comes back is not what was sent: the texts are one, the failed result is a plain one, and
there is a result more. -/
theorem sample_changed :
    Batches.merge (openaiToClaudeRequest sampleJson (claudeToOpenAIRequest sampleJson (sample.map PlainMessage.claude)))
      ≠ Batches.merge (sample.map fun msg => sent msg.claude) := by
  decide +kernel

end TokenProxy.ClaudePivot
