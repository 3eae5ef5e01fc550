import TokenProxy.Translator.ResponsesStream

/-!
# Chat and Responses requests

`openaiToOpenAIResponsesRequest` flattens the messages of a chat request to the items of a Responses
request, and `openaiResponsesToOpenAIRequest` groups items into messages again. What the way there
and back makes of a conversation: the first instruction message is its instructions, call ids are
cut to 64 units, and the texts, calls and results come back in their order.
-/

namespace TokenProxy.ResponsesRequest

open Lib
open Translator (Text ReasoningDetail ToolMetadata)

/-! ### Chat requests -/

inductive Role where
  | system
  | developer
  | user
  | assistant
  | tool
  deriving DecidableEq

/-- A block of a content; an image's `detail` may be empty. -/
inductive Block where
  | text (text : Text)
  | imageUrl (url detail : Text)
  deriving DecidableEq

/-- `content`: null, a string or blocks. -/
inductive Content where
  | null
  | string (text : Text)
  | blocks (blocks : List Block)
  deriving DecidableEq

abbrev CallId := List UInt16

/-- An entry of `tool_calls`; a text that is absent is empty. -/
structure ToolCall where
  id : CallId
  name : Text
  arguments : Text
  deriving DecidableEq

/-- The fields of an assistant message that carry reasoning: its texts across vendor
shapes, and its encrypted content. -/
structure Reasoning where
  reasoningContent : Text := []
  reasoning : Text := []
  reasoningDetails : List ReasoningDetail := []
  encryptedContent : Text := []
  reasoningEncryptedContent : Text := []
  objectEncryptedContent : Text := []
  deriving DecidableEq

structure Message where
  role : Role
  content : Content := .null
  reasoning : Reasoning := {}
  toolCalls : List ToolCall := []
  toolCallId : CallId := []
  deriving DecidableEq

/-- A chat request: its messages, and the names of the functions that it declares. -/
structure ChatRequest where
  messages : List Message
  tools : List Text := []
  deriving DecidableEq

/-! ### Responses requests -/

inductive Part where
  | inputText (text : Text)
  | outputText (text : Text)
  | inputImage (imageUrl detail : Text)
  deriving DecidableEq

inductive Item where
  | message (role : Role) (content : List Part)
  | functionCall (callId : CallId) (name arguments : Text)
  | functionCallOutput (callId : CallId) (output : Text)
  | reasoning (summary encryptedContent : Text)
  deriving DecidableEq

structure Request where
  instructions : Text
  input : List Item
  tools : List Text
  deriving DecidableEq

/-! ### From chat to Responses -/

def maxCallIdLen : ℕ := 64

def clampCallId (id : CallId) : CallId := if maxCallIdLen < id.length then id.take maxCallIdLen else id

/-- The first text that is not blank, as `buildReasoningInputItem` looks for it. -/
def summaryText (r : Reasoning) : Text :=
  if trim r.reasoningContent ≠ [] then r.reasoningContent
  else if trim r.reasoning ≠ [] then r.reasoning
  else "\n".toList.intercalate ((r.reasoningDetails.map fun
    | .text _ => []
    | .entry text content => if text ≠ [] then text else content).filter (· ≠ []))

def firstNonempty : List Text → Text
  | [] => []
  | text :: texts => if text = [] then firstNonempty texts else text

/-- The reasoning item that stands before an assistant's message, if
there is anything to send again. -/
def buildReasoningInputItem (r : Reasoning) : List Item :=
  let encrypted := firstNonempty [r.encryptedContent, r.reasoningEncryptedContent, r.objectEncryptedContent]
  if encrypted = [] ∧ summaryText r = [] then [] else [.reasoning (summaryText r) encrypted]

def auto : Text := "auto".toList

def orElse (a b : Text) : Text := if a = [] then b else a

def partsOf (role : Role) : Content → List Part
  | .null => []
  | .string text => [if role = .user then .inputText text else .outputText text]
  | .blocks blocks => blocks.map fun
    | .text text => if role = .user then .inputText text else .outputText text
    | .imageUrl url detail => .inputImage url (orElse detail auto)

def unknownName : Text := "_unknown".toList

def noArguments : Text := "\x7b\x7d".toList

def toolCallItem (tc : ToolCall) : Item :=
  .functionCall (clampCallId tc.id) (orElse tc.name unknownName) (orElse tc.arguments noArguments)

/-- `JSON.stringify` of the blocks of a result that have no text. -/
abbrev Stringify := Block → Text

variable (stringify : Stringify)

def toolOutput : Content → Text
  | .null => "null".toList
  | .string text => text
  | .blocks blocks => blocks.flatMap fun block =>
    match block with
    | .text text => if text = [] then stringify block else text
    | .imageUrl _ _ => stringify block

def itemsOf (msg : Message) : List Item :=
  match msg.role with
  | .system | .developer => []
  | .user => if partsOf .user msg.content = [] then [] else [.message .user (partsOf .user msg.content)]
  | .assistant =>
    buildReasoningInputItem msg.reasoning ++
      (if partsOf .assistant msg.content = [] then [] else [Item.message .assistant (partsOf .assistant msg.content)]) ++
      msg.toolCalls.map toolCallItem
  | .tool => [.functionCallOutput (clampCallId msg.toolCallId) (toolOutput stringify msg.content)]

def Message.instructs (msg : Message) : Bool := msg.role = .system || msg.role = .developer

/-- The first instruction message is used, if its content is a string. -/
def instructionsOf (messages : List Message) : Text :=
  match messages.find? Message.instructs with
  | some msg =>
    match msg.content with
    | .string text => text
    | _ => []
  | none => []

def openaiToOpenAIResponsesRequest (body : ChatRequest) : Request :=
  { instructions := instructionsOf body.messages
    input := body.messages.flatMap (itemsOf stringify)
    tools := body.tools }

/-! ### Names of tools -/

def undotted (name : Text) : Text := name.flatMap fun c => if c = '.' then "__".toList else [c]

/-- The names that `reserveResponsesToolName` tries, by their number. -/
def candidate (preferredName : Text) : ℕ → Text
  | 0 => preferredName
  | collision + 1 => preferredName ++ "__9r".toList ++ (toString (collision + 1)).toList

/-- The loop of `reserveResponsesToolName`; a map of `n` names leaves one
of `n + 1` candidates free. -/
def reserveFrom (map : Dict Text ToolMetadata) (preferredName : Text) (metadata : ToolMetadata) :
    ℕ → ℕ → Dict Text ToolMetadata × Text
  | 0, k => (map, candidate preferredName k)
  | rounds + 1, k =>
    match map.get? (candidate preferredName k) with
    | none => (map.put (candidate preferredName k, metadata), candidate preferredName k)
    | some existing =>
      if existing.2 = metadata then (map, candidate preferredName k) else reserveFrom map preferredName metadata rounds (k + 1)

def reserveResponsesToolName (map : Dict Text ToolMetadata) (preferredName : Text)
    (metadata : ToolMetadata) :
    Dict Text ToolMetadata × Text :=
  reserveFrom map preferredName metadata (map.rows.length + 1) 0

def declareTool (declared : Dict Text ToolMetadata × List Text)
    (name : Text) : Dict Text ToolMetadata × List Text :=
  if trim name = [] then declared
  else
    let reserved := reserveResponsesToolName declared.1 (undotted name) { name := name }
    (reserved.1, declared.2 ++ [reserved.2])

/-- The map of the declared functions, and their names in the chat request. -/
def declareTools (tools : List Text) : Dict Text ToolMetadata × List Text := tools.foldl declareTool (.empty, [])

def declaredResponsesToolName (map : Dict Text ToolMetadata) (name : Text) : Text :=
  if map.rows = [] ∨ name = [] then name
  else
    match map.rows.find? fun row => row.2.name = name && row.2.space = none with
    | some row => row.1
    | none =>
      match map.rows.filter fun row => row.2.space.any (· ≠ []) && row.2.name = name with
      | [row] => row.1
      | _ => name

/-! ### From Responses to chat -/

/-- The variables of the loop over the items. Results are pushed at once, so
none of them is ever pending. -/
structure Turn where
  messages : List Message := []
  currentAssistantMsg : Option Message := none
  pendingReasoning : Text := []
  pendingReasoningEncrypted : Text := []
  deriving DecidableEq

def Turn.flush (turn : Turn) : Turn :=
  { turn with messages := turn.messages ++ turn.currentAssistantMsg.toList, currentAssistantMsg := none }

def Turn.push (turn : Turn) (msg : Message) : Turn := { turn with messages := turn.messages ++ [msg] }

/-- `attachPendingReasoning`: the message with the reasoning that is pending. -/
def Turn.withReasoning (turn : Turn) (msg : Message) : Message :=
  { msg with
    reasoning := { reasoningContent := turn.pendingReasoning, encryptedContent := turn.pendingReasoningEncrypted } }

def Turn.clearReasoning (turn : Turn) : Turn := { turn with pendingReasoning := [], pendingReasoningEncrypted := [] }

def partBlock : Part → Block
  | .inputText text => .text text
  | .outputText text => .text text
  | .inputImage imageUrl detail => .imageUrl imageUrl (orElse detail auto)

def chatRole (role : Role) : Role := if role = .developer then .system else role

variable (names : Dict Text ToolMetadata)

def Turn.step (turn : Turn) : Item → Turn
  | .message role content =>
    let msg : Message := { role := chatRole role, content := .blocks (content.map partBlock) }
    let msg := if role = .assistant then turn.withReasoning msg else msg
    turn.flush.clearReasoning.push msg
  | .functionCall callId name arguments =>
    let opened :=
      match turn.currentAssistantMsg with
      | some _ => turn
      | none => { turn.clearReasoning with currentAssistantMsg := some (turn.withReasoning { role := .assistant }) }
    if trim name = [] then opened
    else
      { opened with
        currentAssistantMsg := opened.currentAssistantMsg.map fun msg =>
          { msg with toolCalls := msg.toolCalls ++ [⟨callId, declaredResponsesToolName names name, arguments⟩] } }
  | .functionCallOutput callId output =>
    turn.flush.push { role := .tool, toolCallId := callId, content := .string output }
  | .reasoning summary encryptedContent =>
    { turn with
      pendingReasoning :=
        if summary = [] then turn.pendingReasoning
        else if turn.pendingReasoning = [] then summary
        else turn.pendingReasoning ++ "\n".toList ++ summary
      pendingReasoningEncrypted := orElse encryptedContent turn.pendingReasoningEncrypted }

/-- What is left at the end; reasoning that no message took gets one of its own. -/
def Turn.close (turn : Turn) : List Message :=
  let turn := turn.flush
  if turn.pendingReasoning = [] ∧ turn.pendingReasoningEncrypted = [] then turn.messages
  else turn.messages ++ [turn.withReasoning { role := .assistant, content := .string [] }]

/-- An empty input becomes a placeholder, since providers refuse requests without messages. -/
def normalizeResponsesInput (input : List Item) : List Item :=
  if input = [] then [.message .user [.inputText "...".toList]] else input

def openaiResponsesToOpenAIRequest (body : Request) : ChatRequest :=
  let declared := declareTools body.tools
  let start : Turn := { messages := if body.instructions = [] then [] else [{ role := .system, content := .string body.instructions }] }
  { messages := ((normalizeResponsesInput body.input).foldl (Turn.step declared.1) start).close
    tools := declared.2 }

def roundTrip (body : ChatRequest) : ChatRequest :=
  openaiResponsesToOpenAIRequest (openaiToOpenAIResponsesRequest stringify body)

/-! ### Conversations -/

def Block.textOf : Block → Text
  | .text t => t
  | .imageUrl _ _ => []

def Content.text? : Content → Option Text
  | .null => none
  | .string t => some t
  | .blocks bs => if bs = [] then none else some (bs.flatMap Block.textOf)

inductive Entry where
  | said (role : Role) (text : Text)
  | call (id : CallId) (name arguments : Text)
  | result (id : CallId) (output : Text)
  deriving DecidableEq

def Message.entries (msg : Message) : List Entry :=
  match msg.role with
  | .system | .developer => []
  | .user => (msg.content.text?.map (.said .user)).toList
  | .assistant =>
    (msg.content.text?.map (.said .assistant)).toList ++ msg.toolCalls.map fun tc => .call tc.id tc.name tc.arguments
  | .tool => [.result msg.toolCallId (toolOutput stringify msg.content)]

/-- What the user and the assistant said, the calls and the results, in their order. -/
def entries (messages : List Message) : List Entry := messages.flatMap (Message.entries stringify)

def instructionText (messages : List Message) : Text :=
  messages.flatMap fun msg => if msg.instructs then msg.content.text?.getD [] else []

/-- What the way there and back makes of an entry. Ids are cut, a call without a name or arguments
gets some, and one with a blank name is dropped. -/
def carry (names : Dict Text ToolMetadata) : Entry → Option Entry
  | .said role text => some (.said role text)
  | .call id name arguments =>
    if trim (orElse name unknownName) = [] then none
    else some (.call (clampCallId id) (declaredResponsesToolName names (orElse name unknownName)) (orElse arguments noArguments))
  | .result id output => some (.result (clampCallId id) output)

/-- A chat request: an assistant's message says or calls something, and the results
follow their calls directly. -/
structure ChatRequest.Valid (body : ChatRequest) : Prop where
  spoken : ∀ msg ∈ body.messages, msg.role = .assistant → msg.content.text?.isSome ∨ msg.toolCalls ≠ []
  answered : List.IsChain (fun a b : Message => a.role = .assistant → a.toolCalls ≠ [] → b.role = .tool) body.messages

/-! ### One item -/

def Turn.all (turn : Turn) : List Message := turn.messages ++ turn.currentAssistantMsg.toList

def Item.entries : Item → List Entry
  | .message role content => [.said role ((content.map partBlock).flatMap Block.textOf)]
  | .functionCall callId name arguments => if trim name = [] then [] else [.call callId (declaredResponsesToolName names name) arguments]
  | .functionCallOutput callId output => [.result callId output]
  | .reasoning _ _ => []

def Item.Flat : Item → Prop
  | .message role content => (role = .user ∨ role = .assistant) ∧ content ≠ []
  | _ => True

def Turn.Sound (turn : Turn) : Prop := ∀ msg ∈ turn.currentAssistantMsg, msg.role = .assistant

theorem Turn.step_spec {turn : Turn} (h : turn.Sound) {item : Item} (hitem : item.Flat) :
    (turn.step names item).Sound ∧
      entries stringify (turn.step names item).all = entries stringify turn.all ++ item.entries names ∧
      instructionText (turn.step names item).all = instructionText turn.all := by
  cases item with
  | message role content =>
    obtain ⟨hrole, hcontent⟩ := hitem
    refine ⟨?_, ?_, ?_⟩
    · intro msg hmsg
      simp [Turn.step, Turn.push, Turn.clearReasoning, Turn.flush] at hmsg
    · rcases hrole with rfl | rfl <;>
        simp [Turn.step, Turn.push, Turn.clearReasoning, Turn.flush, Turn.all, entries, Message.entries, Content.text?, chatRole,
          Item.entries, Turn.withReasoning, hcontent]
    · rcases hrole with rfl | rfl <;>
        simp [Turn.step, Turn.push, Turn.clearReasoning, Turn.flush, Turn.all, instructionText, Message.instructs, chatRole,
          Turn.withReasoning]
  | functionCall callId name arguments =>
    cases hcurrent : turn.currentAssistantMsg with
    | none =>
      by_cases hblank : trim name = []
      · refine ⟨?_, ?_, ?_⟩ <;>
          simp [Turn.step, hcurrent, hblank, Turn.Sound, Turn.clearReasoning, Turn.all, Turn.withReasoning, entries, instructionText,
            Message.entries, Message.instructs, Content.text?, Item.entries]
      · refine ⟨?_, ?_, ?_⟩ <;>
          simp [Turn.step, hcurrent, hblank, Turn.Sound, Turn.clearReasoning, Turn.all, Turn.withReasoning, entries, instructionText,
            Message.entries, Message.instructs, Content.text?, Item.entries]
    | some msg =>
      have hrole : msg.role = .assistant := h msg hcurrent
      by_cases hblank : trim name = []
      · simp only [Turn.step, hcurrent, hblank, if_true, Item.entries, List.append_nil, and_self, and_true]
        exact h
      · refine ⟨?_, ?_, ?_⟩ <;>
          simp [Turn.step, hcurrent, hblank, Turn.Sound, Turn.all, entries, instructionText, Message.entries, Message.instructs, hrole,
            Item.entries]
  | functionCallOutput callId output =>
    refine ⟨?_, ?_, ?_⟩
    · intro msg hmsg
      simp [Turn.step, Turn.push, Turn.flush] at hmsg
    · simp [Turn.step, Turn.push, Turn.flush, Turn.all, entries, Message.entries, toolOutput, Item.entries]
    · simp [Turn.step, Turn.push, Turn.flush, Turn.all, instructionText, Message.instructs]
  | reasoning summary encryptedContent =>
    refine ⟨h, ?_, rfl⟩
    simp [Turn.step, Turn.all, Item.entries]

theorem foldl_step_spec (items : List Item) {turn : Turn} (h : turn.Sound)
    (hitems : ∀ item ∈ items, item.Flat) :
    (items.foldl (Turn.step names) turn).Sound ∧
      entries stringify (items.foldl (Turn.step names) turn).all =
        entries stringify turn.all ++ items.flatMap (Item.entries names) ∧
      instructionText (items.foldl (Turn.step names) turn).all = instructionText turn.all := by
  induction items generalizing turn with
  | nil => exact ⟨h, by simp, rfl⟩
  | cons item items ih =>
    obtain ⟨hsound, hentries, hinstructions⟩ := Turn.step_spec stringify names h (hitems item (List.mem_cons_self ..))
    obtain ⟨hsound', hentries', hinstructions'⟩ := ih hsound fun i hi => hitems i (List.mem_cons_of_mem item hi)
    refine ⟨hsound', ?_, hinstructions'.trans hinstructions⟩
    rw [List.foldl_cons, hentries', hentries, List.flatMap_cons, List.append_assoc]

/-! ### Pending reasoning -/

def Turn.Settled (turn : Turn) : Prop := turn.pendingReasoning = [] ∧ turn.pendingReasoningEncrypted = []

def Turn.Flushed (turn : Turn) : Prop := turn.currentAssistantMsg = none

theorem Turn.settled_functionCall {turn : Turn} (h : turn.Settled ∨ turn.Flushed) (callId : CallId)
    (name arguments : Text) :
    (turn.step names (.functionCall callId name arguments)).Settled := by
  simp only [Turn.step]
  cases hcurrent : turn.currentAssistantMsg with
  | none => split_ifs <;> exact ⟨rfl, rfl⟩
  | some msg =>
    have hsettled : turn.Settled := by
      rcases h with h | h
      · exact h
      · simp [Turn.Flushed, hcurrent] at h
    split_ifs
    · exact hsettled
    · exact hsettled

theorem Turn.settled_calls {turn : Turn} (h : turn.Settled) (tcs : List ToolCall) :
    ((tcs.map toolCallItem).foldl (Turn.step names) turn).Settled := by
  induction tcs generalizing turn with
  | nil => exact h
  | cons tc tcs ih => exact ih (Turn.settled_functionCall names (Or.inl h) _ _ _)

theorem partsOf_eq_nil (role : Role) (content : Content) :
    partsOf role content = [] ↔ content.text? = none := by
  cases content with
  | null => simp [partsOf, Content.text?]
  | string text => simp [partsOf, Content.text?]
  | blocks bs => simp [partsOf, Content.text?]

theorem Turn.settled_message (turn : Turn) (role : Role) (content : List Part) :
    (turn.step names (.message role content)).Settled ∧ (turn.step names (.message role content)).Flushed :=
  ⟨⟨rfl, rfl⟩, rfl⟩

theorem Turn.flushed_reasoning {turn : Turn} (h : turn.Flushed) (r : Reasoning) :
    ((buildReasoningInputItem r).foldl (Turn.step names) turn).Flushed := by
  unfold buildReasoningInputItem
  dsimp only
  split_ifs
  · exact h
  · exact h

theorem Turn.settled_assistant {turn : Turn} (hflushed : turn.Flushed) (msg : Message)
    (hspoken : msg.content.text?.isSome ∨ msg.toolCalls ≠ []) :
    let items := buildReasoningInputItem msg.reasoning ++
      (if partsOf .assistant msg.content = [] then [] else [Item.message .assistant (partsOf .assistant msg.content)]) ++
      msg.toolCalls.map toolCallItem
    (items.foldl (Turn.step names) turn).Settled ∧ ((items.foldl (Turn.step names) turn).Flushed ∨ msg.toolCalls ≠ []) := by
  have hreasoning := Turn.flushed_reasoning names hflushed msg.reasoning
  dsimp only
  rw [List.foldl_append, List.foldl_append]
  generalize (buildReasoningInputItem msg.reasoning).foldl (Turn.step names) turn = t at hreasoning
  split_ifs with hparts
  · -- without a text the first call takes the reasoning
    have hcalls : msg.toolCalls ≠ [] := by
      rcases hspoken with h | h
      · rw [(partsOf_eq_nil .assistant msg.content).1 hparts] at h
        simp at h
      · exact h
    refine ⟨?_, Or.inr hcalls⟩
    cases htcs : msg.toolCalls with
    | nil => exact absurd htcs hcalls
    | cons tc tcs => exact Turn.settled_calls names (Turn.settled_functionCall names (Or.inr hreasoning) _ _ _) tcs
  · obtain ⟨hsettled, hflushed'⟩ := Turn.settled_message names t .assistant (partsOf .assistant msg.content)
    refine ⟨Turn.settled_calls names hsettled msg.toolCalls, ?_⟩
    by_cases hcalls : msg.toolCalls = []
    · rw [hcalls]
      exact Or.inl hflushed'
    · exact Or.inr hcalls

/-- A message of a valid request leaves no reasoning pending, and no message of the
assistant unless it calls something. -/
theorem Turn.settled_itemsOf {turn : Turn} (h : turn.Settled) {msg : Message}
    (hbefore : turn.Flushed ∨ msg.role = .tool)
    (hspoken : msg.role = .assistant → msg.content.text?.isSome ∨ msg.toolCalls ≠ []) :
    ((itemsOf stringify msg).foldl (Turn.step names) turn).Settled ∧
      (((itemsOf stringify msg).foldl (Turn.step names) turn).Flushed ∨ msg.role = .assistant ∧ msg.toolCalls ≠ []) := by
  cases hrole : msg.role with
  | system =>
    simp only [itemsOf, hrole]
    exact ⟨h, hbefore.imp id (by simp [hrole])⟩
  | developer =>
    simp only [itemsOf, hrole]
    exact ⟨h, hbefore.imp id (by simp [hrole])⟩
  | user =>
    simp only [itemsOf, hrole]
    split_ifs
    · exact ⟨h, hbefore.imp id (by simp [hrole])⟩
    · exact ⟨(Turn.settled_message names turn .user _).1, Or.inl (Turn.settled_message names turn .user _).2⟩
  | assistant =>
    have hflushed : turn.Flushed := by
      rcases hbefore with h | h
      · exact h
      · simp [hrole] at h
    obtain ⟨hsettled, hafter⟩ := Turn.settled_assistant names hflushed msg (hspoken hrole)
    simp only [itemsOf, hrole]
    exact ⟨hsettled, hafter.imp id fun h => ⟨trivial, h⟩⟩
  | tool =>
    simp only [itemsOf, hrole]
    exact ⟨h, Or.inl rfl⟩

theorem Turn.settled_messages {turn : Turn} (h : turn.Settled) {messages : List Message}
    (hspoken : ∀ msg ∈ messages, msg.role = .assistant → msg.content.text?.isSome ∨ msg.toolCalls ≠ [])
    (hanswered : List.IsChain (fun a b : Message => a.role = .assistant → a.toolCalls ≠ [] → b.role = .tool) messages)
    (hbefore : turn.Flushed ∨ ∀ msg ∈ messages.head?, msg.role = .tool) :
    ((messages.flatMap (itemsOf stringify)).foldl (Turn.step names) turn).Settled := by
  induction messages generalizing turn with
  | nil => exact h
  | cons msg messages ih =>
    rw [List.flatMap_cons, List.foldl_append]
    obtain ⟨hsettled, hafter⟩ := Turn.settled_itemsOf stringify names h (hbefore.imp id fun h => h msg rfl)
      (hspoken msg (List.mem_cons_self ..))
    refine ih hsettled (fun m hm => hspoken m (List.mem_cons_of_mem msg hm)) hanswered.of_cons ?_
    refine hafter.imp id ?_
    rintro ⟨hrole, hcalls⟩ next hnext
    cases messages with
    | nil => simp at hnext
    | cons m messages =>
      obtain rfl := Option.some.inj hnext
      exact (List.isChain_cons_cons.1 hanswered).1 hrole hcalls

/-! ### The whole request -/

theorem text_partsOf (role : Role) {content : Content} {t : Text} (h : content.text? = some t) :
    ((partsOf role content).map partBlock).flatMap Block.textOf = t := by
  have hpart : ∀ t, (partBlock (if role = .user then .inputText t else .outputText t)).textOf = t := by
    intro t
    split_ifs <;> rfl
  cases content with
  | null => simp [Content.text?] at h
  | string text =>
    obtain rfl := Option.some.inj h
    simp [partsOf, hpart]
  | blocks bs =>
    simp only [Content.text?] at h
    split_ifs at h
    obtain rfl := Option.some.inj h
    rw [partsOf, List.map_map, List.flatMap_map]
    congr 1
    funext block
    cases block with
    | text t => exact hpart t
    | imageUrl url detail => rfl

theorem entries_reasoning (r : Reasoning) :
    (buildReasoningInputItem r).flatMap (Item.entries names) = [] := by
  unfold buildReasoningInputItem
  dsimp only
  split_ifs <;> rfl

theorem entries_message (role : Role) (content : Content) :
    (if partsOf role content = [] then [] else [Item.message role (partsOf role content)]).flatMap (Item.entries names) =
      (content.text?.map (Entry.said role)).toList := by
  cases htext : content.text? with
  | none => simp [(partsOf_eq_nil role content).2 htext]
  | some t =>
    have hparts : partsOf role content ≠ [] := by
      rw [Ne, partsOf_eq_nil, htext]
      simp
    rw [if_neg hparts, List.flatMap_singleton, Item.entries, text_partsOf role htext]
    rfl

theorem entries_calls (tcs : List ToolCall) :
    (tcs.map toolCallItem).flatMap (Item.entries names) =
      (tcs.map fun tc => Entry.call tc.id tc.name tc.arguments).filterMap (carry names) := by
  induction tcs with
  | nil => rfl
  | cons tc tcs ih =>
    rw [List.map_cons, List.flatMap_cons, ih, List.map_cons, List.filterMap_cons]
    simp only [toolCallItem, Item.entries, carry]
    split_ifs <;> rfl

theorem filterMap_said (role : Role) (t : Option Text) :
    (t.map (Entry.said role)).toList.filterMap (carry names) = (t.map (Entry.said role)).toList := by
  cases t <;> rfl

theorem entries_itemsOf (msg : Message) :
    (itemsOf stringify msg).flatMap (Item.entries names) = (msg.entries stringify).filterMap (carry names) := by
  cases hrole : msg.role with
  | system => simp [itemsOf, Message.entries, hrole]
  | developer => simp [itemsOf, Message.entries, hrole]
  | user => simp only [itemsOf, Message.entries, hrole, entries_message, filterMap_said]
  | assistant =>
    simp only [itemsOf, Message.entries, hrole, List.flatMap_append, List.filterMap_append, entries_reasoning, entries_message,
      entries_calls, filterMap_said, List.nil_append]
  | tool => simp [itemsOf, Message.entries, hrole, Item.entries, carry]

theorem flat_itemsOf (msg : Message) : ∀ item ∈ itemsOf stringify msg, item.Flat := by
  intro item hitem
  have hmessage : ∀ role, role = .user ∨ role = .assistant →
      item ∈ (if partsOf role msg.content = [] then [] else [Item.message role (partsOf role msg.content)]) → item.Flat := by
    intro role hrole hitem
    split_ifs at hitem with hparts
    · simp at hitem
    · obtain rfl := List.mem_singleton.1 hitem
      exact ⟨hrole, hparts⟩
  cases hrole : msg.role with
  | system => simp [itemsOf, hrole] at hitem
  | developer => simp [itemsOf, hrole] at hitem
  | user =>
    rw [itemsOf, hrole] at hitem
    exact hmessage .user (Or.inl rfl) hitem
  | assistant =>
    rw [itemsOf, hrole] at hitem
    dsimp only at hitem
    rw [List.mem_append, List.mem_append] at hitem
    rcases hitem with (hitem | hitem) | hitem
    · unfold buildReasoningInputItem at hitem
      dsimp only at hitem
      split_ifs at hitem
      · simp at hitem
      · obtain rfl := List.mem_singleton.1 hitem
        trivial
    · exact hmessage .assistant (Or.inr rfl) hitem
    · obtain ⟨tc, -, rfl⟩ := List.mem_map.1 hitem
      trivial
  | tool =>
    rw [itemsOf, hrole] at hitem
    obtain rfl := List.mem_singleton.1 hitem
    trivial

theorem input_eq_nil_iff {body : ChatRequest} (hvalid : body.Valid) :
    body.messages.flatMap (itemsOf stringify) = [] ↔ entries stringify body.messages = [] := by
  rw [entries, List.flatMap_eq_nil_iff, List.flatMap_eq_nil_iff]
  refine forall₂_congr ?_
  intro msg hmsg
  cases hrole : msg.role with
  | system => simp [itemsOf, Message.entries, hrole]
  | developer => simp [itemsOf, Message.entries, hrole]
  | user => simp [itemsOf, Message.entries, hrole, partsOf_eq_nil]
  | assistant =>
    have hspoken := hvalid.spoken msg hmsg hrole
    cases htext : msg.content.text? with
    | some t => simp [itemsOf, Message.entries, hrole, partsOf_eq_nil, htext]
    | none =>
      have hcalls : msg.toolCalls ≠ [] := by simpa [htext] using hspoken
      simp [itemsOf, Message.entries, hrole, htext, hcalls]
  | tool => simp [itemsOf, Message.entries, hrole]

/-- The entries that come back; a request without any gets a placeholder. -/
def carried (body : ChatRequest) : List Entry :=
  if entries stringify body.messages = [] then [.said .user "...".toList]
  else (entries stringify body.messages).filterMap (carry (declareTools body.tools).1)

theorem Turn.close_of_settled {turn : Turn} (h : turn.Settled) : turn.close = turn.all := by
  unfold Turn.close
  dsimp only
  rw [if_pos]
  · rfl
  · exact h

theorem start_spec (instructions : Text) :
    let messages : List Message := if instructions = [] then [] else [{ role := .system, content := .string instructions }]
    entries stringify messages = [] ∧ instructionText messages = instructions := by
  dsimp only
  split_ifs with h
  · exact ⟨rfl, h.symm⟩
  · refine ⟨rfl, ?_⟩
    simp [instructionText, Message.instructs, Content.text?]

theorem normalized_spec (body : ChatRequest) (hvalid : body.Valid) {turn : Turn}
    (hsettled : turn.Settled) (hflushed : turn.Flushed) :
    let items := normalizeResponsesInput (body.messages.flatMap (itemsOf stringify))
    let names := (declareTools body.tools).1
    (∀ item ∈ items, item.Flat) ∧ items.flatMap (Item.entries names) = carried stringify body ∧
      (items.foldl (Turn.step names) turn).Settled := by
  dsimp only
  unfold normalizeResponsesInput carried
  by_cases hnil : entries stringify body.messages = []
  · rw [if_pos ((input_eq_nil_iff stringify hvalid).2 hnil), if_pos hnil]
    refine ⟨?_, rfl, (Turn.settled_message (declareTools body.tools).1 turn .user _).1⟩
    intro item hitem
    obtain rfl := List.mem_singleton.1 hitem
    exact ⟨Or.inl rfl, by simp⟩
  · rw [if_neg fun h => hnil ((input_eq_nil_iff stringify hvalid).1 h), if_neg hnil]
    refine ⟨?_, ?_, Turn.settled_messages stringify _ hsettled hvalid.spoken hvalid.answered (Or.inl hflushed)⟩
    · intro item hitem
      obtain ⟨msg, -, hitem⟩ := List.mem_flatMap.1 hitem
      exact flat_itemsOf stringify msg item hitem
    · rw [List.flatMap_assoc, entries, List.filterMap_flatMap]
      congr 1
      funext msg
      exact entries_itemsOf stringify _ msg

theorem roundTrip_spec (body : ChatRequest) (hvalid : body.Valid) :
    entries stringify (roundTrip stringify body).messages = carried stringify body ∧
      instructionText (roundTrip stringify body).messages = instructionsOf body.messages := by
  obtain ⟨hstart, hinstructions⟩ := start_spec stringify (instructionsOf body.messages)
  generalize hmessages : (if instructionsOf body.messages = [] then []
    else [({ role := .system, content := .string (instructionsOf body.messages) } : Message)]) = messages at hstart hinstructions
  have hnew : Turn.Settled { messages := messages } := ⟨rfl, rfl⟩
  have hsound : Turn.Sound { messages := messages } := by simp [Turn.Sound]
  obtain ⟨hflat, hentries, hsettled⟩ := normalized_spec stringify body hvalid hnew rfl
  obtain ⟨-, hall, hall'⟩ := foldl_step_spec stringify (declareTools body.tools).1
    (normalizeResponsesInput (body.messages.flatMap (itemsOf stringify))) hsound hflat
  have hclose := Turn.close_of_settled hsettled
  have htrip : (roundTrip stringify body).messages = ((normalizeResponsesInput (body.messages.flatMap (itemsOf stringify))).foldl
      (Turn.step (declareTools body.tools).1) { messages := messages }).close := by
    rw [← hmessages]
    rfl
  have hturn : Turn.all { messages := messages } = messages := by simp [Turn.all]
  rw [htrip, hclose, hall, hall', hentries, hturn, hstart, hinstructions]
  exact ⟨rfl, rfl⟩

/-! ### Names without dots -/

def Undotted (map : Dict Text ToolMetadata) : Prop := ∀ row ∈ map.rows, row.2 = { name := row.1 }

theorem undotted_eq {name : Text} (h : '.' ∉ name) : undotted name = name := by
  induction name with
  | nil => rfl
  | cons c name ih =>
    rw [List.mem_cons, not_or] at h
    rw [undotted, List.flatMap_cons, if_neg (Ne.symm h.1)]
    exact congrArg (c :: ·) (ih h.2)

theorem Undotted.reserve {map : Dict Text ToolMetadata} (h : Undotted map) (name : Text) :
    Undotted (reserveResponsesToolName map name { name := name }).1 := by
  unfold reserveResponsesToolName
  rw [reserveFrom]
  cases hget : map.get? (candidate name 0) with
  | none =>
    intro row hrow
    rcases Table.mem_put.1 hrow with rfl | ⟨hrow, -⟩
    · rfl
    · exact h row hrow
  | some existing =>
    have hkey : existing.1 = name := Table.get?_key hget
    have hsame : existing.2 = { name := name } := hkey ▸ h existing (Table.get?_mem hget)
    dsimp only
    rw [if_pos hsame]
    exact h

theorem undotted_declareTools {tools : List Text}
    (h : ∀ tool ∈ tools, '.' ∉ tool) : Undotted (declareTools tools).1 := by
  have hfold : ∀ declared : Dict Text ToolMetadata × List Text, Undotted declared.1 → Undotted (tools.foldl declareTool declared).1 := by
    induction tools with
    | nil => exact fun _ hdeclared => hdeclared
    | cons tool tools ih =>
      intro declared hdeclared
      refine ih (fun t ht => h t (List.mem_cons_of_mem tool ht)) _ ?_
      unfold declareTool
      dsimp only
      split_ifs
      · exact hdeclared
      · rw [undotted_eq (h tool (List.mem_cons_self ..))]
        exact hdeclared.reserve tool
  exact hfold (.empty, []) (by simp [Undotted, Table.empty])

theorem declaredResponsesToolName_eq {tools : List Text} (h : ∀ tool ∈ tools, '.' ∉ tool)
    (name : Text) :
    declaredResponsesToolName (declareTools tools).1 name = name := by
  have hundotted := undotted_declareTools h
  generalize (declareTools tools).1 = map at hundotted
  unfold declaredResponsesToolName
  split_ifs
  · rfl
  · have hnone : (map.rows.filter fun row => row.2.space.any (· ≠ []) && row.2.name = name) = [] := by
      rw [List.filter_eq_nil_iff]
      intro row hrow
      rw [hundotted row hrow]
      simp
    split
    · rename_i row hrow
      have hname := List.find?_some hrow
      rw [hundotted row (List.mem_of_find?_eq_some hrow)] at hname
      simpa using hname
    · rw [hnone]

/-! ### The conversation -/

theorem clampCallId_eq_iff (a b : CallId) :
    clampCallId a = clampCallId b ↔ a.take maxCallIdLen = b.take maxCallIdLen := by
  have htake : ∀ id : CallId, clampCallId id = id.take maxCallIdLen := by
    intro id
    unfold clampCallId
    split_ifs with h
    · rfl
    · rw [List.take_of_length_le (by omega)]
  rw [htake, htake]

/-- **There and back.** The texts, calls and results of a valid request come back in their order, as
`carry` says; the instructions are the text of its first instruction message, if that is a string;
and the ids that become one are those that agree up to the limit. -/
theorem roundTrip_conversation (body : ChatRequest) (hvalid : body.Valid) :
    entries stringify (roundTrip stringify body).messages = carried stringify body ∧
      (∀ msg text, body.messages.find? Message.instructs = some msg → msg.content = .string text →
        instructionText (roundTrip stringify body).messages = text) ∧
      (body.messages.find? Message.instructs = none → instructionText (roundTrip stringify body).messages = []) ∧
      (∀ a b, clampCallId a = clampCallId b ↔ a.take maxCallIdLen = b.take maxCallIdLen) ∧
      ((∀ tool ∈ body.tools, '.' ∉ tool) → ∀ name, declaredResponsesToolName (declareTools body.tools).1 name = name) := by
  obtain ⟨hentries, hinstructions⟩ := roundTrip_spec stringify body hvalid
  refine ⟨hentries, ?_, ?_, clampCallId_eq_iff, declaredResponsesToolName_eq⟩
  · intro msg text hmsg hcontent
    rw [hinstructions, instructionsOf, hmsg]
    dsimp only
    rw [hcontent]
  · intro hnone
    rw [hinstructions, instructionsOf, hnone]

def parallelCalls : ChatRequest where
  messages :=
    [{ role := .user, content := .string "go".toList },
      { role := .assistant, toolCalls := [⟨[1], "f".toList, "x".toList⟩, ⟨[2], "g".toList, "y".toList⟩] },
      { role := .tool, toolCallId := [1], content := .string "r".toList }, { role := .tool, toolCallId := [2], content := .string "s".toList }]

theorem roundTrip_parallelCalls :
    entries (fun _ => []) (roundTrip (fun _ => []) parallelCalls).messages = carried (fun _ => []) parallelCalls :=
  (roundTrip_conversation (fun _ => []) parallelCalls ⟨by decide, by decide⟩).1

def twoInstructions : ChatRequest where
  messages :=
    [{ role := .system, content := .string "a".toList }, { role := .developer, content := .string "b".toList },
      { role := .user, content := .string "c".toList }]

/-- The second one is lost. -/
theorem twoInstructions_lost :
    ¬ ∀ body : ChatRequest, body.Valid → instructionText (roundTrip (fun _ => []) body).messages = instructionText body.messages := by
  intro h
  have hsame := h twoInstructions ⟨by decide, by decide⟩
  revert hsame
  decide +kernel

end TokenProxy.ResponsesRequest
