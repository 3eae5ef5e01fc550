import Mathlib.Data.List.Forall2
import TokenProxy.Lib.Emitter
import TokenProxy.Translator.Chunk

/-!
# From a Responses stream to OpenAI chunks

`openaiResponsesToOpenAIResponse`: the events of the Responses API become the chunks of an OpenAI
chat stream. The events name the call that they are about by its output index; the translator counts
the calls that are done, and files everything under that count.

So the arguments of the calls are kept apart exactly when no call is added while another one runs.
-/

namespace TokenProxy.ChatStream

open Lib
open Translator (Text)

/-! ### Events -/

inductive ItemType where
  | functionCall
  | customToolCall
  | other
  deriving DecidableEq

structure Item where
  type : ItemType
  callId : Text := []
  name : Text := []
  deriving DecidableEq

def Item.isCall (item : Item) : Bool := item.type = .functionCall || item.type = .customToolCall

/-- `response.usage`; a count that is absent is 0, as the translator reads it. -/
structure ResponseUsage where
  inputTokens : ℚ := 0
  promptTokens : ℚ := 0
  outputTokens : ℚ := 0
  completionTokens : ℚ := 0
  detailsCachedTokens : ℚ := 0
  cacheReadInputTokens : ℚ := 0
  deriving DecidableEq

structure ResponseError where
  message : Text
  stringified : Text
  deriving DecidableEq

/-- An event; `k` is its `output_index`. The deltas of a call are those of function arguments or of
a custom tool's input. -/
inductive Event where
  | outputTextDelta (delta : Text)
  | outputTextDone
  | outputItemAdded (k : ℕ) (item : Item)
  | argumentsDelta (k : ℕ) (delta : Text)
  | outputItemDone (k : ℕ) (item : Item) (arguments : Text)
  | completed (usage : Option ResponseUsage)
  | failed (error : Option ResponseError)
  | reasoningSummaryTextDelta (delta : Text)
  | other
  deriving DecidableEq

structure Arrival where
  now : ℕ
  event : Event
  deriving DecidableEq

/-! ### Chunks -/

inductive FinishReason where
  | stop
  | toolCalls
  deriving DecidableEq

structure Usage where
  promptTokens : ℚ
  completionTokens : ℚ
  totalTokens : ℚ
  cachedTokens : Option ℚ
  deriving DecidableEq

/-- An entry of `tool_calls`; the first one of a call has its id, its name and its type. -/
structure ToolCall where
  index : ℕ
  id : Option Text := none
  name : Option Text := none
  arguments : Text
  deriving DecidableEq

structure Delta where
  assistant : Bool := false
  content : Option Text := none
  reasoningContent : Option Text := none
  toolCalls : List ToolCall := []
  deriving DecidableEq

structure Chunk where
  id : Text
  created : ℕ
  model : Text
  delta : Delta
  finishReason : Option FinishReason := none
  usage : Option Usage := none
  deriving DecidableEq

/-! ### The translator -/

structure State where
  started : Bool := false
  chatId : Text := []
  created : ℕ := 0
  model : Text := []
  toolCallIndex : ℕ := 0
  currentToolCallId : Text := []
  assistantRoleEmitted : Bool := false
  finishReasonSent : Bool := false
  finishReason : Option FinishReason := none
  usage : Option Usage := none
  error : Option ResponseError := none
  deriving DecidableEq

abbrev ChatEmitter := Emitter State Chunk

def orElse (a b : Text) : Text := if a = [] then b else a

def modelFallback : Text := "unknown".toList

def fallbackToolCallId (now : ℕ) : Text := "call_".toList ++ (toString now).toList

def buildChunk (state : State) (delta : Delta) (finishReason : Option FinishReason)
    (usage : Option Usage) : Chunk :=
  { id := state.chatId
    created := state.created
    model := orElse state.model modelFallback
    delta := delta
    finishReason := finishReason
    usage := usage }

def computeFinishReason (state : State) : FinishReason :=
  if 0 < state.toolCallIndex ∨ state.currentToolCallId ≠ [] then .toolCalls else .stop

def start (now : ℕ) : ChatEmitter := .modify fun state =>
  if state.started then state
  else
    { state with
      started := true
      chatId := "chatcmpl-".toList ++ (toString now).toList
      created := now / 1000
      toolCallIndex := 0
      currentToolCallId := [] }

/-- A chunk with the delta; the first one has the assistant's role (`withAssistantRole`). -/
def emitDelta (delta : Delta) : ChatEmitter := fun state =>
  ({ state with assistantRoleEmitted := true }, [buildChunk state { delta with assistant := !state.assistantRoleEmitted } none none])

def emitFinish : ChatEmitter := fun state =>
  ({ state with finishReasonSent := true, finishReason := some (computeFinishReason state) },
    [buildChunk state {} (some (computeFinishReason state)) state.usage])

def firstNonzero (a b : ℚ) : ℚ := if a = 0 then b else a

/-- `input_tokens` has the cached tokens in it already. -/
def ResponseUsage.build (usage : ResponseUsage) : Usage :=
  let inputTokens := firstNonzero usage.inputTokens usage.promptTokens
  let outputTokens := firstNonzero usage.outputTokens usage.completionTokens
  let cacheReadTokens := firstNonzero usage.detailsCachedTokens usage.cacheReadInputTokens
  { promptTokens := inputTokens
    completionTokens := outputTokens
    totalTokens := inputTokens + outputTokens
    cachedTokens := if 0 < cacheReadTokens then some cacheReadTokens else none }

def onEvent (now : ℕ) : Event → ChatEmitter
  | .outputTextDelta delta => if delta = [] then .skip else emitDelta { content := some delta }
  | .outputTextDone => .skip
  | .outputItemAdded _ item =>
    if item.isCall then
      (Emitter.modify fun state => { state with currentToolCallId := orElse item.callId (fallbackToolCallId now) }).seq fun state =>
        emitDelta
          { toolCalls :=
              [{ index := state.toolCallIndex, id := some state.currentToolCallId, name := some item.name, arguments := [] }] } state
    else .skip
  | .argumentsDelta _ delta =>
    if delta = [] then .skip else fun state => emitDelta { toolCalls := [{ index := state.toolCallIndex, arguments := delta }] } state
  | .outputItemDone _ item _ =>
    if item.isCall then .modify fun state => { state with toolCallIndex := state.toolCallIndex + 1 } else .skip
  | .completed usage =>
    (Emitter.modify fun state => { state with usage := (usage.map ResponseUsage.build).or state.usage }).seq fun state =>
      if state.finishReasonSent then (state, []) else emitFinish state
  | .failed error => fun state =>
    match error with
    | none => (state, [])
    | some error =>
      if state.finishReasonSent then (state, [])
      else
        ({ state with error := some error, finishReasonSent := true },
          [buildChunk state { content := some ("[Error] ".toList ++ orElse error.message error.stringified) } (some .stop) none])
  | .reasoningSummaryTextDelta delta => if delta = [] then .skip else emitDelta { reasoningContent := some delta }
  | .other => .skip

/-- `openaiResponsesToOpenAIResponse` on an event, or on the null of the flush. -/
def openaiResponsesToOpenAIResponse : Option Arrival → ChatEmitter
  | none => fun state => if state.finishReasonSent ∨ ¬ state.started then (state, []) else emitFinish state
  | some arrival => (start arrival.now).seq (onEvent arrival.now arrival.event)

def chatChunks (arrivals : List Arrival) : ChatEmitter := .each (fun a => openaiResponsesToOpenAIResponse (some a)) arrivals

def chatStream (arrivals : List Arrival) : ChatEmitter := (chatChunks arrivals).seq (openaiResponsesToOpenAIResponse none)

/-! ### The protocol -/

inductive Phase where
  | running (arguments : Text)
  | done
  deriving DecidableEq

/-- The calls of a response by their output index, and whether the response has ended. -/
structure Response where
  calls : ℕ → Option Phase := fun _ => none
  ended : Bool := false

/-- The event is allowed, and what it leaves. Calls are added once, filled while they run
and done with the arguments that their deltas came to, in any order; neither calls nor
texts come behind a terminal. -/
def Response.next (r : Response) : Event → Option Response
  | .outputItemAdded k item =>
    if r.ended then none
    else if item.isCall then
      if (r.calls k).isSome then none else some { r with calls := Function.update r.calls k (some (.running [])) }
    else some r
  | .argumentsDelta k delta =>
    if r.ended then none
    else
      match r.calls k with
      | some (.running arguments) => some { r with calls := Function.update r.calls k (some (.running (arguments ++ delta))) }
      | _ => none
  | .outputItemDone k item arguments =>
    if r.ended then none
    else if item.isCall then
      if r.calls k = some (.running arguments) then some { r with calls := Function.update r.calls k (some .done) } else none
    else some r
  | .completed _ | .failed _ => some { r with ended := true }
  | .other => some r
  | _ => if r.ended then none else some r

def responseAfter (arrivals : List Arrival) : Option Response := arrivals.foldlM (fun r a => r.next a.event) {}

/-! ### What is asked of the chunks -/

/-- A call that the stream adds: its output index, its id and its name. -/
structure AddedCall where
  k : ℕ
  id : Text
  name : Text
  deriving DecidableEq

def Arrival.added (a : Arrival) : Option AddedCall :=
  match a.event with
  | .outputItemAdded k item => if item.isCall then some ⟨k, orElse item.callId (fallbackToolCallId a.now), item.name⟩ else none
  | _ => none

def addedCalls (arrivals : List Arrival) : List AddedCall := arrivals.filterMap Arrival.added

def Arrival.fragment (a : Arrival) : Option (ℕ × Text) :=
  match a.event with
  | .argumentsDelta k delta => some (k, delta)
  | _ => none

def argumentsOf (k : ℕ) (arrivals : List Arrival) : Text :=
  arrivals.flatMap fun a => (a.fragment.map fun f => if f.1 = k then f.2 else []).getD []

def toolCalls (chunks : List Chunk) : List ToolCall := chunks.flatMap fun chunk => chunk.delta.toolCalls

/-- The tool calls that the chunks emit, each at its first entry. -/
def emittedCalls (chunks : List Chunk) : List ToolCall := (toolCalls chunks).filter fun tc => tc.id.isSome

def fragmentsAt (index : ℕ) (chunks : List Chunk) : Text :=
  (toolCalls chunks).flatMap fun tc => if tc.index = index then tc.arguments else []

def finishReasons (chunks : List Chunk) : List FinishReason := chunks.filterMap Chunk.finishReason

/-- One tool call an item, each with an index of its own and the item's arguments under it, and the
finish reason of a stream that has any event. -/
structure KeptApart (arrivals : List Arrival) (chunks : List Chunk) : Prop where
  emitted : (emittedCalls chunks).map (fun tc => (tc.id, tc.name)) = (addedCalls arrivals).map fun call => (some call.id, some call.name)
  ownIndex : ((emittedCalls chunks).map ToolCall.index).Nodup
  arguments : List.Forall₂ (fun tc call => fragmentsAt tc.index chunks = argumentsOf call.k arrivals) (emittedCalls chunks)
    (addedCalls arrivals)
  finish : finishReasons chunks = if arrivals = [] then [] else [if emittedCalls chunks = [] then .stop else .toolCalls]

def OneAtATime (arrivals : List Arrival) : Prop :=
  ∀ (before : List Arrival) (a : Arrival) (after : List Arrival) r, arrivals = before ++ a :: after → a.added.isSome → responseAfter before = some r →
    ∀ k arguments, r.calls k ≠ some (.running arguments)

/-- The terminals that end a stream with a final chunk: with `true` those of an error. -/
def Arrival.ends (a : Arrival) : Option Bool :=
  match a.event with
  | .completed _ => some false
  | .failed (some _) => some true
  | _ => none

def Fails (arrivals : List Arrival) : Prop := (arrivals.filterMap Arrival.ends).head? = some true

/-! ### What one event does -/

def Arrival.closes (a : Arrival) : Option ℕ :=
  match a.event with
  | .outputItemDone k item _ => if item.isCall then some k else none
  | _ => none

def State.Fresh (s : State) : Prop := s.started = false → s.toolCallIndex = 0 ∧ s.currentToolCallId = []

structure Does (a : Arrival) (s s' : State) (chunks : List Chunk) : Prop where
  started : s'.started = true
  index : s'.toolCallIndex = s.toolCallIndex + (if a.closes.isSome then 1 else 0)
  current : s'.currentToolCallId = ((a.added.map AddedCall.id).getD s.currentToolCallId)
  emitted : emittedCalls chunks = (a.added.map fun call => ⟨s.toolCallIndex, some call.id, some call.name, []⟩).toList
  fragments : ∀ n, fragmentsAt n chunks = (a.fragment.map fun f => if s.toolCallIndex = n then f.2 else []).getD []

structure Finishes (a : Arrival) (s s' : State) (chunks : List Chunk) : Prop where
  sent : s'.finishReasonSent = (s.finishReasonSent || a.ends.isSome)
  reasons : finishReasons chunks =
    if s.finishReasonSent then []
    else (a.ends.map fun fails => if fails then .stop else computeFinishReason s).toList

theorem fallbackToolCallId_ne_nil (now : ℕ) : fallbackToolCallId now ≠ [] :=
  List.append_ne_nil_of_left_ne_nil (by decide) _

theorem start_apply (now : ℕ) {s : State} (h : s.Fresh) :
    ∃ s', start now s = (s', []) ∧ s'.started = true ∧ s'.toolCallIndex = s.toolCallIndex ∧
      s'.currentToolCallId = s.currentToolCallId ∧ s'.finishReasonSent = s.finishReasonSent := by
  refine ⟨_, rfl, ?_⟩
  dsimp only
  split_ifs with hstarted
  · exact ⟨hstarted, rfl, rfl, rfl⟩
  · obtain ⟨hindex, hcurrent⟩ := h (by simpa using hstarted)
    exact ⟨rfl, hindex.symm, hcurrent.symm, rfl⟩

theorem Does.quiet {a : Arrival} {s s' : State} {chunks : List Chunk} (hadded : a.added = none)
    (hcloses : a.closes = none)
    (hfragment : a.fragment = none) (hstarted : s'.started = true) (hindex : s'.toolCallIndex = s.toolCallIndex)
    (hcurrent : s'.currentToolCallId = s.currentToolCallId) (hcalls : toolCalls chunks = []) : Does a s s' chunks where
  started := hstarted
  index := by rw [hindex, hcloses]; rfl
  current := by rw [hcurrent, hadded]; rfl
  emitted := by rw [emittedCalls, hcalls, hadded]; rfl
  fragments := by
    intro n
    rw [fragmentsAt, hcalls, hfragment]
    rfl

theorem toolCalls_emitDelta (delta : Delta) (s : State) :
    toolCalls (emitDelta delta s).2 = delta.toolCalls := by
  simp [toolCalls, emitDelta, buildChunk]

theorem onEvent_does (a : Arrival) {s : State} (h : s.started = true) :
    Does a s (onEvent a.now a.event s).1 (onEvent a.now a.event s).2 := by
  obtain ⟨now, event⟩ := a
  cases event with
  | outputTextDelta delta =>
    simp only [onEvent]
    split_ifs
    · exact .quiet rfl rfl rfl h rfl rfl rfl
    · exact .quiet rfl rfl rfl h rfl rfl (toolCalls_emitDelta _ s)
  | outputTextDone => exact .quiet rfl rfl rfl h rfl rfl rfl
  | outputItemAdded k item =>
    by_cases hcall : item.isCall
    · constructor <;> simp [onEvent, hcall, h, emitDelta, buildChunk, Emitter.seq_apply, Emitter.modify, Arrival.closes, Arrival.added,
        Arrival.fragment, emittedCalls, toolCalls, fragmentsAt]
    · have hadded : Arrival.added ⟨now, .outputItemAdded k item⟩ = none := by simp [Arrival.added, hcall]
      simp only [onEvent, if_neg hcall]
      exact .quiet hadded rfl rfl h rfl rfl rfl
  | argumentsDelta k delta =>
    by_cases hempty : delta = []
    · constructor <;> simp [onEvent, hempty, h, Arrival.closes, Arrival.added, Arrival.fragment, emittedCalls, toolCalls, fragmentsAt]
    · constructor <;> simp [onEvent, hempty, h, emitDelta, buildChunk, Arrival.closes, Arrival.added, Arrival.fragment, emittedCalls,
        toolCalls, fragmentsAt]
  | outputItemDone k item arguments =>
    by_cases hcall : item.isCall
    · constructor <;> simp [onEvent, hcall, h, Emitter.modify, Arrival.closes, Arrival.added, Arrival.fragment, emittedCalls, toolCalls,
        fragmentsAt]
    · have hcloses : Arrival.closes ⟨now, .outputItemDone k item arguments⟩ = none := by simp [Arrival.closes, hcall]
      simp only [onEvent, if_neg hcall]
      exact .quiet rfl hcloses rfl h rfl rfl rfl
  | completed usage =>
    cases hsent : s.finishReasonSent
    · simp only [onEvent, Emitter.seq_apply, Emitter.modify, hsent, Bool.false_eq_true, if_false]
      exact .quiet rfl rfl rfl h rfl rfl rfl
    · simp only [onEvent, Emitter.seq_apply, Emitter.modify, hsent, if_true]
      exact .quiet rfl rfl rfl h rfl rfl rfl
  | failed error =>
    cases error with
    | none => exact .quiet rfl rfl rfl h rfl rfl rfl
    | some error =>
      simp only [onEvent]
      split_ifs
      · exact .quiet rfl rfl rfl h rfl rfl rfl
      · exact .quiet rfl rfl rfl h rfl rfl rfl
  | reasoningSummaryTextDelta delta =>
    simp only [onEvent]
    split_ifs
    · exact .quiet rfl rfl rfl h rfl rfl rfl
    · exact .quiet rfl rfl rfl h rfl rfl (toolCalls_emitDelta _ s)
  | other => exact .quiet rfl rfl rfl h rfl rfl rfl

theorem Finishes.quiet {a : Arrival} {s s' : State} {chunks : List Chunk} (hends : a.ends = none)
    (hsent : s'.finishReasonSent = s.finishReasonSent) (hreasons : finishReasons chunks = []) : Finishes a s s' chunks where
  sent := by rw [hsent, hends]; simp
  reasons := by rw [hreasons, hends]; simp

theorem onEvent_finishes (a : Arrival) (s : State) :
    Finishes a s (onEvent a.now a.event s).1 (onEvent a.now a.event s).2 := by
  obtain ⟨now, event⟩ := a
  cases event with
  | completed usage =>
    cases hsent : s.finishReasonSent
    · constructor <;> simp [onEvent, hsent, Emitter.seq_apply, Emitter.modify, emitFinish, buildChunk, finishReasons, Arrival.ends,
        computeFinishReason]
    · constructor <;> simp [onEvent, hsent, Emitter.seq_apply, Emitter.modify, finishReasons]
  | failed error =>
    cases error with
    | none => exact .quiet rfl rfl rfl
    | some error =>
      cases hsent : s.finishReasonSent
      · constructor <;> simp [onEvent, hsent, buildChunk, finishReasons, Arrival.ends]
      · constructor <;> simp [onEvent, hsent, finishReasons]
  | outputTextDone => exact .quiet rfl rfl rfl
  | other => exact .quiet rfl rfl rfl
  | _ =>
    simp only [onEvent]
    split_ifs
    · exact .quiet rfl rfl rfl
    · exact .quiet rfl rfl rfl

theorem step_does (a : Arrival) {s : State} (h : s.Fresh) :
    Does a s (openaiResponsesToOpenAIResponse (some a) s).1 (openaiResponsesToOpenAIResponse (some a) s).2 ∧
      Finishes a s (openaiResponsesToOpenAIResponse (some a) s).1 (openaiResponsesToOpenAIResponse (some a) s).2 := by
  obtain ⟨s', hstart, hstarted, hindex, hcurrent, hsent⟩ := start_apply a.now h
  have hdoes := onEvent_does a hstarted
  have hfinishes := onEvent_finishes a s'
  have hcompute : computeFinishReason s' = computeFinishReason s := by
    rw [computeFinishReason, computeFinishReason, hindex, hcurrent]
  unfold openaiResponsesToOpenAIResponse
  dsimp only
  rw [Emitter.seq_apply, hstart]
  refine ⟨⟨hdoes.started, ?_, ?_, ?_, ?_⟩, ?_, ?_⟩
  · rw [← hindex]
    exact hdoes.index
  · rw [← hcurrent]
    exact hdoes.current
  · rw [← hindex]
    exact hdoes.emitted
  · rw [← hindex]
    exact hdoes.fragments
  · rw [← hsent]
    exact hfinishes.sent
  · rw [← hsent, ← hcompute]
    exact hfinishes.reasons

/-! ### What the protocol allows -/

inductive Allowed (a : Arrival) (r r' : Response) : Prop where
  | added (call : AddedCall) : a.added = some call → a.closes = none → a.fragment = none → a.ends = none → r.ended = false →
    r.calls call.k = none → r' = { r with calls := Function.update r.calls call.k (some (.running [])) } → Allowed a r r'
  | filled (k : ℕ) (delta arguments : Text) : a.added = none → a.closes = none → a.fragment = some (k, delta) → a.ends = none →
    r.calls k = some (.running arguments) →
    r' = { r with calls := Function.update r.calls k (some (.running (arguments ++ delta))) } → Allowed a r r'
  | closed (k : ℕ) (arguments : Text) : a.added = none → a.closes = some k → a.fragment = none → a.ends = none →
    r.calls k = some (.running arguments) → r' = { r with calls := Function.update r.calls k (some .done) } → Allowed a r r'
  | quiet : a.added = none → a.closes = none → a.fragment = none → r'.calls = r.calls → (r.ended → r'.ended) →
    (a.ends.isSome → r'.ended) → Allowed a r r'

theorem allowed_of_next {a : Arrival} {r r' : Response}
    (h : r.next a.event = some r') : Allowed a r r' := by
  obtain ⟨now, event⟩ := a
  cases event with
  | outputItemAdded k item =>
    simp only [Response.next] at h
    split_ifs at h with hended hcall hknown
    · refine .added ⟨k, orElse item.callId (fallbackToolCallId now), item.name⟩ (by simp [Arrival.added, hcall]) rfl rfl rfl
        (by simpa using hended) (by simpa using hknown) (Option.some.inj h).symm
    · obtain rfl := Option.some.inj h
      exact .quiet (by simp [Arrival.added, hcall]) rfl rfl rfl id (by simp [Arrival.ends])
  | argumentsDelta k delta =>
    simp only [Response.next] at h
    split_ifs at h
    split at h
    · rename_i arguments hrunning
      exact .filled k delta arguments rfl rfl rfl rfl hrunning (Option.some.inj h).symm
    · simp at h
  | outputItemDone k item arguments =>
    simp only [Response.next] at h
    split_ifs at h with hended hcall hrunning
    · exact .closed k arguments rfl (by simp [Arrival.closes, hcall]) rfl rfl hrunning (Option.some.inj h).symm
    · obtain rfl := Option.some.inj h
      exact .quiet rfl (by simp [Arrival.closes, hcall]) rfl rfl id (by simp [Arrival.ends])
  | completed usage =>
    obtain rfl := Option.some.inj h
    exact .quiet rfl rfl rfl rfl (fun _ => rfl) fun _ => rfl
  | failed error =>
    obtain rfl := Option.some.inj h
    exact .quiet rfl rfl rfl rfl (fun _ => rfl) fun _ => rfl
  | other =>
    obtain rfl := Option.some.inj h
    exact .quiet rfl rfl rfl rfl id (by simp [Arrival.ends])
  | _ =>
    simp only [Response.next] at h
    split_ifs at h
    obtain rfl := Option.some.inj h
    exact .quiet rfl rfl rfl rfl id (by simp [Arrival.ends])

theorem responseAfter_snoc (arrivals : List Arrival) (a : Arrival) :
    responseAfter (arrivals ++ [a]) = (responseAfter arrivals).bind fun r => r.next a.event := by
  simp [responseAfter, List.foldlM_append]

theorem addedCalls_snoc (arrivals : List Arrival)
    (a : Arrival) : addedCalls (arrivals ++ [a]) = addedCalls arrivals ++ a.added.toList := by
  simp only [addedCalls, List.filterMap_append, List.filterMap_cons, List.filterMap_nil]
  cases a.added <;> rfl

theorem argumentsOf_snoc (k : ℕ) (arrivals : List Arrival) (a : Arrival) :
    argumentsOf k (arrivals ++ [a]) = argumentsOf k arrivals ++ (a.fragment.map fun f => if f.1 = k then f.2 else []).getD [] := by
  simp [argumentsOf]

structure Recorded (arrivals : List Arrival) (r : Response) : Prop where
  known : ∀ k, r.calls k ≠ none ↔ k ∈ (addedCalls arrivals).map AddedCall.k
  nodup : ((addedCalls arrivals).map AddedCall.k).Nodup
  unborn : ∀ k, r.calls k = none → argumentsOf k arrivals = []

theorem Recorded.of_update {arrivals : List Arrival} {r : Response} {a : Arrival} {k : ℕ}
    {phase phase' : Phase}
    (h : Recorded arrivals r) (hadded : a.added = none) (hk : r.calls k = some phase) {calls : ℕ → Option Phase}
    (hcalls : calls = Function.update r.calls k (some phase'))
    (hfragment : ∀ j, j ≠ k → (a.fragment.map fun f => if f.1 = j then f.2 else []).getD [] = []) :
    Recorded (arrivals ++ [a]) { r with calls := calls } := by
  subst hcalls
  refine ⟨?_, ?_, ?_⟩
  · intro j
    rw [addedCalls_snoc, hadded, Option.toList_none, List.append_nil, ← h.known j]
    by_cases hj : j = k
    · simp [hj, hk]
    · dsimp only
      rw [Function.update_of_ne hj]
  · rw [addedCalls_snoc, hadded, Option.toList_none, List.append_nil]
    exact h.nodup
  · intro j hj
    have hne : j ≠ k := by
      rintro rfl
      simp at hj
    dsimp only at hj
    rw [Function.update_of_ne hne] at hj
    rw [argumentsOf_snoc, hfragment j hne, h.unborn j hj]
    rfl

theorem recorded {arrivals : List Arrival} {r : Response}
    (h : responseAfter arrivals = some r) : Recorded arrivals r := by
  induction arrivals using List.reverseRecOn generalizing r with
  | nil =>
    obtain rfl := Option.some.inj h
    exact ⟨by simp [addedCalls], by simp [addedCalls], fun _ _ => rfl⟩
  | append_singleton arrivals a ih =>
    rw [responseAfter_snoc] at h
    obtain ⟨r₀, hbefore, hnext⟩ := Option.bind_eq_some_iff.1 h
    have hrec := ih hbefore
    cases allowed_of_next hnext with
    | added call hadded _ hfragment _ _ hfree hr =>
      subst hr
      have hnew : call.k ∉ (addedCalls arrivals).map AddedCall.k := fun hmem => (hrec.known call.k).2 hmem hfree
      refine ⟨?_, ?_, ?_⟩
      · intro k
        by_cases hk : k = call.k
        · simp [addedCalls_snoc, hadded, hk]
        · simpa [addedCalls_snoc, hadded, Function.update_of_ne hk, hk] using hrec.known k
      · rw [addedCalls_snoc, hadded, List.map_append, List.nodup_append]
        refine ⟨hrec.nodup, by simp, ?_⟩
        rintro k hk k' hk' rfl
        obtain rfl : k = call.k := by simpa using hk'
        exact hnew hk
      · intro k hk
        have hne : k ≠ call.k := by
          rintro rfl
          simp at hk
        dsimp only at hk
        rw [Function.update_of_ne hne] at hk
        rw [argumentsOf_snoc, hfragment, hrec.unborn k hk]
        rfl
    | filled k delta arguments hadded _ hfragment _ hrunning hr =>
      subst hr
      refine hrec.of_update hadded hrunning rfl ?_
      intro j hj
      simp [hfragment, Ne.symm hj]
    | closed k arguments hadded _ hfragment _ hrunning hr =>
      subst hr
      refine hrec.of_update hadded hrunning rfl ?_
      intro j _
      rw [hfragment]
      rfl
    | quiet hadded _ hfragment hcalls =>
      refine ⟨?_, ?_, ?_⟩
      · intro k
        rw [hcalls, addedCalls_snoc, hadded, Option.toList_none, List.append_nil]
        exact hrec.known k
      · rw [addedCalls_snoc, hadded, Option.toList_none, List.append_nil]
        exact hrec.nodup
      · intro k hk
        rw [hcalls] at hk
        rw [argumentsOf_snoc, hfragment, hrec.unborn k hk]
        rfl

/-! ### A run -/

theorem chatChunks_snoc (arrivals : List Arrival) (a : Arrival) (s : State) :
    chatChunks (arrivals ++ [a]) s =
      ((openaiResponsesToOpenAIResponse (some a) (chatChunks arrivals s).1).1,
        (chatChunks arrivals s).2 ++ (openaiResponsesToOpenAIResponse (some a) (chatChunks arrivals s).1).2) := by
  unfold chatChunks
  rw [Emitter.each_append, Emitter.seq_apply, Emitter.each_cons, Emitter.seq_apply, Emitter.each_nil, Emitter.skip_apply, List.append_nil]

theorem emittedCalls_append (cs cs' : List Chunk) :
    emittedCalls (cs ++ cs') = emittedCalls cs ++ emittedCalls cs' := by
  simp [emittedCalls, toolCalls]

theorem fragmentsAt_append (n : ℕ) (cs cs' : List Chunk) :
    fragmentsAt n (cs ++ cs') = fragmentsAt n cs ++ fragmentsAt n cs' := by
  simp [fragmentsAt, toolCalls]

theorem finishReasons_append (cs cs' : List Chunk) :
    finishReasons (cs ++ cs') = finishReasons cs ++ finishReasons cs' := by
  simp [finishReasons]

def endings (arrivals : List Arrival) : List Bool := arrivals.filterMap Arrival.ends

theorem endings_snoc (arrivals : List Arrival)
    (a : Arrival) : endings (arrivals ++ [a]) = endings arrivals ++ a.ends.toList := by
  simp only [endings, List.filterMap_append, List.filterMap_cons, List.filterMap_nil]
  cases a.ends <;> rfl

def finishOf (fails : Bool) (calls : List AddedCall) : FinishReason := if fails ∨ calls = [] then .stop else .toolCalls

/-- What holds in every run: the calls that were emitted, and how the stream was finished. -/
structure Emitted (arrivals : List Arrival) (r : Response) (s : State)
    (chunks : List Chunk) : Prop where
  fresh : s.Fresh
  started : s.started = true ↔ arrivals ≠ []
  calls : (emittedCalls chunks).map (fun tc => (tc.id, tc.name)) = (addedCalls arrivals).map fun call => (some call.id, some call.name)
  current : s.currentToolCallId = [] ↔ addedCalls arrivals = []
  index : addedCalls arrivals = [] → s.toolCallIndex = 0
  sent : s.finishReasonSent = (endings arrivals).head?.isSome
  ended : endings arrivals ≠ [] → r.ended = true
  finish : finishReasons chunks = ((endings arrivals).head?.map fun fails => finishOf fails (addedCalls arrivals)).toList

theorem Emitted.computeFinishReason {arrivals : List Arrival} {r : Response} {s : State}
    {chunks : List Chunk}
    (h : Emitted arrivals r s chunks) :
    computeFinishReason s = finishOf false (addedCalls arrivals) := by
  unfold ChatStream.computeFinishReason finishOf
  by_cases hcalls : addedCalls arrivals = []
  · simp [hcalls, h.index hcalls, h.current.2 hcalls]
  · have hcurrent : s.currentToolCallId ≠ [] := fun hnil => hcalls (h.current.1 hnil)
    simp [hcalls, hcurrent]

theorem id_of_added {a : Arrival} {call : AddedCall} (h : a.added = some call) : call.id ≠ [] := by
  obtain ⟨now, event⟩ := a
  cases event with
  | outputItemAdded k item =>
    simp only [Arrival.added] at h
    split_ifs at h
    obtain rfl := Option.some.inj h
    dsimp only [orElse]
    split_ifs with hid
    · exact fallbackToolCallId_ne_nil now
    · exact hid
  | _ => simp [Arrival.added] at h

theorem calls_of_closes {arrivals : List Arrival} {a : Arrival} {r r' : Response}
    (hrec : Recorded arrivals r) (h : Allowed a r r')
    (hcalls : addedCalls (arrivals ++ [a]) = []) : addedCalls arrivals = [] ∧ a.closes = none := by
  rw [addedCalls_snoc, List.append_eq_nil_iff] at hcalls
  refine ⟨hcalls.1, ?_⟩
  cases h with
  | closed k arguments _ _ _ _ hrunning =>
    have hmem := (hrec.known k).1 (by rw [hrunning]; simp)
    rw [hcalls.1] at hmem
    simp at hmem
  | _ => assumption

theorem Allowed.of_ended {a : Arrival} {r r' : Response} (h : Allowed a r r')
    (hended : r.ended = true) :
    a.added = none ∧ r'.ended = true := by
  cases h with
  | added call _ _ _ _ hopen => simp [hopen] at hended
  | filled k delta arguments hadded _ _ _ _ hr =>
    subst hr
    exact ⟨hadded, hended⟩
  | closed k arguments hadded _ _ _ _ hr =>
    subst hr
    exact ⟨hadded, hended⟩
  | quiet hadded _ _ _ hstays => exact ⟨hadded, hstays hended⟩

theorem Allowed.of_ends {a : Arrival} {r r' : Response} (h : Allowed a r r') {fails : Bool}
    (hends : a.ends = some fails) :
    a.added = none ∧ r'.ended = true := by
  cases h with
  | quiet hadded _ _ _ _ hended => exact ⟨hadded, hended (by rw [hends]; rfl)⟩
  | _ => simp_all

theorem Emitted.step {arrivals : List Arrival} {a : Arrival} {r r' : Response} {s s' : State}
    {chunks out : List Chunk}
    (h : Emitted arrivals r s chunks) (hrec : Recorded arrivals r) (hallowed : Allowed a r r') (hdoes : Does a s s' out)
    (hfinishes : Finishes a s s' out) : Emitted (arrivals ++ [a]) r' s' (chunks ++ out) where
  fresh := by
    intro hstarted
    rw [hdoes.started] at hstarted
    simp at hstarted
  started := by simp [hdoes.started]
  calls := by
    rw [emittedCalls_append, List.map_append, h.calls, hdoes.emitted, addedCalls_snoc, List.map_append]
    cases a.added <;> rfl
  current := by
    rw [hdoes.current, addedCalls_snoc]
    cases hadded : a.added with
    | none => simpa using h.current
    | some call => simp [id_of_added hadded]
  index := by
    intro hcalls
    obtain ⟨hnone, hcloses⟩ := calls_of_closes hrec hallowed hcalls
    rw [hdoes.index, h.index hnone, hcloses]
    rfl
  sent := by
    rw [hfinishes.sent, h.sent, endings_snoc]
    cases endings arrivals with
    | nil => cases a.ends <;> rfl
    | cons fails rest => rfl
  ended := by
    intro hendings
    rw [endings_snoc] at hendings
    by_cases hbefore : endings arrivals = []
    · cases hends : a.ends with
      | none => simp [hbefore, hends] at hendings
      | some fails => exact (hallowed.of_ends hends).2
    · exact (hallowed.of_ended (h.ended hbefore)).2
  finish := by
    rw [finishReasons_append, h.finish, hfinishes.reasons, h.sent, endings_snoc, addedCalls_snoc]
    cases hbefore : endings arrivals with
    | nil =>
      cases hends : a.ends with
      | none => rfl
      | some fails =>
        rw [(hallowed.of_ends hends).1, h.computeFinishReason]
        cases fails <;> simp [finishOf]
    | cons fails rest =>
      rw [(hallowed.of_ended (h.ended (by rw [hbefore]; simp))).1]
      simp

theorem emitted (model : Text) {arrivals : List Arrival} {r : Response}
    (h : responseAfter arrivals = some r) :
    Emitted arrivals r (chatChunks arrivals { model := model }).1 (chatChunks arrivals { model := model }).2 := by
  induction arrivals using List.reverseRecOn generalizing r with
  | nil =>
    obtain rfl := Option.some.inj h
    constructor <;> simp [chatChunks, State.Fresh, emittedCalls, toolCalls, addedCalls, endings, finishReasons]
  | append_singleton arrivals a ih =>
    rw [responseAfter_snoc] at h
    obtain ⟨r₀, hbefore, hnext⟩ := Option.bind_eq_some_iff.1 h
    have hemitted := ih hbefore
    obtain ⟨hdoes, hfinishes⟩ := step_does a hemitted.fresh
    rw [chatChunks_snoc]
    exact hemitted.step (recorded hbefore) (allowed_of_next hnext) hdoes hfinishes

/-! ### Calls that run one at a time -/

inductive LastRuns (arrivals : List Arrival) (r : Response) (index : ℕ) : Prop where
  | idle : (∀ k arguments, r.calls k ≠ some (.running arguments)) → index = (addedCalls arrivals).length → LastRuns arrivals r index
  | runs (front : List AddedCall) (call : AddedCall) (arguments : Text) : addedCalls arrivals = front ++ [call] →
    r.calls call.k = some (.running arguments) → (∀ k arguments', r.calls k = some (.running arguments') → k = call.k) →
    index = front.length → LastRuns arrivals r index

/-- What holds as long as no call was added while another one ran. -/
structure Apart (arrivals : List Arrival) (r : Response) (s : State)
    (chunks : List Chunk) : Prop where
  indices : (emittedCalls chunks).map ToolCall.index = List.range (addedCalls arrivals).length
  filed : ∀ n call, (addedCalls arrivals)[n]? = some call → fragmentsAt n chunks = argumentsOf call.k arrivals
  beyond : ∀ n, (addedCalls arrivals).length ≤ n → fragmentsAt n chunks = []
  last : LastRuns arrivals r s.toolCallIndex

theorem addedCalls_of_none (arrivals : List Arrival) {a : Arrival} (h : a.added = none) :
    addedCalls (arrivals ++ [a]) = addedCalls arrivals := by
  rw [addedCalls_snoc, h, Option.toList_none, List.append_nil]

theorem argumentsOf_of_none (k : ℕ) (arrivals : List Arrival) {a : Arrival}
    (h : a.fragment = none) :
    argumentsOf k (arrivals ++ [a]) = argumentsOf k arrivals := by
  rw [argumentsOf_snoc, h]
  exact List.append_nil _

theorem Does.fragmentsAt_of_none {a : Arrival} {s s' : State} {chunks out : List Chunk}
    (hdoes : Does a s s' out) (h : a.fragment = none)
    (n : ℕ) : fragmentsAt n (chunks ++ out) = fragmentsAt n chunks := by
  rw [fragmentsAt_append, hdoes.fragments, h]
  exact List.append_nil _

theorem Does.index_of_none {a : Arrival} {s s' : State} {out : List Chunk} (hdoes : Does a s s' out)
    (h : a.closes = none) :
    s'.toolCallIndex = s.toolCallIndex := by
  rw [hdoes.index, h]
  rfl

theorem Apart.unfilled {arrivals : List Arrival} {a : Arrival} {r r' : Response} {s s' : State}
    {chunks out : List Chunk}
    (h : Apart arrivals r s chunks) (hdoes : Does a s s' out) (hadded : a.added = none) (hfragment : a.fragment = none)
    (hlast : LastRuns (arrivals ++ [a]) r' s'.toolCallIndex) : Apart (arrivals ++ [a]) r' s' (chunks ++ out) where
  indices := by
    rw [emittedCalls_append, hdoes.emitted, hadded, addedCalls_of_none arrivals hadded, ← h.indices]
    simp
  filed := by
    intro n call hcall
    rw [addedCalls_of_none arrivals hadded] at hcall
    rw [hdoes.fragmentsAt_of_none hfragment, argumentsOf_of_none call.k arrivals hfragment, h.filed n call hcall]
  beyond := by
    intro n hn
    rw [addedCalls_of_none arrivals hadded] at hn
    rw [hdoes.fragmentsAt_of_none hfragment, h.beyond n hn]
  last := hlast

theorem running_inj {r : Response} {k j : ℕ} {phase : Phase} {arguments : Text}
    (h : Function.update r.calls k (some phase) j = some (.running arguments)) :
    j = k ∧ phase = .running arguments ∨ j ≠ k ∧ r.calls j = some (.running arguments) := by
  by_cases hj : j = k
  · subst hj
    rw [Function.update_self] at h
    exact Or.inl ⟨rfl, Option.some.inj h⟩
  · rw [Function.update_of_ne hj] at h
    exact Or.inr ⟨hj, h⟩

theorem Apart.add {arrivals : List Arrival} {a : Arrival} {r : Response} {s s' : State}
    {chunks out : List Chunk} {call : AddedCall}
    (h : Apart arrivals r s chunks) (hrec : Recorded arrivals r) (hdoes : Does a s s' out) (hadded : a.added = some call)
    (hcloses : a.closes = none) (hfragment : a.fragment = none) (hfree : r.calls call.k = none)
    (hone : ∀ k arguments, r.calls k ≠ some (.running arguments)) :
    Apart (arrivals ++ [a]) { r with calls := Function.update r.calls call.k (some (.running [])) } s' (chunks ++ out) := by
  have hindex : s.toolCallIndex = (addedCalls arrivals).length := by
    cases h.last with
    | idle _ hindex => exact hindex
    | runs front call' arguments _ hrunning => exact absurd hrunning (hone _ _)
  have hcalls : addedCalls (arrivals ++ [a]) = addedCalls arrivals ++ [call] := by
    rw [addedCalls_snoc, hadded]
    rfl
  refine ⟨?_, ?_, ?_, ?_⟩
  · rw [emittedCalls_append, hdoes.emitted, hadded, hcalls, List.map_append, h.indices, List.length_append]
    simp [List.range_succ, hindex]
  · intro n call' hcall'
    rw [hdoes.fragmentsAt_of_none hfragment, argumentsOf_of_none _ arrivals hfragment]
    rw [hcalls] at hcall'
    by_cases hn : n < (addedCalls arrivals).length
    · rw [List.getElem?_append_left hn] at hcall'
      exact h.filed n call' hcall'
    · rw [List.getElem?_append_right (by omega), List.getElem?_singleton] at hcall'
      split_ifs at hcall'
      obtain rfl := Option.some.inj hcall'
      rw [h.beyond n (by omega), hrec.unborn call.k hfree]
  · intro n hn
    rw [hcalls, List.length_append] at hn
    rw [hdoes.fragmentsAt_of_none hfragment, h.beyond n (by omega)]
  · refine .runs (addedCalls arrivals) call [] hcalls (by simp) ?_ ?_
    · intro k arguments hrunning
      rcases running_inj hrunning with ⟨hk, -⟩ | ⟨-, hrunning⟩
      · exact hk
      · exact absurd hrunning (hone _ _)
    · rw [hdoes.index_of_none hcloses, hindex]

theorem Apart.fill {arrivals : List Arrival} {a : Arrival} {r : Response} {s s' : State}
    {chunks out : List Chunk} {k : ℕ}
    {delta arguments : Text} (h : Apart arrivals r s chunks) (hrec : Recorded arrivals r) (hdoes : Does a s s' out)
    (hadded : a.added = none) (hcloses : a.closes = none) (hfragment : a.fragment = some (k, delta))
    (hrunning : r.calls k = some (.running arguments)) :
    Apart (arrivals ++ [a]) { r with calls := Function.update r.calls k (some (.running (arguments ++ delta))) } s' (chunks ++ out) := by
  cases h.last with
  | idle hidle _ => exact absurd hrunning (hidle _ _)
  | runs front call arguments' hfront hcall honly hindex =>
    obtain rfl := honly k arguments hrunning
    have hlength : (addedCalls arrivals).length = front.length + 1 := by
      rw [hfront, List.length_append]
      rfl
    have hfragments : ∀ n, fragmentsAt n (chunks ++ out) = fragmentsAt n chunks ++ if front.length = n then delta else [] := by
      intro n
      rw [fragmentsAt_append, hdoes.fragments, hfragment, hindex]
      rfl
    refine ⟨?_, ?_, ?_, ?_⟩
    · rw [emittedCalls_append, hdoes.emitted, hadded, addedCalls_of_none arrivals hadded, ← h.indices]
      simp
    · intro n call' hcall'
      rw [addedCalls_of_none arrivals hadded] at hcall'
      rw [hfragments, argumentsOf_snoc, hfragment, h.filed n call' hcall']
      have hlast : (addedCalls arrivals)[front.length]? = some call := by
        rw [hfront, List.getElem?_concat_length]
      have hsame : front.length = n ↔ call.k = call'.k := by
        constructor
        · rintro rfl
          rw [Option.some.inj (hlast.symm.trans hcall')]
        · intro hk
          refine (List.getElem?_inj (by rw [List.length_map, hlength]; omega) hrec.nodup).1 ?_
          rw [List.getElem?_map, List.getElem?_map, hlast, hcall', Option.map_some, Option.map_some, hk]
      simp [hsame]
    · intro n hn
      rw [addedCalls_of_none arrivals hadded] at hn
      rw [hfragments, h.beyond n hn, if_neg (by omega)]
      rfl
    · refine .runs front call (arguments ++ delta) ?_ (by simp) ?_ ?_
      · rw [addedCalls_of_none arrivals hadded, hfront]
      · intro j arguments'' hj
        rcases running_inj hj with ⟨hk, -⟩ | ⟨-, hj⟩
        · exact hk
        · exact honly j arguments'' hj
      · rw [hdoes.index_of_none hcloses, hindex]

theorem Apart.step {arrivals : List Arrival} {a : Arrival} {r r' : Response} {s s' : State}
    {chunks out : List Chunk}
    (h : Apart arrivals r s chunks) (hrec : Recorded arrivals r) (hallowed : Allowed a r r') (hdoes : Does a s s' out)
    (hone : a.added.isSome → ∀ k arguments, r.calls k ≠ some (.running arguments)) :
    Apart (arrivals ++ [a]) r' s' (chunks ++ out) := by
  cases hallowed with
  | added call hadded hcloses hfragment _ _ hfree hr =>
    subst hr
    exact h.add hrec hdoes hadded hcloses hfragment hfree (hone (by rw [hadded]; rfl))
  | filled k delta arguments hadded hcloses hfragment _ hrunning hr =>
    subst hr
    exact h.fill hrec hdoes hadded hcloses hfragment hrunning
  | closed k arguments hadded hcloses hfragment _ hrunning hr =>
    subst hr
    refine h.unfilled hdoes hadded hfragment ?_
    cases h.last with
    | idle hidle _ => exact absurd hrunning (hidle _ _)
    | runs front call arguments' hfront hcall honly hindex =>
      obtain rfl := honly k arguments hrunning
      refine .idle ?_ ?_
      · intro j arguments'' hj
        rcases running_inj hj with ⟨-, hj⟩ | ⟨hne, hj⟩
        · simp at hj
        · exact hne (honly j arguments'' hj)
      · rw [hdoes.index, hcloses, addedCalls_of_none arrivals hadded, hfront, hindex]
        simp
  | quiet hadded hcloses hfragment hcalls _ _ =>
    refine h.unfilled hdoes hadded hfragment ?_
    cases h.last with
    | idle hidle hindex =>
      refine .idle ?_ ?_
      · rwa [hcalls]
      · rw [hdoes.index_of_none hcloses, addedCalls_of_none arrivals hadded, hindex]
    | runs front call arguments hfront hcall honly hindex =>
      refine .runs front call arguments ?_ ?_ ?_ ?_
      · rw [addedCalls_of_none arrivals hadded, hfront]
      · rw [hcalls, hcall]
      · rwa [hcalls]
      · rw [hdoes.index_of_none hcloses, hindex]

theorem oneAtATime_nil : OneAtATime [] := by
  intro before a after r h
  simp at h

theorem oneAtATime_snoc {arrivals : List Arrival} {a : Arrival} {r : Response}
    (h : responseAfter arrivals = some r) :
    OneAtATime (arrivals ++ [a]) ↔
      OneAtATime arrivals ∧ (a.added.isSome → ∀ k arguments, r.calls k ≠ some (.running arguments)) := by
  constructor
  · intro hone
    refine ⟨?_, fun hadded => hone arrivals a [] r rfl hadded h⟩
    rintro before a' after r' rfl hadded hbefore
    exact hone before a' (after ++ [a]) r' (by simp) hadded hbefore
  · rintro ⟨hone, hlast⟩ before a' after r' hsplit hadded hbefore
    obtain rfl | ⟨after, b, rfl⟩ := List.eq_nil_or_concat after
    · obtain ⟨rfl, ha⟩ := List.append_inj' hsplit rfl
      obtain rfl := List.singleton_inj.1 ha
      obtain rfl := Option.some.inj (h.symm.trans hbefore)
      exact hlast hadded
    · rw [List.concat_eq_append, ← List.cons_append, ← List.append_assoc] at hsplit
      obtain ⟨rfl, -⟩ := List.append_inj' hsplit rfl
      exact hone before a' after r' rfl hadded hbefore

theorem apart (model : Text) {arrivals : List Arrival} {r : Response}
    (h : responseAfter arrivals = some r) (hone : OneAtATime arrivals) :
    Apart arrivals r (chatChunks arrivals { model := model }).1 (chatChunks arrivals { model := model }).2 := by
  induction arrivals using List.reverseRecOn generalizing r with
  | nil =>
    obtain rfl := Option.some.inj h
    refine ⟨rfl, by simp [addedCalls], fun _ _ => rfl, .idle ?_ rfl⟩
    simp
  | append_singleton arrivals a ih =>
    rw [responseAfter_snoc] at h
    obtain ⟨r₀, hbefore, hnext⟩ := Option.bind_eq_some_iff.1 h
    obtain ⟨hone, hlast⟩ := (oneAtATime_snoc hbefore).1 hone
    obtain ⟨hdoes, -⟩ := step_does a (emitted model hbefore).fresh
    rw [chatChunks_snoc]
    exact (ih hbefore hone).step (recorded hbefore) (allowed_of_next hnext) hdoes hlast

theorem oneAtATime_of_nodup (model : Text) {arrivals : List Arrival} {r : Response}
    (h : responseAfter arrivals = some r)
    (hnodup : ((emittedCalls (chatChunks arrivals { model := model }).2).map ToolCall.index).Nodup) : OneAtATime arrivals := by
  induction arrivals using List.reverseRecOn generalizing r with
  | nil => exact oneAtATime_nil
  | append_singleton arrivals a ih =>
    rw [responseAfter_snoc] at h
    obtain ⟨r₀, hbefore, hnext⟩ := Option.bind_eq_some_iff.1 h
    obtain ⟨hdoes, -⟩ := step_does a (emitted model hbefore).fresh
    rw [chatChunks_snoc, emittedCalls_append, List.map_append, hdoes.emitted, List.nodup_append] at hnodup
    have hone := ih hbefore hnodup.1
    refine (oneAtATime_snoc hbefore).2 ⟨hone, ?_⟩
    intro hadded k arguments hrunning
    obtain ⟨call, hcall⟩ := Option.isSome_iff_exists.1 hadded
    have hapart := apart model hbefore hone
    cases hapart.last with
    | idle hidle _ => exact hidle k arguments hrunning
    | runs front call' arguments' hfront _ _ hindex =>
      have hmem : front.length ∈ (emittedCalls (chatChunks arrivals { model := model }).2).map ToolCall.index := by
        rw [hapart.indices, hfront, List.mem_range, List.length_append]
        simp
      refine hnodup.2.2 front.length hmem front.length ?_ rfl
      rw [hcall, hindex]
      simp

theorem flush_spec (s : State) :
    toolCalls (openaiResponsesToOpenAIResponse none s).2 = [] ∧
      finishReasons (openaiResponsesToOpenAIResponse none s).2 =
        if s.finishReasonSent ∨ ¬ s.started then [] else [computeFinishReason s] := by
  unfold openaiResponsesToOpenAIResponse
  dsimp only
  split_ifs
  · exact ⟨rfl, rfl⟩
  · exact ⟨rfl, rfl⟩

theorem finishReasons_chatStream (model : Text) {arrivals : List Arrival} {r : Response}
    (h : responseAfter arrivals = some r) :
    finishReasons (chatStream arrivals { model := model }).2 =
      if arrivals = [] then [] else [finishOf ((endings arrivals).head?.getD false) (addedCalls arrivals)] := by
  have hemitted := emitted model h
  unfold chatStream
  rw [Emitter.seq_apply, finishReasons_append, hemitted.finish, (flush_spec _).2, hemitted.sent, hemitted.computeFinishReason]
  by_cases hnil : arrivals = []
  · subst hnil
    simp [hemitted.started, endings]
  · rw [if_neg hnil]
    have hstarted := hemitted.started.2 hnil
    cases (endings arrivals).head? with
    | none => simp [hstarted]
    | some fails => simp

theorem chatStream_calls (model : Text) (arrivals : List Arrival) :
    emittedCalls (chatStream arrivals { model := model }).2 = emittedCalls (chatChunks arrivals { model := model }).2 ∧
      ∀ n, fragmentsAt n (chatStream arrivals { model := model }).2 = fragmentsAt n (chatChunks arrivals { model := model }).2 := by
  unfold chatStream
  rw [Emitter.seq_apply]
  constructor
  · rw [emittedCalls_append, emittedCalls, emittedCalls, (flush_spec _).1]
    simp
  · intro n
    rw [fragmentsAt_append, fragmentsAt, fragmentsAt, (flush_spec _).1]
    simp

theorem finishOf_eq_iff (fails : Bool) (calls : List AddedCall) :
    finishOf fails calls = (if calls = [] then .stop else .toolCalls) ↔ (fails = true → calls = []) := by
  unfold finishOf
  cases fails <;> by_cases hcalls : calls = [] <;> simp [hcalls]

/-- **Parallel calls.** Of a valid stream the calls are kept apart, and the finish
reason is theirs, exactly when no call is added while another one runs and the response
does not fail once it has a call. -/
theorem chatStream_keptApart_iff (model : Text) (arrivals : List Arrival)
    (hvalid : (responseAfter arrivals).isSome) :
    KeptApart arrivals (chatStream arrivals { model := model }).2 ↔
      OneAtATime arrivals ∧ (Fails arrivals → addedCalls arrivals = []) := by
  obtain ⟨r, h⟩ := Option.isSome_iff_exists.1 hvalid
  have hemitted := emitted model h
  obtain ⟨hcalls, hfragments⟩ := chatStream_calls model arrivals
  have hnil : emittedCalls (chatStream arrivals { model := model }).2 = [] ↔ addedCalls arrivals = [] := by
    rw [hcalls, ← List.map_eq_nil_iff, hemitted.calls, List.map_eq_nil_iff]
  have hfinish : (finishReasons (chatStream arrivals { model := model }).2 = if arrivals = [] then [] else
      [if emittedCalls (chatStream arrivals { model := model }).2 = [] then .stop else .toolCalls]) ↔
      (Fails arrivals → addedCalls arrivals = []) := by
    rw [finishReasons_chatStream model h]
    simp only [hnil]
    by_cases harrivals : arrivals = []
    · subst harrivals
      simp [addedCalls]
    · rw [if_neg harrivals, if_neg harrivals, List.cons.injEq, and_iff_left rfl, finishOf_eq_iff]
      unfold Fails endings
      cases (arrivals.filterMap Arrival.ends).head? <;> simp
  constructor
  · intro hapart
    refine ⟨oneAtATime_of_nodup model h ?_, hfinish.1 hapart.finish⟩
    rw [← hcalls]
    exact hapart.ownIndex
  · rintro ⟨hone, hfails⟩
    have hapart := apart model h hone
    refine ⟨?_, ?_, ?_, hfinish.2 hfails⟩
    · rw [hcalls, hemitted.calls]
    · rw [hcalls, hapart.indices]
      exact List.nodup_range
    · rw [hcalls, List.forall₂_iff_get]
      have hlength : (emittedCalls (chatChunks arrivals { model := model }).2).length = (addedCalls arrivals).length := by
        simpa using congrArg List.length hemitted.calls
      refine ⟨hlength, ?_⟩
      intro n hn hn'
      have hindex : ((emittedCalls (chatChunks arrivals { model := model }).2).get ⟨n, hn⟩).index = n := by
        have := congrArg (fun indices : List ℕ => indices[n]?) hapart.indices
        simpa [hn, hn'] using this
      rw [hindex, hfragments]
      exact hapart.filed n _ (List.getElem?_eq_getElem hn')

def inTurn : List Arrival :=
  [⟨1000, .outputItemAdded 0 ⟨.functionCall, "a".toList, "f".toList⟩⟩, ⟨1001, .argumentsDelta 0 "x".toList⟩,
    ⟨1002, .outputItemDone 0 ⟨.functionCall, "a".toList, "f".toList⟩ "x".toList⟩,
    ⟨1003, .outputItemAdded 1 ⟨.functionCall, "b".toList, "g".toList⟩⟩, ⟨1004, .argumentsDelta 1 "y".toList⟩,
    ⟨1005, .outputItemDone 1 ⟨.functionCall, "b".toList, "g".toList⟩ "y".toList⟩, ⟨1006, .completed none⟩]

/-- The same calls, of which the second one is added before the first one is done. -/
def overlapping : List Arrival :=
  [⟨1000, .outputItemAdded 0 ⟨.functionCall, "a".toList, "f".toList⟩⟩, ⟨1001, .outputItemAdded 1 ⟨.functionCall, "b".toList, "g".toList⟩⟩,
    ⟨1002, .argumentsDelta 0 "x".toList⟩, ⟨1003, .argumentsDelta 1 "y".toList⟩,
    ⟨1004, .outputItemDone 0 ⟨.functionCall, "a".toList, "f".toList⟩ "x".toList⟩,
    ⟨1005, .outputItemDone 1 ⟨.functionCall, "b".toList, "g".toList⟩ "y".toList⟩, ⟨1006, .completed none⟩]

theorem inTurn_keptApart : KeptApart inTurn (chatStream inTurn {}).2 := by
  have hvalid : (responseAfter inTurn).isSome := by decide +kernel
  obtain ⟨r, hr⟩ := Option.isSome_iff_exists.1 hvalid
  refine (chatStream_keptApart_iff [] inTurn hvalid).2 ⟨?_, ?_⟩
  · exact oneAtATime_of_nodup [] hr (by decide +kernel)
  · unfold Fails
    decide +kernel

/-- Both calls get the index 0. -/
theorem overlapping_mixed : ¬ ∀ arrivals, (responseAfter arrivals).isSome → KeptApart arrivals (chatStream arrivals {}).2 := by
  intro h
  have hnodup := (h overlapping (by decide +kernel)).ownIndex
  revert hnodup
  decide +kernel

end TokenProxy.ChatStream
