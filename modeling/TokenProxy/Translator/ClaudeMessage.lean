import TokenProxy.Lib.Framing
import TokenProxy.Translator.ClaudeStream

/-!
# The Claude stream is one message

The grammar of an Anthropic message stream (`WellFormedMessage`), and what of it
`openaiToClaudeResponse` keeps for every sequence of chunks. The blocks a state keeps open
(`liveBlocks`) are the live blocks of what was emitted (`Board`); a stream that reaches a finish
chunk or a tool call ends as a whole message, and any other one stops in the middle of its message,
since the flush leaves it alone.
-/

namespace TokenProxy.Translator

open Lib Mark

/-! ### The grammar -/

def ClaudeEvent.mark? : ClaudeEvent → Option (Mark Nat)
  | contentBlockStart index _ => some (.opens index)
  | contentBlockDelta index _ => some (.within index)
  | contentBlockStop index => some (.closes index)
  | _ => none

def marks (body : List ClaudeEvent) : List (Mark Nat) := body.filterMap ClaudeEvent.mark?

/-- Only blocks, each started once, with indices from 0 on, extended and
stopped only while it is open. -/
structure Blocks (body : List ClaudeEvent) : Prop where
  onlyBlocks : ∀ e ∈ body, e.mark?.isSome
  framed : Framed (marks body)
  consecutive : opened (marks body) = List.range (opened (marks body)).length

/-- `message_start`, blocks that are all stopped, once each, and the terminal. -/
def WellFormedMessage (events : List ClaudeEvent) : Prop :=
  ∃ id model body reason usage,
    events = ClaudeEvent.messageStart id model :: body ++ [ClaudeEvent.messageDelta reason usage, .messageStop] ∧ Blocks body ∧
      ∀ k, opens k ∈ marks body → (marks body).count (closes k) = 1

/-- A message that is not closed: `message_start` and blocks, of which some may still be open. -/
def UnfinishedMessage (events : List ClaudeEvent) : Prop :=
  ∃ id model body, events = .messageStart id model :: body ∧ Blocks body

/-! ### Open blocks -/

/-- The body has the blocks below `next`, and those in `live` are open. -/
structure Board (next : Nat) (live : List Nat) (body : List ClaudeEvent) : Prop where
  onlyBlocks : ∀ e ∈ body, e.mark?.isSome
  framed : Framed (marks body)
  indices : opened (marks body) = List.range next
  isLive : ∀ k, Live (marks body) k ↔ k ∈ live
  distinct : live.Nodup

@[simp] theorem marks_start (body : List ClaudeEvent) (k : Nat) (b : ContentBlock) :
    marks (body ++ [ClaudeEvent.contentBlockStart k b]) = marks body ++ [Mark.opens k] := by
  simp [marks, ClaudeEvent.mark?]

@[simp] theorem marks_delta (body : List ClaudeEvent) (k : Nat) (d : BlockDelta) :
    marks (body ++ [ClaudeEvent.contentBlockDelta k d]) = marks body ++ [Mark.within k] := by
  simp [marks, ClaudeEvent.mark?]

@[simp] theorem marks_stop (body : List ClaudeEvent) (k : Nat) :
    marks (body ++ [ClaudeEvent.contentBlockStop k]) = marks body ++ [Mark.closes k] := by
  simp [marks, ClaudeEvent.mark?]

namespace Board

variable {next : Nat} {live live' : List Nat} {body : List ClaudeEvent}

theorem nil : Board 0 [] [] where
  onlyBlocks := by simp
  framed := framed_nil
  indices := rfl
  isLive := by simp [marks]
  distinct := List.nodup_nil

theorem perm (h : Board next live body) (hp : live.Perm live') : Board next live' body where
  onlyBlocks := h.onlyBlocks
  framed := h.framed
  indices := h.indices
  isLive k := (h.isLive k).trans hp.mem_iff
  distinct := hp.nodup_iff.1 h.distinct

theorem fresh (h : Board next live body) : Mark.opens next ∉ marks body := by
  rw [← mem_opened, h.indices]
  simp

theorem start (h : Board next live body) (b : ContentBlock) :
    Board (next + 1) (live ++ [next]) (body ++ [ClaudeEvent.contentBlockStart next b]) := by
  have hclosed : closes next ∉ marks body := fun hc => h.fresh (h.framed.opens_of_closes hc)
  have hdead : next ∉ live := fun hl => h.fresh ((h.isLive next).2 hl).1
  refine ⟨?_, ?_, ?_, ?_, ?_⟩
  · intro e he
    obtain he | he := List.mem_append.1 he
    · exact h.onlyBlocks e he
    · rw [List.mem_singleton.1 he]
      rfl
  · rw [marks_start, framed_snoc]
    exact ⟨h.framed, h.fresh, hclosed⟩
  · rw [marks_start, opened_opens, h.indices, List.range_succ]
  · intro k
    rw [marks_start, live_opens hclosed, h.isLive, List.mem_append, List.mem_singleton]
  · refine List.nodup_append.2 ⟨h.distinct, List.nodup_singleton _, ?_⟩
    rintro a ha b hb rfl
    rw [List.mem_singleton.1 hb] at ha
    exact hdead ha

theorem delta (h : Board next live body) {k : Nat} (hk : k ∈ live) (d : BlockDelta) :
    Board next live (body ++ [ClaudeEvent.contentBlockDelta k d]) := by
  refine ⟨?_, ?_, ?_, ?_, h.distinct⟩
  · intro e he
    obtain he | he := List.mem_append.1 he
    · exact h.onlyBlocks e he
    · rw [List.mem_singleton.1 he]
      rfl
  · rw [marks_delta, framed_snoc]
    exact ⟨h.framed, (h.isLive k).2 hk⟩
  · rw [marks_delta, opened_within, h.indices]
  · intro j
    rw [marks_delta, live_within, h.isLive]

theorem stop {k : Nat} (h : Board next (k :: live) body) :
    Board next live (body ++ [ClaudeEvent.contentBlockStop k]) := by
  obtain ⟨hk, hlive⟩ := List.nodup_cons.1 h.distinct
  refine ⟨?_, ?_, ?_, ?_, hlive⟩
  · intro e he
    obtain he | he := List.mem_append.1 he
    · exact h.onlyBlocks e he
    · rw [List.mem_singleton.1 he]
      rfl
  · rw [marks_stop, framed_snoc]
    exact ⟨h.framed, (h.isLive k).2 (by simp)⟩
  · rw [marks_stop, opened_closes, h.indices]
  · intro j
    rw [marks_stop, live_closes, h.isLive, List.mem_cons]
    constructor
    · rintro ⟨hj | hj, hne⟩
      · exact absurd hj hne
      · exact hj
    · intro hj
      exact ⟨Or.inr hj, fun heq => hk (heq ▸ hj)⟩

theorem blocks (h : Board next live body) : Blocks body where
  onlyBlocks := h.onlyBlocks
  framed := h.framed
  consecutive := by rw [h.indices, List.length_range]

theorem stopped (h : Board next [] body) (k : Nat)
    (hk : opens k ∈ marks body) : (marks body).count (closes k) = 1 :=
  h.framed.count_closes_eq_one hk (by simp [h.isLive])

end Board

/-! ### What a state keeps open -/

def liveBlocks (s : ClaudeState) : List Nat :=
  (if s.thinkingBlockStarted then [s.thinkingBlockIndex] else []) ++
    ((if s.textBlockStarted then [s.textBlockIndex] else []) ++ s.toolCalls.rows.map (·.2.blockIndex))

structure Open (s : ClaudeState) (body : List ClaudeEvent) : Prop where
  board : Board s.nextBlockIndex (liveBlocks s) body
  textOpen : s.textBlockStarted → s.textBlockClosed = false

def Quiet (s : ClaudeState) : Prop := s.thinkingBlockStarted = false ∧ s.textBlockStarted = false

/-- Whether the message is started and closed, and the finish reason that is held back. -/
def phase (s : ClaudeState) : Bool × Bool × Text := (s.messageStartSent, s.claudeTerminalEmitted, s.pendingFinishReason)

/-- A pending call has no block; `q` says whether there are calls at all. -/
structure Calls (q : Prop) (s : ClaudeState) : Prop where
  pending : ∀ r ∈ s.toolPending.rows, s.toolCalls.get? r.1 = none
  some_iff : s.toolCalls.rows ≠ [] ∨ s.toolPending.rows ≠ [] ↔ q

theorem Calls.congr {q : Prop} {s s' : ClaudeState} (h : Calls q s)
    (hc : s'.toolCalls = s.toolCalls) (hp : s'.toolPending = s.toolPending) : Calls q s' := by
  refine ⟨?_, ?_⟩
  · rw [hc, hp]
    exact h.pending
  · rw [hc, hp]
    exact h.some_iff

structure Aside (f : ClaudeEmitter) : Prop where
  toolCalls : ∀ s, (f s).1.toolCalls = s.toolCalls
  toolPending : ∀ s, (f s).1.toolPending = s.toolPending
  phase : ∀ s, phase (f s).1 = phase s

theorem Aside.seq {f g : ClaudeEmitter} (hf : Aside f) (hg : Aside g) : Aside (f.seq g) where
  toolCalls s := (hg.toolCalls _).trans (hf.toolCalls s)
  toolPending s := (hg.toolPending _).trans (hf.toolPending s)
  phase s := (hg.phase _).trans (hf.phase s)

theorem aside_emit (es : ClaudeState → List ClaudeEvent) : Aside fun s => (s, es s) :=
  ⟨fun _ => rfl, fun _ => rfl, fun _ => rfl⟩

theorem aside_stopThinkingBlock : Aside stopThinkingBlock := by
  constructor <;> intro s <;> unfold stopThinkingBlock <;> split <;> rfl

theorem aside_stopTextBlock : Aside stopTextBlock := by
  constructor <;> intro s <;> unfold stopTextBlock <;> split <;> rfl

theorem aside_startThinkingBlock : Aside startThinkingBlock := by
  constructor <;> intro s <;> unfold startThinkingBlock <;> split <;> rfl

theorem aside_startTextBlock : Aside startTextBlock := by
  constructor <;> intro s <;> unfold startTextBlock <;> split <;> rfl

theorem aside_stopBlocks : Aside (stopThinkingBlock.seq stopTextBlock) :=
  aside_stopThinkingBlock.seq aside_stopTextBlock

@[simp] theorem stopTextBlock_thinking (s : ClaudeState) :
    (stopTextBlock s).1.thinkingBlockStarted = s.thinkingBlockStarted := by
  unfold stopTextBlock
  split <;> rfl

theorem emits_stopThinkingBlock :
    Emits Open stopThinkingBlock (fun s body => Open s body ∧ s.thinkingBlockStarted = false) := by
  intro s body h
  unfold stopThinkingBlock
  split
  · rename_i hs
    have hboard : Board s.nextBlockIndex
        (s.thinkingBlockIndex :: liveBlocks { s with thinkingBlockStarted := false }) body := by
      simpa [liveBlocks, hs] using h.board
    exact ⟨⟨hboard.stop, h.textOpen⟩, rfl⟩
  · rename_i hs
    simpa [hs] using h

theorem emits_stopTextBlock :
    Emits Open stopTextBlock (fun s body => Open s body ∧ s.textBlockStarted = false) := by
  intro s body h
  unfold stopTextBlock
  split
  · rename_i hs
    have hlive : (liveBlocks s).Perm
        (s.textBlockIndex :: liveBlocks { s with textBlockClosed := true, textBlockStarted := false }) := by
      simp only [liveBlocks, hs.1, if_true]
      exact List.perm_middle
    exact ⟨⟨(h.board.perm hlive).stop, fun hfalse => (Bool.false_ne_true hfalse).elim⟩, rfl⟩
  · rename_i hs
    have hstopped : s.textBlockStarted = false := by
      by_contra hstarted
      rw [Bool.not_eq_false] at hstarted
      exact hs ⟨hstarted, by simp [h.textOpen hstarted]⟩
    simpa [hstopped] using h

theorem emits_stopBlocks :
    Emits Open (stopThinkingBlock.seq stopTextBlock) (fun s body => Open s body ∧ Quiet s) := by
  have htext : Emits (fun s body => Open s body ∧ s.thinkingBlockStarted = false) stopTextBlock
      (fun s body => (Open s body ∧ s.textBlockStarted = false) ∧ s.thinkingBlockStarted = false) :=
    emits_stopTextBlock.frame fun s hs => by rwa [stopTextBlock_thinking]
  exact (emits_stopThinkingBlock.seq htext).mono (fun _ _ h => h) fun s body h => ⟨h.1.1, h.2, h.1.2⟩

theorem liveBlocks_of_quiet {s : ClaudeState}
    (h : Quiet s) : liveBlocks s = s.toolCalls.rows.map (·.2.blockIndex) := by
  simp [liveBlocks, h.1, h.2]

/-! ### Tool blocks -/

theorem openToolBlock_frame (idx : Nat) (id name : Text) (s : ClaudeState) :
    phase (openToolBlock idx id name s).1 = phase s ∧ (openToolBlock idx id name s).1.toolPending = s.toolPending ∧
      ∃ info, (openToolBlock idx id name s).1.toolCalls = s.toolCalls.put (idx, info) := by
  refine ⟨?_, ?_, ⟨id, name, (stopTextBlock (stopThinkingBlock s).1).1.nextBlockIndex⟩, ?_⟩
  · exact aside_stopBlocks.phase s
  · exact aside_stopBlocks.toolPending s
  · exact congrArg (fun t => Table.put t _) (aside_stopBlocks.toolCalls s)

theorem emits_openToolBlock (idx : Nat) (id name : Text) :
    Emits (fun s body => Open s body ∧ s.toolCalls.get? idx = none) (openToolBlock idx id name)
      (fun s body => Open s body ∧ Quiet s) := by
  refine (emits_stopBlocks.frame (F := fun s => s.toolCalls.get? idx = none) fun s hs => ?_).seq ?_
  · rwa [aside_stopBlocks.toolCalls]
  · rintro s body ⟨⟨h, hquiet⟩, hnone⟩
    have hrows := Table.rows_put_none (r := (idx, (⟨id, name, s.nextBlockIndex⟩ : ToolInfo))) hnone
    refine ⟨⟨?_, h.textOpen⟩, hquiet⟩
    have hboard := h.board.start (.toolUse id (stripToolPrefix name))
    have hlive : liveBlocks { s with
        nextBlockIndex := s.nextBlockIndex + 1
        toolCalls := s.toolCalls.put (idx, ⟨id, name, s.nextBlockIndex⟩) } = liveBlocks s ++ [s.nextBlockIndex] := by
      rw [liveBlocks_of_quiet hquiet, liveBlocks_of_quiet (by exact hquiet), hrows, List.map_append]
      rfl
    rw [← hlive] at hboard
    exact hboard

theorem openPending_frame {F : ClaudeState → Prop}
    (hopen : ∀ idx id name s, F s → F (openToolBlock idx id name s).1)
    (hclear : ∀ s, F s → F { s with toolPending := .empty }) {s : ClaudeState} (h : F s) :
    F (openPending s).1 := by
  refine hclear _ (Emitter.each_keeps (fun r s hs => ?_) _ h)
  by_cases hr : r.2.id = []
  · rwa [if_pos hr]
  · rw [if_neg hr]
    exact hopen _ _ _ _ hs

@[simp] theorem openPending_phase (s : ClaudeState) : phase (openPending s).1 = phase s :=
  openPending_frame (F := fun s' => phase s' = phase s)
    (fun idx id name s' hs => (openToolBlock_frame idx id name s').1.trans hs) (fun _ hs => hs) rfl

theorem emits_openPending :
    Emits (fun s body => Open s body ∧ ∀ r ∈ s.toolPending.rows, s.toolCalls.get? r.1 = none) openPending Open := by
  rintro s body ⟨h, hpending⟩
  let I : List (Nat × PendingTool) → ClaudeState → List ClaudeEvent → Prop := fun rest s body =>
    Open s body ∧ (rest.map Prod.fst).Nodup ∧ ∀ r ∈ rest, s.toolCalls.get? r.1 = none
  have hround : ∀ r rest, Emits (I (r :: rest))
      (if r.2.id = [] then Emitter.skip else openToolBlock r.1 r.2.id r.2.name) (I rest) := by
    rintro r rest s body ⟨ho, hn, hnone⟩
    obtain ⟨hr, hrest⟩ := List.nodup_cons.1 hn
    by_cases hid : r.2.id = []
    · rw [if_pos hid]
      simpa using ⟨ho, hrest, fun x hx => hnone x (List.mem_cons_of_mem _ hx)⟩
    · rw [if_neg hid]
      refine ⟨(emits_openToolBlock _ _ _ s body ⟨ho, hnone r (by simp)⟩).1, hrest, fun x hx => ?_⟩
      obtain ⟨-, -, info, hput⟩ := openToolBlock_frame r.1 r.2.id r.2.name s
      have hne : x.1 ≠ r.1 := fun heq => hr (heq ▸ List.mem_map_of_mem hx)
      have hget : (s.toolCalls.put (r.1, info)).get? x.1 = s.toolCalls.get? x.1 := Table.get?_put_ne _ hne
      rw [hput, hget]
      exact hnone x (List.mem_cons_of_mem _ hx)
  have hclear : Emits (I []) (.modify fun s => { s with toolPending := .empty }) Open :=
    Emits.modify fun s body hs => ⟨hs.1.board, hs.1.textOpen⟩
  exact (Emits.each hround _).seq hclear s body ⟨h, s.toolPending.nodup, hpending⟩

variable (json : JsonText)

@[simp] theorem closeTools_phase (s : ClaudeState) : phase (closeTools json s).1 = phase s :=
  Emitter.each_keeps (F := fun s' => phase s' = phase s) (fun _ _ hs => hs) s.toolCalls.rows rfl

theorem emits_closeTool (n : Nat) (r : Nat × ToolInfo) (rest : List (Nat × ToolInfo)) :
    Emits (fun _ body => Board n ((r :: rest).map (·.2.blockIndex)) body) (closeTool json r)
      (fun _ body => Board n (rest.map (·.2.blockIndex)) body) := by
  intro s body h
  rw [List.map_cons] at h
  unfold closeTool
  simp only
  split
  · exact h.stop
  · rw [← List.append_assoc]
    exact (h.delta (by simp) _).stop

theorem emits_closeTools :
    Emits (fun s body => Open s body ∧ Quiet s) (closeTools json) (fun s body => Board s.nextBlockIndex [] body) := by
  rintro s body ⟨h, hquiet⟩
  have hboard := h.board
  rw [liveBlocks_of_quiet hquiet] at hboard
  have hloop := Emits.each (I := fun rest _ body => Board s.nextBlockIndex (rest.map (·.2.blockIndex)) body)
    (emits_closeTool json s.nextBlockIndex) s.toolCalls.rows s body hboard
  have hnext : ((Emitter.each (closeTool json) s.toolCalls.rows) s).1.nextBlockIndex = s.nextBlockIndex :=
    Emitter.each_keeps (F := fun s' : ClaudeState => s'.nextBlockIndex = s.nextBlockIndex) (fun _ _ hs => hs) _ rfl
  show Board (Emitter.each (closeTool json) s.toolCalls.rows s).1.nextBlockIndex [] _
  rw [hnext]
  simpa [closeTools, Emitter.seq, Emitter.modify] using hloop

/-! ### One chunk -/

/-- The message is started and not closed; `q` says whether it has tool calls. -/
def Streaming (q : Prop) (s : ClaudeState) (body : List ClaudeEvent) : Prop :=
  Open s body ∧ Calls q s ∧ phase s = (true, false, [])

def Held (s : ClaudeState) (body : List ClaudeEvent) : Prop :=
  Board s.nextBlockIndex [] body ∧ s.claudeTerminalEmitted = true ∧ s.pendingFinishReason ≠ []

def Done (s : ClaudeState) (es : List ClaudeEvent) : Prop :=
  WellFormedMessage es ∧ s.claudeTerminalEmitted = true ∧ s.pendingFinishReason = []

/-- A message is started, and `P` holds of its body. -/
def Inside (P : ClaudeState → List ClaudeEvent → Prop) (s : ClaudeState)
    (es : List ClaudeEvent) : Prop :=
  ∃ id model body, es = .messageStart id model :: body ∧ P s body

variable {q : Prop}

theorem emits_inside {P Q : ClaudeState → List ClaudeEvent → Prop} {f : ClaudeEmitter}
    (h : Emits P f Q) :
    Emits (Inside P) f (Inside Q) := by
  rintro s es ⟨id, model, body, rfl, hp⟩
  obtain ⟨body', heq, hq⟩ := h.behind [.messageStart id model] s (.messageStart id model :: body) ⟨body, rfl, hp⟩
  exact ⟨id, model, body', heq, hq⟩

theorem emits_streaming {f : ClaudeEmitter} (h : Emits Open f Open) (hf : Aside f) :
    Emits (Streaming q) f (Streaming q) := by
  rintro s body ⟨ho, hc, hp⟩
  exact ⟨h s body ho, hc.congr (hf.toolCalls s) (hf.toolPending s), (hf.phase s).trans hp⟩

theorem emits_startThinkingBlock :
    Emits Open startThinkingBlock (fun s body => Open s body ∧ s.thinkingBlockStarted = true) := by
  intro s body h
  unfold startThinkingBlock
  split
  · rename_i hs
    simpa [hs] using h
  · rename_i hs
    refine ⟨⟨(h.board.start .thinking).perm ?_, h.textOpen⟩, rfl⟩
    simp only [liveBlocks, hs, if_true, Bool.false_eq_true, if_false, List.nil_append]
    exact List.perm_append_singleton _ _

theorem emits_startTextBlock :
    Emits Open startTextBlock (fun s body => Open s body ∧ s.textBlockStarted = true) := by
  intro s body h
  unfold startTextBlock
  split
  · rename_i hs
    simpa [hs] using h
  · rename_i hs
    refine ⟨⟨(h.board.start .text).perm ?_, fun _ => rfl⟩, rfl⟩
    simp only [liveBlocks, hs, if_true, Bool.false_eq_true, if_false, List.nil_append, List.append_assoc]
    exact (List.perm_append_singleton _ _).append_left _

theorem emits_emitReasoning (delta : Delta) :
    Emits (Streaming q) (emitReasoning delta) (Streaming q) := by
  unfold emitReasoning
  by_cases hr : extractReasoningText delta = []
  · simp only [if_pos hr]
    exact Emits.skip
  · simp only [if_neg hr]
    refine emits_streaming ?_ ((aside_stopTextBlock.seq aside_startThinkingBlock).seq (aside_emit _))
    refine ((emits_stopTextBlock.mono (fun _ _ h => h) fun _ _ h => h.1).seq emits_startThinkingBlock).seq ?_
    rintro s body ⟨h, hs⟩
    exact ⟨h.board.delta (by simp [liveBlocks, hs]) _, h.textOpen⟩

theorem emits_emitContent (delta : Delta) :
    Emits (Streaming q) (emitContent delta) (Streaming q) := by
  unfold emitContent
  by_cases hr : delta.content = []
  · simp only [if_pos hr]
    exact Emits.skip
  · simp only [if_neg hr]
    refine emits_streaming ?_ ((aside_stopThinkingBlock.seq aside_startTextBlock).seq (aside_emit _))
    refine ((emits_stopThinkingBlock.mono (fun _ _ h => h) fun _ _ h => h.1).seq emits_startTextBlock).seq ?_
    rintro s body ⟨h, hs⟩
    exact ⟨h.board.delta (by simp [liveBlocks, hs]) _, h.textOpen⟩

theorem Streaming.modify {k : ClaudeState → ClaudeState} {s : ClaudeState} {body : List ClaudeEvent}
    (h : Streaming q s body) (hopen : Open (k s) body) (hcalls : (k s).toolCalls = s.toolCalls)
    (hpending : (k s).toolPending = s.toolPending) (hphase : phase (k s) = phase s) :
    Streaming q (k s) body :=
  ⟨hopen, h.2.1.congr hcalls hpending, hphase.trans h.2.2⟩

theorem emits_bufferArguments (tc : ToolCallFragment) :
    Emits (Streaming q) (bufferArguments json tc) (Streaming q) := by
  refine Emits.modify fun s body h => ?_
  split
  · exact h
  · exact h.modify (k := fun s => { s with toolArgBuffers := _ }) ⟨h.1.board, h.1.textOpen⟩ rfl rfl rfl

theorem emits_startTool (idx : Nat) (id name : Text) :
    Emits (fun s body => Open s body ∧ s.toolCalls.get? idx = none ∧
        (∀ r ∈ s.toolPending.rows, s.toolCalls.get? r.1 = none) ∧ phase s = (true, false, []))
      ((openToolBlock idx id name).seq (.modify fun s => { s with toolPending := s.toolPending.erase idx }))
      (Streaming True) := by
  rintro s body ⟨ho, hnone, hpending, hp⟩
  obtain ⟨hphase, hpend, info, hcalls⟩ := openToolBlock_frame idx id name s
  have hopen := (emits_openToolBlock idx id name s body ⟨ho, hnone⟩).1
  show Streaming True { (openToolBlock idx id name s).1 with toolPending := _ } (body ++ ((openToolBlock idx id name s).2 ++ []))
  rw [List.append_nil]
  refine ⟨⟨hopen.board, hopen.textOpen⟩, ⟨?_, iff_true_intro (Or.inl ?_)⟩, hphase.trans hp⟩
  · intro r hr
    obtain ⟨hr, hne⟩ := Table.mem_erase.1 hr
    rw [hpend] at hr
    have hget : (s.toolCalls.put (idx, info)).get? r.1 = s.toolCalls.get? r.1 := Table.get?_put_ne _ hne
    show (openToolBlock idx id name s).1.toolCalls.get? r.1 = none
    rw [hcalls, hget]
    exact hpending r hr
  · show (openToolBlock idx id name s).1.toolCalls.rows ≠ []
    rw [hcalls]
    exact List.ne_nil_of_mem (Table.mem_put_self _ _)

theorem emits_emitToolStart (tc : ToolCallFragment) :
    Emits (Streaming q) (emitToolStart tc) (Streaming True) := by
  rintro s body ⟨ho, hc, hp⟩
  unfold emitToolStart
  split
  · rename_i hsome
    obtain ⟨r, hr⟩ := Option.isSome_iff_exists.1 hsome
    have hrows : s.toolCalls.rows ≠ [] := List.ne_nil_of_mem (Table.get?_mem hr)
    simpa using ⟨ho, ⟨hc.pending, iff_true_intro (Or.inl hrows)⟩, hp⟩
  · rename_i hnone
    have hnone : s.toolCalls.get? tc.idx = none := by simpa using hnone
    have hmem : (tc.idx, pendingWith s tc) ∈ (s.toolPending.put (tc.idx, pendingWith s tc)).rows := Table.mem_put_self _ _
    have hput : ∀ r ∈ (s.toolPending.put (tc.idx, pendingWith s tc)).rows, s.toolCalls.get? r.1 = none := by
      intro r hr
      obtain rfl | ⟨hr, -⟩ := Table.mem_put.1 hr
      · exact hnone
      · exact hc.pending r hr
    have hopen : Open { s with toolPending := s.toolPending.put (tc.idx, pendingWith s tc) } body :=
      ⟨ho.board, ho.textOpen⟩
    dsimp only
    split
    · exact emits_startTool tc.idx _ _ _ body ⟨hopen, hnone, hput, hp⟩
    · exact ⟨by simpa using hopen, ⟨hput, iff_true_intro (Or.inr (List.ne_nil_of_mem hmem))⟩, hp⟩

theorem Streaming.congr {q' : Prop} {s : ClaudeState} {body : List ClaudeEvent}
    (h : Streaming q s body) (hq : q ↔ q') :
    Streaming q' s body :=
  ⟨h.1, ⟨h.2.1.pending, h.2.1.some_iff.trans hq⟩, h.2.2⟩

theorem emits_emitToolCalls (delta : Delta) :
    Emits (Streaming q) (emitToolCalls json delta) (Streaming (q ∨ delta.toolCalls ≠ [])) := by
  unfold emitToolCalls
  have hround (tc : ToolCallFragment) (q : Prop) :
      Emits (Streaming q) ((emitToolStart tc).seq (bufferArguments json tc)) (Streaming True) :=
    (emits_emitToolStart tc).seq (emits_bufferArguments json tc)
  cases delta.toolCalls with
  | nil => exact Emits.skip.mono (fun _ _ h => h) fun s body h => h.congr (by simp)
  | cons tc tcs =>
    refine Emits.mono (Q := Streaming True) ?_ (fun _ _ h => h) fun s body h => h.congr (by simp)
    exact (hround tc q).seq (Emits.each (I := fun _ => Streaming True) (fun tc _ => hround tc True) tcs)

/-! ### The terminal -/

theorem emits_startMessage (now : Nat) (chunk : Chunk) :
    Emits (fun s es => phase s = (false, false, []) ∧ es = [] ∧ Quiet s ∧ s.toolCalls.rows = [] ∧ s.toolPending.rows = [])
      (startMessage now chunk) (Inside (Streaming False)) := by
  rintro s es ⟨hphase, rfl, hquiet, hcalls, hpending⟩
  simp only [phase, Prod.mk.injEq] at hphase
  unfold startMessage
  rw [if_neg (by simp [hphase.1])]
  refine ⟨_, _, [], rfl, ⟨?_, ?_⟩, ⟨?_, ?_⟩, ?_⟩
  · have hlive : liveBlocks s = [] := by rw [liveBlocks_of_quiet hquiet, hcalls, List.map_nil]
    exact Board.nil.perm (by rw [← hlive]; rfl)
  · intro hs
    exact absurd hs (by simp [hquiet.2])
  · simp [hpending]
  · simp [hcalls, hpending]
  · simp [phase, hphase]

theorem startMessage_of_sent {s : ClaudeState} (h : s.messageStartSent = true) (now : Nat)
    (chunk : Chunk) :
    startMessage now chunk s = (s, []) := by
  unfold startMessage
  rw [if_pos h]

theorem quiet_openToolBlock {idx : Nat} {id name : Text} {s : ClaudeState} (h : Quiet s) :
    Quiet (openToolBlock idx id name s).1 := by
  have hthinking : stopThinkingBlock s = (s, []) := by simp [stopThinkingBlock, h.1]
  have htext : stopTextBlock s = (s, []) := by simp [stopTextBlock, h.2]
  have hopen : (openToolBlock idx id name s).1 = { s with
      nextBlockIndex := s.nextBlockIndex + 1
      toolCalls := s.toolCalls.put (idx, ⟨id, name, s.nextBlockIndex⟩) } := by
    simp [openToolBlock, Emitter.seq_apply, hthinking, htext]
  rw [hopen]
  exact h

def Ending (s : ClaudeState) : Prop :=
  (∀ r ∈ s.toolPending.rows, s.toolCalls.get? r.1 = none) ∧ phase s = (true, true, [])

theorem emits_setTerminal :
    Emits (Streaming q) (.modify fun s => { s with claudeTerminalEmitted := true }) (fun s body => Open s body ∧ Ending s) := by
  refine Emits.modify fun s body h => ⟨⟨h.1.board, h.1.textOpen⟩, h.2.1.pending, ?_⟩
  have hphase := h.2.2
  simp only [phase, Prod.mk.injEq] at hphase ⊢
  exact ⟨hphase.1, trivial, hphase.2.2⟩

theorem ending_stopBlocks {s : ClaudeState} (h : Ending s) :
    Ending ((stopThinkingBlock.seq stopTextBlock) s).1 := by
  refine ⟨?_, (aside_stopBlocks.phase s).trans h.2⟩
  rw [aside_stopBlocks.toolCalls, aside_stopBlocks.toolPending]
  exact h.1

theorem emits_finishBlocks {reason : Text} (hreason : reason ≠ []) :
    Emits (Streaming q) (finishBlocks json reason) Held := by
  have hstops : Emits (fun s body => Open s body ∧ Ending s) (stopThinkingBlock.seq stopTextBlock)
      (fun s body => (Open s body ∧ Quiet s) ∧ Ending s) := emits_stopBlocks.frame fun _ => ending_stopBlocks
  have hframe : Emits (fun s body => (Open s body ∧ ∀ r ∈ s.toolPending.rows, s.toolCalls.get? r.1 = none) ∧
      (Quiet s ∧ phase s = (true, true, []))) openPending (fun s body => Open s body ∧ (Quiet s ∧ phase s = (true, true, []))) :=
    emits_openPending.frame fun s h => ⟨openPending_frame (fun _ _ _ _ => quiet_openToolBlock) (fun _ h => h) h.1,
      (openPending_phase s).trans h.2⟩
  have hpending : Emits (fun s body => (Open s body ∧ Quiet s) ∧ Ending s) openPending
      (fun s body => (Open s body ∧ Quiet s) ∧ phase s = (true, true, [])) :=
    hframe.mono (fun s body h => ⟨⟨h.1.1, h.2.1⟩, h.1.2, h.2.2⟩) fun s body h => ⟨⟨h.1, h.2.1⟩, h.2.2⟩
  have hclose : Emits (fun s body => (Open s body ∧ Quiet s) ∧ phase s = (true, true, [])) (closeTools json)
      (fun s body => Board s.nextBlockIndex [] body ∧ phase s = (true, true, [])) :=
    (emits_closeTools json).frame fun s h => (closeTools_phase json s).trans h
  have hnote : Emits (fun s body => Board s.nextBlockIndex [] body ∧ phase s = (true, true, []))
      (.modify fun s => { s with finishReason := reason, pendingFinishReason := reason }) Held := by
    refine Emits.modify fun s body h => ⟨h.1, ?_, hreason⟩
    have hphase := h.2
    simp only [phase, Prod.mk.injEq] at hphase
    exact hphase.2.1
  unfold finishBlocks
  rw [Emitter.seq_assoc _ stopThinkingBlock]
  exact (((emits_setTerminal.seq hstops).seq hpending).seq hclose).seq hnote

theorem emits_drainBlocks :
    Emits (Streaming q) (drainBlocks json) (fun s body => Board s.nextBlockIndex [] body ∧ phase s = (true, true, [])) := by
  have hframe : Emits (fun s body => (Open s body ∧ ∀ r ∈ s.toolPending.rows, s.toolCalls.get? r.1 = none) ∧
      phase s = (true, true, [])) openPending (fun s body => Open s body ∧ phase s = (true, true, [])) :=
    emits_openPending.frame fun s h => (openPending_phase s).trans h
  have hpending : Emits (fun s body => Open s body ∧ Ending s) openPending
      (fun s body => Open s body ∧ phase s = (true, true, [])) :=
    hframe.mono (fun s body h => ⟨⟨h.1, h.2.1⟩, h.2.2⟩) fun _ _ h => h
  have hstops : Emits (fun s body => Open s body ∧ phase s = (true, true, [])) (stopThinkingBlock.seq stopTextBlock)
      (fun s body => (Open s body ∧ Quiet s) ∧ phase s = (true, true, [])) :=
    emits_stopBlocks.frame fun s h => (aside_stopBlocks.phase s).trans h
  have hclose : Emits (fun s body => (Open s body ∧ Quiet s) ∧ phase s = (true, true, [])) (closeTools json)
      (fun s body => Board s.nextBlockIndex [] body ∧ phase s = (true, true, [])) :=
    (emits_closeTools json).frame fun s h => (closeTools_phase json s).trans h
  unfold drainBlocks
  rw [Emitter.seq_assoc _ stopThinkingBlock]
  exact ((emits_setTerminal.seq hpending).seq hstops).seq hclose

theorem wellFormed_terminal {id model : Text} {n : Nat} {body : List ClaudeEvent}
    (h : Board n [] body) (reason : Text) (usage : ClaudeUsage) :
    WellFormedMessage (ClaudeEvent.messageStart id model :: body ++ [ClaudeEvent.messageDelta reason usage, .messageStop]) :=
  ⟨id, model, body, reason, usage, rfl, h.blocks, h.stopped⟩

theorem emits_heldTerminal : Emits (Inside Held) emitDeferredTerminal Done := by
  rintro s es ⟨id, model, body, rfl, hboard, hterminal, hreason⟩
  unfold emitDeferredTerminal
  rw [if_neg hreason]
  exact ⟨wellFormed_terminal hboard _ _, hterminal, rfl⟩

/-! ### Runs -/

def Ends (chunks : List (Nat × Chunk)) : Prop :=
  ∃ c ∈ chunks, ∃ choice, c.2.choices.head? = some choice ∧ (choice.finishReason ≠ [] ∨ choice.delta.toolCalls ≠ [])

theorem ends_snoc (seen : List (Nat × Chunk)) (c : Nat × Chunk) :
    Ends (seen ++ [c]) ↔ Ends seen ∨
      ∃ choice, c.2.choices.head? = some choice ∧ (choice.finishReason ≠ [] ∨ choice.delta.toolCalls ≠ []) := by
  constructor
  · rintro ⟨x, hx, hends⟩
    obtain hx | hx := List.mem_append.1 hx
    · exact Or.inl ⟨x, hx, hends⟩
    · obtain rfl := List.mem_singleton.1 hx
      exact Or.inr hends
  · rintro (⟨x, hx, hends⟩ | hends)
    · exact ⟨x, List.mem_append_left _ hx, hends⟩
    · exact ⟨c, by simp, hends⟩

def Idle (s : ClaudeState) (es : List ClaudeEvent) : Prop :=
  phase s = (false, false, []) ∧ es = [] ∧ Quiet s ∧ s.toolCalls.rows = [] ∧ s.toolPending.rows = []

/-- Where a stream can be after the chunks `seen`. -/
inductive Reached (seen : List (Nat × Chunk)) (s : ClaudeState) (es : List ClaudeEvent) : Prop where
  | idle (h : Idle s es) (hseen : ¬ Ends seen)
  | streaming (h : Inside (Streaming (Ends seen)) s es)
  | held (h : Inside Held s es) (hseen : Ends seen)
  | done (h : Done s es) (hseen : Ends seen)

theorem Reached.track {seen : List (Nat × Chunk)} {s : ClaudeState} {es : List ClaudeEvent}
    (h : Reached seen s es)
    (usage : Option ClaudeUsage) : Reached seen { s with usage := usage } es := by
  cases h with
  | idle h hseen => exact .idle h hseen
  | streaming h =>
    obtain ⟨id, model, body, rfl, ho, hc, hp⟩ := h
    exact .streaming ⟨id, model, body, rfl, ⟨ho.board, ho.textOpen⟩, hc.congr rfl rfl, hp⟩
  | held h hseen => exact .held h hseen
  | done h hseen => exact .done h hseen

theorem trackUsage_eq (usage : UsageField) (s : ClaudeState) :
    ∃ u, trackUsage usage s = ({ s with usage := u }, []) := by
  cases usage with
  | reported usage => exact ⟨some (readUsage usage), rfl⟩
  | _ => exact ⟨s.usage, rfl⟩

theorem emits_begin (now : Nat) (chunk : Chunk) :
    Emits (fun s es => (Idle s es ∧ ¬ q) ∨ Inside (Streaming q) s es) (startMessage now chunk) (Inside (Streaming q)) := by
  rintro s es (⟨h, hq⟩ | h)
  · obtain ⟨id, model, body, heq, hs⟩ := emits_startMessage now chunk s es h
    exact ⟨id, model, body, heq, hs.congr (by simp [hq])⟩
  · obtain ⟨id, model, body, rfl, ho, hc, hp⟩ := h
    have hsent : s.messageStartSent = true := congrArg Prod.fst hp
    rw [startMessage_of_sent hsent, List.append_nil]
    exact ⟨id, model, body, rfl, ho, hc, hp⟩

theorem emits_emitChoice (seen : List (Nat × Chunk)) (now : Nat) (chunk : Chunk) (choice : Choice)
    (hchoice : chunk.choices.head? = some choice) :
    Emits (fun s es => (Idle s es ∧ ¬ Ends seen) ∨ Inside (Streaming (Ends seen)) s es) (emitChoice json now chunk choice)
      (Reached (seen ++ [(now, chunk)])) := by
  have hbody := ((emits_inside (emits_emitReasoning (q := Ends seen) choice.delta)).seq
    (emits_inside (emits_emitContent choice.delta))).seq (emits_inside (emits_emitToolCalls json choice.delta))
  have hends : Ends (seen ++ [(now, chunk)]) ↔
      Ends seen ∨ (choice.finishReason ≠ [] ∨ choice.delta.toolCalls ≠ []) := by
    rw [ends_snoc]
    simp [hchoice]
  unfold emitChoice
  refine Emits.seq (Q := Inside (Streaming (Ends seen ∨ choice.delta.toolCalls ≠ []))) ?_ ?_
  · rw [Emitter.seq_assoc, Emitter.seq_assoc, ← Emitter.seq_assoc (emitReasoning _)]
    exact (emits_begin now chunk).seq hbody
  · by_cases hfinish : choice.finishReason = []
    · rw [if_pos hfinish]
      refine Emits.skip.mono (fun _ _ h => h) fun s es h => .streaming ?_
      obtain ⟨id, model, body, heq, hs⟩ := h
      exact ⟨id, model, body, heq, hs.congr (by simp [hends, hfinish])⟩
    · rw [if_neg hfinish]
      have hseen : Ends (seen ++ [(now, chunk)]) := hends.2 (Or.inr (Or.inl hfinish))
      refine (emits_inside (emits_finishBlocks json hfinish)).seq ?_
      by_cases husage : chunk.usage = .null
      · rw [if_pos husage]
        exact Emits.skip.mono (fun _ _ h => h) fun s es h => .held h hseen
      · rw [if_neg husage]
        exact emits_heldTerminal.mono (fun _ _ h => h) fun s es h => .done h hseen

theorem emitDeferredTerminal_of_empty {s : ClaudeState} (h : s.pendingFinishReason = []) :
    emitDeferredTerminal s = (s, []) := by
  unfold emitDeferredTerminal
  rw [if_pos h]

theorem Idle.empty {s : ClaudeState} {es : List ClaudeEvent} (h : Idle s es) :
    s.claudeTerminalEmitted = false ∧ s.pendingFinishReason = [] := by
  have hphase := h.1
  simp only [phase, Prod.mk.injEq] at hphase
  exact hphase.2

theorem Streaming.empty {s : ClaudeState} {es : List ClaudeEvent} (h : Inside (Streaming q) s es) :
    s.claudeTerminalEmitted = false ∧ s.pendingFinishReason = [] := by
  obtain ⟨_, _, _, _, _, _, hphase⟩ := h
  simp only [phase, Prod.mk.injEq] at hphase
  exact hphase.2

/-- **Step.** One chunk leads from where a stream can be to where it can be. -/
theorem emits_chunk (seen : List (Nat × Chunk)) (now : Nat) (chunk : Chunk) :
    Emits (Reached seen) (openaiToClaudeChunk json now chunk) (Reached (seen ++ [(now, chunk)])) := by
  have hmono : Ends seen → Ends (seen ++ [(now, chunk)]) := fun h => (ends_snoc _ _).2 (Or.inl h)
  refine Emits.seq (Q := Reached seen) ?_ ?_
  · intro s es h
    obtain ⟨u, hu⟩ := trackUsage_eq chunk.usage s
    rw [hu, List.append_nil]
    exact h.track u
  · intro s es h
    cases hchoice : chunk.choices.head? with
    | none =>
      have hsame : Ends (seen ++ [(now, chunk)]) ↔ Ends seen := by
        rw [ends_snoc]
        simp [hchoice]
      dsimp only
      cases h with
      | idle h hseen =>
        rw [emitDeferredTerminal_of_empty h.empty.2, List.append_nil]
        exact .idle h (by rwa [hsame])
      | streaming h =>
        rw [emitDeferredTerminal_of_empty (Streaming.empty h).2, List.append_nil]
        obtain ⟨id, model, body, heq, hs⟩ := h
        exact .streaming ⟨id, model, body, heq, hs.congr hsame.symm⟩
      | held h hseen => exact .done (emits_heldTerminal s es h) (hmono hseen)
      | done h hseen =>
        rw [emitDeferredTerminal_of_empty h.2.2, List.append_nil]
        exact .done h (hmono hseen)
    | some choice =>
      have hlive := emits_emitChoice json seen now chunk choice hchoice s es
      dsimp only
      cases h with
      | idle h hseen =>
        rw [if_neg (by simp [h.empty.1])]
        exact hlive (Or.inl ⟨h, hseen⟩)
      | streaming h =>
        rw [if_neg (by simp [(Streaming.empty h).1])]
        exact hlive (Or.inr h)
      | held h hseen =>
        obtain ⟨id, model, body, heq, hs⟩ := h
        rw [if_pos hs.2.1, List.append_nil]
        exact .held ⟨id, model, body, heq, hs⟩ (hmono hseen)
      | done h hseen =>
        rw [if_pos h.2.1, List.append_nil]
        exact .done h (hmono hseen)

/-- **Run.** -/
theorem emits_chunks (chunks : List (Nat × Chunk)) :
    Reached chunks (claudeChunks json chunks {}).1 (claudeChunks json chunks {}).2 := by
  induction chunks using List.reverseRecOn with
  | nil => exact .idle ⟨rfl, rfl, ⟨rfl, rfl⟩, rfl, rfl⟩ (by rintro ⟨c, hc, -⟩; simp at hc)
  | append_singleton chunks c ih =>
    have hsnoc : claudeChunks json (chunks ++ [c]) = (claudeChunks json chunks).seq (openaiToClaudeChunk json c.1 c.2) := by
      unfold claudeChunks
      rw [Emitter.each_append, Emitter.each_cons]
      funext s
      simp [Emitter.seq_apply, openaiToClaudeResponse]
    rw [hsnoc]
    exact emits_chunk json chunks c.1 c.2 _ _ ih

theorem WellFormedMessage.getLast? {es : List ClaudeEvent}
    (h : WellFormedMessage es) : es.getLast? = some .messageStop := by
  obtain ⟨id, model, body, reason, usage, rfl, -⟩ := h
  rw [List.getLast?_append]
  rfl

theorem UnfinishedMessage.not_wellFormed {es : List ClaudeEvent}
    (h : UnfinishedMessage es) : ¬ WellFormedMessage es := by
  obtain ⟨id, model, body, rfl, hbody⟩ := h
  intro hw
  have hlast : ClaudeEvent.messageStop ∈ ClaudeEvent.messageStart id model :: body := List.mem_of_getLast? hw.getLast?
  obtain hstart | hmem := List.mem_cons.1 hlast
  · cases hstart
  · exact absurd (hbody.onlyBlocks _ hmem) (by simp [ClaudeEvent.mark?])

theorem emits_drainToolBlocks :
    Emits (Inside (Streaming q)) (drainToolBlocks json) (fun _ es => WellFormedMessage es) := by
  refine (emits_inside (emits_drainBlocks json)).seq ?_
  rintro s es ⟨id, model, body, rfl, hboard, -⟩
  exact wellFormed_terminal hboard _ _

/-- **The stream is one well-formed message exactly if some chunk finishes its choice or
calls a tool.** Otherwise the flush adds nothing, and the client is left in the middle of
the message, if there is one. -/
theorem claudeStream_wellFormed (chunks : List (Nat × Chunk)) (now : Nat) :
    (WellFormedMessage (claudeStream json chunks now {}).2 ↔ Ends chunks) ∧
      (¬ Ends chunks → (claudeStream json chunks now {}).2 = (claudeChunks json chunks {}).2 ∧
        ((claudeChunks json chunks {}).2 = [] ∨ UnfinishedMessage (claudeChunks json chunks {}).2)) := by
  have hreached := emits_chunks json chunks
  have hstream : (claudeStream json chunks now {}).2 =
      (claudeChunks json chunks {}).2 ++ (drainToolBlocksAtFlush json (claudeChunks json chunks {}).1).2 := rfl
  rw [hstream]
  generalize (claudeChunks json chunks {}).1 = s at hreached ⊢
  generalize (claudeChunks json chunks {}).2 = es at hreached ⊢
  unfold drainToolBlocksAtFlush
  cases hreached with
  | idle h hseen =>
    obtain ⟨hterminal, hreason⟩ := h.empty
    obtain ⟨-, rfl, -, hcalls, hpending⟩ := h
    rw [if_neg (by simp [hreason]), if_neg (by simp [hterminal]), if_pos ⟨hcalls, hpending⟩]
    refine ⟨⟨fun h => absurd h.getLast? (by simp), fun h => absurd h hseen⟩, fun _ => ⟨rfl, Or.inl rfl⟩⟩
  | streaming h =>
    obtain ⟨hterminal, hreason⟩ := Streaming.empty h
    rw [if_neg (by simp [hreason]), if_neg (by simp [hterminal])]
    obtain ⟨id, model, body, rfl, hs⟩ := h
    by_cases hends : Ends chunks
    · rw [if_neg fun hnone => (hs.2.1.some_iff.2 hends).elim (fun h => h hnone.1) fun h => h hnone.2]
      have hw := emits_drainToolBlocks json s _ ⟨id, model, body, rfl, hs⟩
      exact ⟨iff_of_true hw hends, fun h => absurd hends h⟩
    · have hnone : s.toolCalls.rows = [] ∧ s.toolPending.rows = [] := by
        by_contra hcalls
        rw [Decidable.not_and_iff_not_or_not] at hcalls
        exact hends (hs.2.1.some_iff.1 hcalls)
      have hunfinished : UnfinishedMessage (.messageStart id model :: body) := ⟨id, model, body, rfl, hs.1.board.blocks⟩
      rw [if_pos hnone, List.append_nil]
      exact ⟨iff_of_false hunfinished.not_wellFormed hends, fun _ => ⟨rfl, Or.inr hunfinished⟩⟩
  | held h hseen =>
    have hreason : s.pendingFinishReason ≠ [] := by
      obtain ⟨_, _, _, _, hs⟩ := h
      exact hs.2.2
    rw [if_pos hreason]
    exact ⟨iff_of_true (emits_heldTerminal s es h).1 hseen, fun h => absurd hseen h⟩
  | done h hseen =>
    rw [if_neg (by simp [h.2.2]), if_pos h.2.1, List.append_nil]
    exact ⟨iff_of_true h.1 hseen, fun h => absurd hseen h⟩

def textOnly : List (Nat × Chunk) :=
  [(0, { id := "chatcmpl-abc12345".toList, choices := [{ delta := { content := "hi".toList } }] })]

/-- Its block stays open, and no terminal follows. -/
theorem textOnly_unfinished :
    (claudeStream noJson textOnly 0 {}).2 = [.messageStart "abc12345".toList "unknown".toList, .contentBlockStart 0 .text,
      .contentBlockDelta 0 (.textDelta "hi".toList)] ∧ ¬ WellFormedMessage (claudeStream noJson textOnly 0 {}).2 := by
  have hevents : (claudeStream noJson textOnly 0 {}).2 = [.messageStart "abc12345".toList "unknown".toList,
      .contentBlockStart 0 .text, .contentBlockDelta 0 (.textDelta "hi".toList)] := by decide +kernel
  refine ⟨hevents, fun h => ?_⟩
  rw [hevents] at h
  exact absurd h.getLast? (by decide)

end TokenProxy.Translator
