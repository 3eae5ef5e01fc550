import TokenProxy.Streaming.Replay

/-!
# A peek loses no byte

The body that a peek returns replays the upstream. A peek that returns no body, or throws, has
disposed of its reader. And what it finds out depends on the bytes, not on how they are cut.
-/

namespace TokenProxy.Streaming

open Lib (ServerEvent Utf8Decoder)
open Translator (Text)

universe u

variable {ε : Type u} {π : Type}

/-! ### What the loop leaves -/

/-- What holds of the chunks `all` of an upstream when the loop over them stops. -/
structure Peeked.Sound (all : List Chunk) (p : Peeked ε) : Prop where
  read : p.rawChunks <+: all
  kept : p.stop ≠ .timedOut → p.stop ≠ .aborted → p.rawChunks ++ p.reader.rest = all
  done : p.stop = .done → p.reader.rest = []
  live : p.stop ≠ .done → p.stop ≠ .readError → p.reader.state = .readable ∧ p.reader.released = false
  dead : p.reader.state = .readable ∧ p.reader.released = false ∨ p.reader.state ≠ .readable ∧ p.reader.rest = []
  failed : p.readError.isSome = true ↔ p.stop = .readError
  barren : p.stop = .readError → p.verdict.hasContent = false
  found : p.stop = .decided → p.verdict.decided = true

section

variable (parser : EventParser π) (js : Builtins) (options : PeekOptions)

theorem peekEnd_sound {decoder : SseDecoder π} {rawChunks : List Chunk} {v : Verdict} {r : Reader ε}
    (hstate : r.state = .readable) (hrest : r.rest = []) (hheld : r.released = false) :
    (peekEnd parser js options decoder rawChunks v r).Sound rawChunks := by
  unfold peekEnd
  cases hend : r.ending with
  | done =>
    rw [Reader.read_done hstate hrest hend]
    simp only
    split <;> constructor <;> simp [Reader.release, hrest]
  | fails e =>
    rw [Reader.read_failed hstate hrest hend]
    constructor <;> simp [hrest]
  | silent =>
    rw [Reader.read_pending hstate hrest hend]
    constructor <;> simp [hrest, hstate, hheld]

theorem peekLoop_sound {race : Nat → Race} {decoder : SseDecoder π} {rawChunks : List Chunk}
    {n : Nat} {v : Verdict} {r : Reader ε}
    (hstate : r.state = .readable) (hheld : r.released = false) (rest : List Chunk) :
    (peekLoop parser js options race decoder rawChunks n v r rest).Sound (rawChunks ++ rest) := by
  induction rest generalizing race decoder rawChunks n v with
  | nil =>
    unfold peekLoop
    rw [List.append_nil]
    split
    · constructor <;> simp [hstate, hheld]
    · constructor <;> simp [hstate, hheld]
    · constructor <;> simp [hstate, hheld]
    · exact peekEnd_sound parser js options hstate rfl hheld
  | cons chunk rest ih =>
    unfold peekLoop
    split
    · constructor <;> simp [hstate, hheld]
    · constructor <;> simp [hstate, hheld]
    · constructor <;> simp [hstate, hheld]
    · simp only
      split
      · constructor <;> simp [hstate, hheld]
      split
      · rename_i hdecided
        constructor <;> simp [hstate, hheld, hdecided]
      split
      · constructor <;> simp [hstate, hheld, Verdict.decided]
      · rw [List.append_cons]
        exact ih

theorem peekLoop_notAborted {decoder : SseDecoder π} {rawChunks : List Chunk} {n : Nat}
    {v : Verdict} {r : Reader ε}
    (rest : List Chunk) : (peekLoop parser js options (fun _ => .read) decoder rawChunks n v r rest).stop ≠ .aborted := by
  induction rest generalizing decoder rawChunks n v with
  | nil =>
    unfold peekLoop peekEnd
    simp only
    split
    · split <;> simp
    · simp
    · simp
  | cons chunk rest ih =>
    unfold peekLoop
    simp only
    split
    · simp
    split
    · simp
    split
    · simp
    · exact ih

theorem peekBody_sound (race : Nat → Race) (body : Upstream ε) :
    (peekBody parser js options race body).Sound body.chunks := by
  have h : (peekBody parser js options race body).Sound ([] ++ body.chunks) :=
    peekLoop_sound parser js options (r := body.reader) rfl rfl body.chunks
  exact h

end

/-- What the replay body delivers in the end: after a timeout the chunks that
were read, else everything. -/
def Peeked.replayed (all : List Chunk) (p : Peeked ε) : List Chunk := if p.stop = .timedOut then p.rawChunks else all

theorem Peeked.Sound.replay {all : List Chunk} {p : Peeked ε} (h : p.Sound all)
    (haborted : p.stop ≠ .aborted)
    (herror : p.stop ≠ .readError) : p.replay.Sound (p.replayed all) := by
  unfold Peeked.replay createReplayBody Peeked.settled Peeked.replayed
  cases hstop : p.stop with
  | decided =>
    have hall := h.kept (by simp [hstop]) (by simp [hstop])
    exact ⟨by simpa [Replay.left] using hall, fun _ => (h.live (by simp [hstop]) (by simp [hstop])).1, by simp [Replay.ended], by simp⟩
  | done =>
    have hall := h.kept (by simp [hstop]) (by simp [hstop])
    rw [h.done hstop, List.append_nil] at hall
    by_cases hraw : p.rawChunks = [] <;> refine ⟨?_, ?_, ?_, ?_⟩ <;> simp [Replay.left, Replay.ended, hraw, ← hall]
  | timedOut =>
    by_cases hraw : p.rawChunks = [] <;> refine ⟨?_, ?_, ?_, ?_⟩ <;> simp [Replay.left, Replay.ended, hraw]
  | aborted => exact absurd hstop haborted
  | readError => exact absurd hstop herror

/-! ### Disposing of the reader -/

/-- The body was told to stop, nothing of it can be read any more, and its source knows
unless it had ended by itself. -/
structure Reader.Disposed (r : Reader ε) : Prop where
  told : 0 < r.cancels
  unreadable : r.state ≠ .readable
  stopped : r.stopped = true ∨ r.rest = []

theorem Reader.cancelBody_disposed {r : Reader ε}
    (h : r.state = .readable ∨ r.rest = []) : r.cancelBody.Disposed := by
  unfold Reader.cancelBody
  split
  · exact ⟨Nat.succ_pos _, by simp, Or.inl rfl⟩
  · rename_i hstate
    exact ⟨Nat.succ_pos _, hstate, Or.inr (h.resolve_left hstate)⟩

theorem Reader.Disposed.cancelReader {r : Reader ε} (h : r.Disposed) : r.cancelReader.Disposed := by
  unfold Reader.cancelReader
  split
  · exact ⟨Nat.succ_pos _, h.unreadable, h.stopped⟩
  · unfold Reader.cancelBody
    split
    · rename_i hstate
      exact absurd hstate h.unreadable
    · exact ⟨Nat.succ_pos _, h.unreadable, h.stopped⟩

theorem Reader.cancelReader_disposed {r : Reader ε}
    (h : r.state = .readable ∧ r.released = false ∨ r.state ≠ .readable ∧ r.rest = []) :
    r.cancelReader.Disposed := by
  unfold Reader.cancelReader
  rcases h with ⟨hstate, hheld⟩ | ⟨hstate, hrest⟩
  · have hbody := Reader.cancelBody_disposed (r := r) (Or.inl hstate)
    rw [if_neg (by simp [hheld])]
    exact ⟨hbody.told, hbody.unreadable, hbody.stopped⟩
  · split
    · exact ⟨Nat.succ_pos _, hstate, Or.inr hrest⟩
    · have hbody := Reader.cancelBody_disposed (r := r) (Or.inr hrest)
      exact ⟨hbody.told, hbody.unreadable, hbody.stopped⟩

theorem Peeked.Sound.settled {all : List Chunk} {p : Peeked ε}
    (h : p.Sound all) : p.settled.cancelReader.Disposed := by
  unfold Peeked.settled
  split
  · exact (Reader.cancelReader_disposed h.dead).cancelReader
  · exact Reader.cancelReader_disposed h.dead

/-! ### The verdict -/

def PeekOutcome.verdict : PeekOutcome ε → Option Verdict
  | .aborted _ => none
  | .returned result => some { hasContent := result.hasContent, upstreamError := result.upstreamError }

theorem Verdict.eq_of_not_decided {v : Verdict} (h : v.decided = false) : v = {} := by
  obtain ⟨hasContent, upstreamError⟩ := v
  simpa [Verdict.decided, Option.isSome_eq_false_iff] using h

section

variable {parser : EventParser π} (js : Builtins) (options : PeekOptions)

theorem TextDecoder.decode_append (d : TextDecoder) (xs ys : Chunk) :
    d.decode (xs ++ ys) = (((d.decode xs).1.decode ys).1, (d.decode xs).2 ++ ((d.decode xs).1.decode ys).2) := by
  unfold TextDecoder.decode
  rw [Lib.Utf8Decoder.decode_append]
  generalize (d.utf8.decode xs).2 = cs
  generalize (d.utf8.decode xs).1 = u
  generalize (u.decode ys).2 = cs'
  refine Prod.ext ?_ ?_
  · cases cs <;> simp
  · cases cs with
    | nil => simp [TextDecoder.unmarked]
    | cons c cs => by_cases hmark : c = byteOrderMark <;> cases hstarted : d.started <;> simp [TextDecoder.unmarked, hmark, hstarted]

theorem SseDecoder.feed_append (hp : parser.Incremental) (d : SseDecoder π) (xs ys : Chunk) :
    d.feed parser (xs ++ ys) =
      (((d.feed parser xs).1.feed parser ys).1, (d.feed parser xs).2 ++ ((d.feed parser xs).1.feed parser ys).2) := by
  unfold SseDecoder.feed
  by_cases hxs : xs = []
  · simp [hxs]
  by_cases hys : ys = []
  · simp [hxs, hys]
  have hparser := hp d.parser (d.text.decode xs).2 ((d.text.decode xs).1.decode ys).2
  simp only [List.append_eq_nil_iff, hxs, hys, false_and, if_false, TextDecoder.decode_append, hparser]

theorem onEvent_decided {v : Verdict} (h : v.decided = true) (events : List ServerEvent) :
    events.foldlM (onEvent js options) v = .ok v := by
  induction events with
  | nil => rfl
  | cons e events ih =>
    rw [List.foldlM_cons, onEvent, if_pos h]
    exact ih

def judge (parser : EventParser π) (d : SseDecoder π) (bytes : Chunk)
    (ending : Ending ε) : Verdict :=
  match (d.feed parser bytes).2.foldlM (onEvent js options) {} with
  | .error _ => {}
  | .ok v =>
    match v.decided, ending with
    | false, .done =>
      match ((d.feed parser bytes).1.finish parser).foldlM (onEvent js options) {} with
      | .ok v => v
      | .error _ => {}
    | _, _ => v

theorem peekEnd_verdict {d : SseDecoder π} {rawChunks : List Chunk} {r : Reader ε}
    (hstate : r.state = .readable) (hrest : r.rest = []) :
    (peekEnd parser js options d rawChunks {} r).verdict = judge js options parser d [] r.ending := by
  unfold peekEnd judge
  simp only [SseDecoder.feed, if_true, List.foldlM_nil]
  cases hend : r.ending with
  | done =>
    rw [Reader.read_done hstate hrest hend]
    simp only [pure, Except.pure, Verdict.decided]
    cases (d.finish parser).foldlM (onEvent js options) {} <;> rfl
  | fails e =>
    rw [Reader.read_failed hstate hrest hend]
    rfl
  | silent =>
    rw [Reader.read_pending hstate hrest hend]
    rfl

theorem peekLoop_verdict (hp : parser.Incremental) {d : SseDecoder π} {rawChunks : List Chunk}
    {n : Nat} {r : Reader ε}
    (hstate : r.state = .readable) {rest : List Chunk} (hcap : n + rest.flatten.length < peekMaxBytes) :
    (peekLoop parser js options (fun _ => .read) d rawChunks n {} r rest).verdict = judge js options parser d rest.flatten r.ending := by
  induction rest generalizing d rawChunks n with
  | nil => exact peekEnd_verdict js options hstate rfl
  | cons chunk rest ih =>
    have hbytes : n + chunk.length + rest.flatten.length < peekMaxBytes := by
      rw [List.flatten_cons, List.length_append] at hcap
      omega
    unfold peekLoop judge
    simp only [List.flatten_cons, SseDecoder.feed_append hp, List.foldlM_append]
    cases hfed : (d.feed parser chunk).2.foldlM (onEvent js options) {} with
    | error e => rfl
    | ok v =>
      simp only [bind, Except.bind]
      cases hv : v.decided with
      | true => simp only [onEvent_decided js options hv, hv, if_true]
      | false =>
        obtain rfl := Verdict.eq_of_not_decided hv
        rw [if_neg (by simp), if_neg (by omega)]
        exact ih hbytes

end

/-! ### The claim -/

theorem conclude_body {all : List Chunk} {p : Peeked ε} {options : PeekOptions} (h : p.Sound all)
    {result : PeekResult ε}
    (hr : p.conclude options = .returned result) {body : Replay ε} (hb : result.body = some body) :
    body = p.replay ∧ p.stop ≠ .aborted ∧ p.stop ≠ .readError := by
  unfold Peeked.conclude at hr
  split at hr
  · cases hr
  rename_i haborted
  split at hr
  · rename_i hcontent
    cases hr
    exact ⟨(Option.some.inj hb).symm, haborted, fun herror => by simp [h.barren herror] at hcontent⟩
  split at hr
  · cases hr
    cases hb
  · rename_i hpreserved
    cases hr
    exact ⟨(Option.some.inj hb).symm, haborted, fun herror => hpreserved (Or.inl (h.failed.2 herror))⟩

theorem conclude_noBody {all : List Chunk} {p : Peeked ε} {options : PeekOptions} (h : p.Sound all)
    {result : PeekResult ε}
    (hr : p.conclude options = .returned result) (hb : result.body = none) :
    ∃ r, result.reader = some r ∧ r.Disposed := by
  unfold Peeked.conclude at hr
  split at hr
  · cases hr
  split at hr
  · cases hr
    cases hb
  split at hr
  · cases hr
    exact ⟨_, rfl, h.settled⟩
  · cases hr
    cases hb

theorem conclude_aborted {all : List Chunk} {p : Peeked ε} {options : PeekOptions} (h : p.Sound all)
    {reader : Option (Reader ε)}
    (hr : p.conclude options = .aborted reader) : ∃ r, reader = some r ∧ r.Disposed := by
  unfold Peeked.conclude at hr
  split at hr
  · rename_i haborted
    cases hr
    refine ⟨_, rfl, ?_⟩
    rw [Peeked.settled, if_pos (Or.inr haborted)]
    exact Reader.cancelReader_disposed h.dead
  all_goals first | cases hr | (split at hr <;> first | cases hr | (split at hr <;> cases hr))

def Verdict.reported (v : Verdict) : Verdict := if v.hasContent then { hasContent := true } else v

theorem conclude_verdict {p : Peeked ε} {options : PeekOptions} (haborted : p.stop ≠ .aborted) :
    (p.conclude options).verdict = some p.verdict.reported := by
  unfold Peeked.conclude Verdict.reported
  rw [if_neg haborted]
  cases hcontent : p.verdict.hasContent with
  | true => rfl
  | false =>
    rw [if_neg Bool.false_ne_true, if_neg Bool.false_ne_true]
    have hv : ({ upstreamError := p.verdict.upstreamError } : Verdict) = p.verdict := Verdict.ext hcontent.symm rfl
    split <;> exact congrArg some hv

theorem inTime_verdict {parser : EventParser π} (hp : parser.Incremental) (js : Builtins)
    (options : PeekOptions)
    (contentType : Text) {upstream : Upstream ε} (hcap : upstream.chunks.flatten.length < peekMaxBytes) :
    (peekStreamForContent parser js options false (fun _ => .read) ⟨contentType, some upstream⟩).verdict =
      some (if isEventStream contentType then
          (judge js options parser (createSseDecoder parser) upstream.chunks.flatten upstream.ending).reported
        else { hasContent := true }) := by
  have hloop : (peekBody parser js options (fun _ => .read) upstream).verdict =
      judge js options parser (createSseDecoder parser) upstream.chunks.flatten upstream.ending := by
    unfold peekBody
    exact peekLoop_verdict js options hp (r := upstream.reader) rfl (by simpa only [Nat.zero_add] using hcap)
  simp only [peekStreamForContent, Bool.false_eq_true, if_false]
  split
  · have haborted : (peekBody parser js options (fun _ => .read) upstream).stop ≠ .aborted :=
      peekLoop_notAborted parser js options upstream.chunks
    rw [conclude_verdict haborted, hloop]
  · rfl

/-- **Peeking a stream loses no byte.** A replay body delivers the chunks that were read and all
later ones, each once and in order, and only the chunks that were read after a timeout. A peek that
throws the abort, or returns no body, has cancelled its reader. And chunks that arrive in time and
stay below the cap are judged by their bytes. -/
theorem peekStreamForContent_lossless {parser : EventParser π} (hp : parser.Incremental)
    (js : Builtins) (options : PeekOptions) :
    (∀ (abortedBefore : Bool) (race : Nat → Race) (response : Response ε) (result : PeekResult ε) (body : Replay ε),
      peekStreamForContent parser js options abortedBefore race response = .returned result → result.body = some body →
        ∃ upstream, response.body = some upstream ∧
          (peekBody parser js options race upstream).rawChunks <+: upstream.chunks ∧
          body.queue = (peekBody parser js options race upstream).rawChunks ∧
          ReplaysAll ((peekBody parser js options race upstream).replayed upstream.chunks) body) ∧
    (∀ (abortedBefore : Bool) (race : Nat → Race) (response : Response ε) (reader : Option (Reader ε)),
      peekStreamForContent parser js options abortedBefore race response = .aborted reader →
        response.body.isSome = true → ∃ r, reader = some r ∧ r.Disposed) ∧
    (∀ (abortedBefore : Bool) (race : Nat → Race) (response : Response ε) (result : PeekResult ε),
      peekStreamForContent parser js options abortedBefore race response = .returned result → result.body = none →
        isEventStream response.contentType = true → response.body.isSome = true → ∃ r, result.reader = some r ∧ r.Disposed) ∧
    (∀ (contentType : Text) (upstream upstream' : Upstream ε), upstream.chunks.flatten = upstream'.chunks.flatten →
      upstream.ending = upstream'.ending → upstream.chunks.flatten.length < peekMaxBytes →
        (peekStreamForContent parser js options false (fun _ => .read) ⟨contentType, some upstream⟩).verdict =
          (peekStreamForContent parser js options false (fun _ => .read) ⟨contentType, some upstream'⟩).verdict) := by
  refine ⟨?_, ?_, ?_, ?_⟩
  · intro abortedBefore race response result body hr hb
    unfold peekStreamForContent at hr
    split at hr
    · cases hr
    split at hr
    case h_2 =>
      cases hr
      cases hb
    case h_1 upstream hupstream =>
      split at hr
      · have hsound := peekBody_sound parser js options race upstream
        obtain ⟨rfl, haborted, herror⟩ := conclude_body hsound hr hb
        exact ⟨upstream, hupstream, hsound.read, rfl, (hsound.replay haborted herror).replaysAll⟩
      · cases hr
        cases hb
  · intro abortedBefore race response reader hr hbody
    unfold peekStreamForContent at hr
    split at hr
    · cases hr
      obtain ⟨upstream, hupstream⟩ := Option.isSome_iff_exists.1 hbody
      exact ⟨_, by rw [hupstream]; rfl, Reader.cancelBody_disposed (Or.inl rfl)⟩
    split at hr
    case h_2 => cases hr
    case h_1 upstream hupstream =>
      split at hr
      · exact conclude_aborted (peekBody_sound parser js options race upstream) hr
      · cases hr
  · intro abortedBefore race response result hr hb hstreams hbody
    unfold peekStreamForContent at hr
    split at hr
    · cases hr
    split at hr
    case h_2 hnone => simp [hnone] at hbody
    case h_1 upstream hupstream =>
      exact conclude_noBody (peekBody_sound parser js options race upstream) hr hb
  · intro contentType upstream upstream' hbytes hending hcap
    rw [inTime_verdict hp js options contentType hcap, inTime_verdict hp js options contentType (by simpa only [← hbytes] using hcap), hbytes, hending]


def eventStreamParser : EventParser Lib.EventStream.Reading where
  init := {}
  feed := Lib.EventStream.feed

theorem eventStreamParser_incremental : eventStreamParser.Incremental := Lib.EventStream.feed_append

def greetingBuiltins : Builtins where
  parse text :=
    if text = "\x7b\"response\":\"hi\"\x7d".toList then some (.object [("response".toList, .string "hi".toList)]) else none
  number _ := .ok none
  text _ := none

def bytesOf (text : String) : Chunk := Utf8Decoder.encode text.toList

def greeting : Upstream Empty where
  chunks := [bytesOf "data: \x7b\"response\":", bytesOf "\"hi\"\x7d\n\n", bytesOf "data: [DONE]\n\n"]
  ending := .done

def peekGreeting (chunks : List Chunk) : PeekOutcome Empty :=
  peekStreamForContent eventStreamParser greetingBuiltins {} false (fun _ => .read)
    ⟨"text/event-stream".toList, some { greeting with chunks }⟩

theorem peekGreeting_lossless :
    (∃ result body, peekGreeting greeting.chunks = .returned result ∧ result.body = some body ∧ body.queue.length = 2 ∧
      ReplaysAll greeting.chunks body) ∧
    (peekGreeting greeting.chunks).verdict = (peekGreeting [greeting.chunks.flatten]).verdict := by
  have h := @peekStreamForContent_lossless Empty _ _ eventStreamParser_incremental greetingBuiltins {}
  constructor
  · refine ⟨_, _, rfl, rfl, rfl, ?_⟩
    obtain ⟨upstream, hupstream, -, -, hall⟩ := h.1 false (fun _ => .read) ⟨"text/event-stream".toList, some greeting⟩ _ _ rfl rfl
    cases hupstream
    exact hall
  · exact h.2.2.2 _ greeting { greeting with chunks := [greeting.chunks.flatten] } (by simp) rfl (by decide +kernel)

end TokenProxy.Streaming
