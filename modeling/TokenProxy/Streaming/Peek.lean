import TokenProxy.Lib.EventStream
import TokenProxy.Lib.Utf8
import TokenProxy.Streaming.StreamContent

/-!
# Peeking a stream

`peekStreamForContent` reads an upstream body until output of the model appears and returns a body
that replays what was read. The environment decides, read by read, whether the read, the timer or
the caller's abort settles first; a stream that falls silent loses against the timer.
-/

namespace TokenProxy.Streaming

open Lib (ServerEvent Utf8Decoder)
open Translator (Text)

universe u

abbrev Chunk := List UInt8

/-! ### Decoding -/

structure EventParser (π : Type) where
  init : π
  feed : π → Text → π × List ServerEvent

def EventParser.Incremental {π : Type} (parser : EventParser π) : Prop :=
  ∀ s xs ys, parser.feed s (xs ++ ys) =
    ((parser.feed (parser.feed s xs).1 ys).1, (parser.feed s xs).2 ++ (parser.feed (parser.feed s xs).1 ys).2)

/-- `TextDecoder`: UTF-8 as it arrives, without a byte order mark in front. -/
structure TextDecoder where
  utf8 : Utf8Decoder := {}
  started : Bool := false

def byteOrderMark : Char := '\uFEFF'

def TextDecoder.unmarked (d : TextDecoder) (cs : Text) : Text :=
  if !d.started ∧ cs.head? = some byteOrderMark then cs.drop 1 else cs

def TextDecoder.decode (d : TextDecoder) (bytes : Chunk) : TextDecoder × Text :=
  ({ utf8 := (d.utf8.decode bytes).1, started := d.started || !(d.utf8.decode bytes).2.isEmpty },
    d.unmarked (d.utf8.decode bytes).2)

structure SseDecoder (π : Type) where
  text : TextDecoder := {}
  parser : π

variable {π : Type} (parser : EventParser π)

def createSseDecoder : SseDecoder π where
  parser := parser.init

namespace SseDecoder

/-- What the parser makes of the bytes: the events, in their order. -/
def feed (d : SseDecoder π) (bytes : Chunk) : SseDecoder π × List ServerEvent :=
  if bytes = [] then (d, [])
  else
    ({ text := (d.text.decode bytes).1, parser := (parser.feed d.parser (d.text.decode bytes).2).1 },
      (parser.feed d.parser (d.text.decode bytes).2).2)

def finish (d : SseDecoder π) : List ServerEvent :=
  (parser.feed d.parser (d.text.unmarked d.text.utf8.finish ++ ['\n', '\n'])).2

end SseDecoder

/-! ### The upstream body and its reader -/

inductive Ending (ε : Type u) where
  | done
  | fails (e : ε)
  | silent
  deriving DecidableEq

inductive BodyState (ε : Type u) where
  | readable
  | closed
  | errored (e : ε)
  deriving DecidableEq

/-- A body and the reader that holds its lock: the chunks it has yet to deliver, and how often it
was told to stop. `stopped` says that this reached its source. -/
structure Reader (ε : Type u) where
  rest : List Chunk
  ending : Ending ε
  state : BodyState ε := .readable
  released : Bool := false
  cancels : Nat := 0
  stopped : Bool := false
  deriving DecidableEq

inductive ReadResult (ε : Type u) where
  | done
  | value (chunk : Chunk)
  | failed (e : ε)
  | pending

variable {ε : Type u}

namespace Reader

/-- `reader.read()`, once it settled. -/
def read (r : Reader ε) : Reader ε × ReadResult ε :=
  match r.state with
  | .closed => (r, .done)
  | .errored e => (r, .failed e)
  | .readable =>
    match r.rest, r.ending with
    | chunk :: rest, _ => ({ r with rest }, .value chunk)
    | [], .done => ({ r with state := .closed }, .done)
    | [], .fails e => ({ r with state := .errored e }, .failed e)
    | [], .silent => (r, .pending)

section

variable {r : Reader ε} {e : ε} {chunk : Chunk} {rest : List Chunk}

theorem read_value (h : r.state = .readable) (hrest : r.rest = chunk :: rest) :
    r.read = ({ r with rest }, .value chunk) := by
  simp [read, h, hrest]

theorem read_done (h : r.state = .readable) (hrest : r.rest = []) (hend : r.ending = .done) :
    r.read = ({ r with state := .closed }, .done) := by
  simp [read, h, hrest, hend]

theorem read_failed (h : r.state = .readable) (hrest : r.rest = []) (hend : r.ending = .fails e) :
    r.read = ({ r with state := .errored e }, .failed e) := by
  simp [read, h, hrest, hend]

theorem read_pending (h : r.state = .readable) (hrest : r.rest = [])
    (hend : r.ending = .silent) : r.read = (r, .pending) := by
  simp [read, h, hrest, hend]

end

def release (r : Reader ε) : Reader ε := { r with released := true }

/-- `body.cancel()`: it closes a body that is readable, and tells its source. -/
def cancelBody (r : Reader ε) : Reader ε :=
  match r.state with
  | .readable => { r with state := .closed, stopped := true, cancels := r.cancels + 1 }
  | _ => { r with cancels := r.cancels + 1 }

def cancelReader (r : Reader ε) : Reader ε :=
  (if r.released then { r with cancels := r.cancels + 1 } else r.cancelBody).release

end Reader

/-! ### The verdict -/

@[ext]
structure Verdict where
  hasContent : Bool := false
  upstreamError : Option UpstreamError := none
  deriving DecidableEq

def Verdict.decided (v : Verdict) : Bool := v.hasContent || v.upstreamError.isSome

variable (js : Builtins) (options : PeekOptions)

/-- The callback of the decoder: the first event that carries content decides. -/
def onEvent (v : Verdict) (event : ServerEvent) : Except TypeError Verdict :=
  if v.decided then .ok v
  else
    match parseDataPayload js event.data with
    | none => .ok v
    | some parsed => do
      if ← payloadCarriesContent js options parsed then
        match ← detectUpstreamErrorContent js (payloadContentText parsed) with
        | none => return { v with hasContent := true }
        | some e => return { v with upstreamError := some e }
      else return v

/-! ### The loop -/

inductive PeekError (ε : Type u) where
  | typeError (e : TypeError)
  | upstream (e : ε)
  deriving DecidableEq

def peekMaxBytes : Nat := 256 * 1024

/-- One turn of the loop: the deadline has passed before it reads, the read settles first, or the
timer or the caller does. -/
inductive Race where
  | late
  | read
  | expired
  | aborted
  deriving DecidableEq

inductive Stop where
  | decided
  | done
  | timedOut
  | aborted
  | readError
  deriving DecidableEq

structure Peeked (ε : Type u) where
  rawChunks : List Chunk
  verdict : Verdict
  readError : Option (PeekError ε) := none
  stop : Stop
  reader : Reader ε

/-- After the last chunk: the stream ends, fails, or stays silent until the timer wins. -/
def peekEnd (decoder : SseDecoder π) (rawChunks : List Chunk) (v : Verdict)
    (r : Reader ε) : Peeked ε :=
  match r.read with
  | (r, .done) =>
    match (decoder.finish parser).foldlM (onEvent js options) v with
    | .ok v => { rawChunks, verdict := v, stop := .done, reader := r.release }
    | .error e => { rawChunks, verdict := { v with hasContent := false }, readError := some (.typeError e), stop := .readError
                    reader := r.release }
  | (r, .failed e) => { rawChunks, verdict := { v with hasContent := false }, readError := some (.upstream e), stop := .readError
                        reader := r }
  | (r, _) => { rawChunks, verdict := v, stop := .timedOut, reader := r }

/-- `while (!hasContent)`, over the chunks that the body has yet to deliver. -/
def peekLoop (race : Nat → Race) (decoder : SseDecoder π) (rawChunks : List Chunk) (rawBytes : Nat)
    (v : Verdict) (r : Reader ε) :
    List Chunk → Peeked ε
  | [] =>
    match race 0 with
    | .late => { rawChunks, verdict := v, stop := .timedOut, reader := r }
    | .expired => { rawChunks, verdict := v, stop := .timedOut, reader := r }
    | .aborted => { rawChunks, verdict := v, stop := .aborted, reader := r }
    | .read => peekEnd parser js options decoder rawChunks v { r with rest := [] }
  | chunk :: rest =>
    match race 0 with
    | .late => { rawChunks, verdict := v, stop := .timedOut, reader := { r with rest := chunk :: rest } }
    | .expired => { rawChunks, verdict := v, stop := .timedOut, reader := { r with rest } }
    | .aborted => { rawChunks, verdict := v, stop := .aborted, reader := { r with rest } }
    | .read =>
      let raw := rawChunks ++ [chunk]
      let fed := decoder.feed parser chunk
      match fed.2.foldlM (onEvent js options) v with
      | .error e => { rawChunks := raw, verdict := { v with hasContent := false }, readError := some (.typeError e)
                      stop := .readError, reader := { r with rest } }
      | .ok v =>
        if v.decided then { rawChunks := raw, verdict := v, stop := .decided, reader := { r with rest } }
        else if peekMaxBytes ≤ rawBytes + chunk.length then
          { rawChunks := raw, verdict := { v with hasContent := true }, stop := .decided, reader := { r with rest } }
        else peekLoop (fun n => race (n + 1)) fed.1 raw (rawBytes + chunk.length) v r rest

/-! ### The replay body -/

inductive ReplayState (ε : Type u) where
  | readable
  | closing
  | closed
  | errored (e : ε)
  | cancelled
  deriving DecidableEq

def ReplayState.drained : ReplayState ε → ReplayState ε
  | .closing => .closed
  | state => state

/-- The body that replays: what it has queued, what its consumer was
given, and the reader behind it. -/
structure Replay (ε : Type u) where
  queue : List Chunk
  given : List Chunk := []
  state : ReplayState ε
  reader : Reader ε

/-- The stream asks its source for more once its queue is empty; its
consumer takes a chunk or cancels. -/
inductive ReplayOp where
  | pull
  | take
  | cancel
  deriving DecidableEq

namespace Replay

def pull (b : Replay ε) : Replay ε :=
  match b.state, b.queue with
  | .readable, [] =>
    match b.reader.read with
    | (r, .done) => { b with state := .closed, reader := r.release }
    | (r, .value chunk) => { b with queue := [chunk], reader := r }
    | (r, .failed e) => { b with state := .errored e, reader := r.release }
    | (r, .pending) => { b with reader := r }
  | _, _ => b

def take (b : Replay ε) : Replay ε :=
  match b.queue with
  | [] => b
  | chunk :: queue => { b with given := b.given ++ [chunk], queue, state := if queue = [] then b.state.drained else b.state }

def cancel (b : Replay ε) : Replay ε :=
  match b.state with
  | .readable => { b with queue := [], state := .cancelled, reader := b.reader.cancelReader }
  | .closing => { b with queue := [], state := .cancelled, reader := b.reader.cancelReader }
  | _ => b

def step (b : Replay ε) : ReplayOp → Replay ε
  | .pull => b.pull
  | .take => b.take
  | .cancel => b.cancel

end Replay

/-- The chunks read so far are queued; where the upstream is done there is nothing behind them. -/
def createReplayBody (rawChunks : List Chunk) (upstreamDone : Bool)
    (reader : Reader ε) : Replay ε where
  queue := rawChunks
  state := if upstreamDone then if rawChunks = [] then .closed else .closing else .readable
  reader := reader

/-! ### `peekStreamForContent` -/

/-- A body as it is handed over: what it will deliver and how it goes on then. -/
structure Upstream (ε : Type u) where
  chunks : List Chunk
  ending : Ending ε

/-- `body.getReader()` -/
def Upstream.reader (body : Upstream ε) : Reader ε where
  rest := body.chunks
  ending := body.ending

structure Response (ε : Type u) where
  contentType : Text
  body : Option (Upstream ε)

/-- What the call returns, and the body it was given as it left it. -/
structure PeekResult (ε : Type u) where
  hasContent : Bool
  body : Option (Replay ε)
  error : Option (PeekError ε) := none
  upstreamError : Option UpstreamError := none
  reader : Option (Reader ε)

inductive PeekOutcome (ε : Type u) where
  | aborted (reader : Option (Reader ε))
  | returned (result : PeekResult ε)

def isEventStream (contentType : Text) : Bool :=
  decide ("text/event-stream".toList <:+: contentType.flatMap Lib.lowerCase)

/-- After the loop: a peek that ran out of time or was aborted cancels the
reader and settles its read. -/
def Peeked.settled (p : Peeked ε) : Reader ε :=
  if p.stop = .timedOut ∨ p.stop = .aborted then p.reader.cancelReader else p.reader

def Peeked.replay (p : Peeked ε) : Replay ε :=
  createReplayBody p.rawChunks (decide (p.stop = .timedOut ∨ p.stop = .done)) p.settled

def Peeked.conclude (p : Peeked ε) : PeekOutcome ε :=
  if p.stop = .aborted then .aborted (some p.settled)
  else if p.verdict.hasContent then
    .returned { hasContent := true, body := some p.replay, reader := some p.settled }
  else if p.readError.isSome ∨ !options.preserveOnNoContent then
    .returned { hasContent := false, body := none, error := p.readError, upstreamError := p.verdict.upstreamError
                reader := some p.settled.cancelReader }
  else
    .returned { hasContent := false, body := some p.replay, upstreamError := p.verdict.upstreamError, reader := some p.settled }

def peekBody (race : Nat → Race) (body : Upstream ε) : Peeked ε :=
  peekLoop parser js options race (createSseDecoder parser) [] 0 {} body.reader body.chunks

def peekStreamForContent (abortedBefore : Bool) (race : Nat → Race)
    (response : Response ε) : PeekOutcome ε :=
  if abortedBefore then .aborted (response.body.map fun body => body.reader.cancelBody)
  else
    match response.body with
    | some body =>
      if isEventStream response.contentType then (peekBody parser js options race body).conclude options
      else .returned { hasContent := true, body := none, reader := some body.reader }
    | none => .returned { hasContent := true, body := none, reader := none }

end TokenProxy.Streaming
