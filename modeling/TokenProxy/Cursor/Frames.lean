import TokenProxy.Cursor.Protobuf
import TokenProxy.Lib.Chunks

/-!
# ConnectRPC frames

A frame is a byte of flags, four bytes of length and the payload. `wrapConnectRPCFrame` writes one,
`decodeAgentFrames` takes the complete ones off what has arrived, and `parseConnectRPCFrame` reads
the first one of a buffer.

* `frames`: the frames of a stream, as the `Splitter` of `Lib.Chunks`; `decodeAgentFrames_eq` says
  that the reader takes these.
* `readAll_eq`: the reads of a session deliver what one read of the whole stream does.
* `agrees_iff`: the streams that the parser takes apart in the same way.
-/

namespace TokenProxy.Cursor

open Lib

/-! ### Writing -/

/-- `(length >> bits) & 0xFF` -/
def lengthByte (length bits : ℕ) : UInt8 := ⟨((BitVec.ofNat 32 length).sshiftRight bits).setWidth 8⟩

def wrapConnectRPCFrame (gzipSync : List UInt8 → List UInt8) (payload : List UInt8)
    (compress : Bool) : List UInt8 :=
  let finalPayload := if compress then gzipSync payload else payload
  let flags := if compress then 0x01 else 0x00
  flags :: lengthByte finalPayload.length 24 :: lengthByte finalPayload.length 16 :: lengthByte finalPayload.length 8 ::
    lengthByte finalPayload.length 0 :: finalPayload

/-! ### Reading -/

/-- What `decodeAgentFrames` has given to `onFrame`, and what it returns: nothing
where `gunzipSync` has thrown. -/
@[ext] structure Delivery where
  payloads : List (List UInt8)
  pending : Option (List UInt8)
  deriving DecidableEq

def decodeAgentLoop (gunzipSync : List UInt8 → Option (List UInt8)) : ℕ → List UInt8 → List (List UInt8) → Delivery
  | 0, pending, payloads => ⟨payloads, some pending⟩
  | fuel + 1, pending, payloads =>
    if 5 ≤ pending.length then
      let flags := pending.getD 0 0
      -- `readUInt32BE(1)`
      let length := declaredLength pending
      if pending.length < 5 + length then ⟨payloads, some pending⟩
      else
        let payload := (pending.drop 5).take length
        let rest := pending.drop (5 + length)
        match if flags &&& 0x01 ≠ 0 then gunzipSync payload else some payload with
        | none => ⟨payloads, none⟩
        | some payload => decodeAgentLoop gunzipSync fuel rest (if flags &&& 0x02 = 0 then payloads ++ [payload] else payloads)
    else ⟨payloads, some pending⟩

def decodeAgentFrames (gunzipSync : List UInt8 → Option (List UInt8))
    (buffer : List UInt8) : Delivery :=
  decodeAgentLoop gunzipSync buffer.length buffer []

/-- One `session.read()` of the loop around it. -/
def readChunk (gunzipSync : List UInt8 → Option (List UInt8)) (state : Delivery)
    (value : List UInt8) : Delivery :=
  match state.pending with
  | none => state
  | some pending =>
    let read := decodeAgentFrames gunzipSync (pending ++ value)
    ⟨state.payloads ++ read.payloads, read.pending⟩

def readAll (gunzipSync : List UInt8 → Option (List UInt8))
    (chunks : List (List UInt8)) : Delivery :=
  chunks.foldl (readChunk gunzipSync) ⟨[], some []⟩

/-- `parseConnectRPCFrame` on what the frame before has not consumed, until it returns null. -/
def parseRepeatedly (gunzipSync : List UInt8 → Option (List UInt8)) : ℕ → List UInt8 → Option (List Frame × List UInt8)
  | 0, _ => none
  | fuel + 1, buffer =>
    match parseConnectRPCFrame gunzipSync buffer with
    | none => some ([], buffer)
    | some frame =>
      (parseRepeatedly gunzipSync fuel (slice buffer frame.consumed buffer.length)).map fun found => (frame :: found.1, found.2)

/-! ### The frames of a stream -/

/-- A frame as it stands in the stream: its flags and its bytes. -/
structure RawFrame where
  flags : UInt8
  bytes : List UInt8
  deriving DecidableEq

def nextFrame (buffer : List UInt8) : Option (RawFrame × List UInt8) :=
  if buffer.length < 5 ∨ buffer.length < 5 + declaredLength buffer then none
  else some (⟨buffer.getD 0 0, (buffer.drop 5).take (declaredLength buffer)⟩, buffer.drop (5 + declaredLength buffer))

theorem nextFrame_eq_none {buffer : List UInt8} :
    nextFrame buffer = none ↔ buffer.length < 5 ∨ buffer.length < 5 + declaredLength buffer := by
  unfold nextFrame
  split <;> simp_all

theorem nextFrame_eq_some {buffer rest : List UInt8} {frame : RawFrame}
    (h : nextFrame buffer = some (frame, rest)) :
    5 + declaredLength buffer ≤ buffer.length ∧ frame = ⟨buffer.getD 0 0, (buffer.drop 5).take (declaredLength buffer)⟩ ∧
      rest = buffer.drop (5 + declaredLength buffer) := by
  unfold nextFrame at h
  split at h
  · exact absurd h (by simp)
  · rename_i hlong
    simp only [Option.some.injEq, Prod.mk.injEq] at h
    exact ⟨by omega, h.1.symm, h.2.symm⟩

theorem getD_append {xs : List UInt8} (ys : List UInt8) {i : ℕ}
    (h : i < xs.length) : (xs ++ ys).getD i 0 = xs.getD i 0 := by
  rw [List.getD_eq_getElem?_getD, List.getElem?_append_left h, ← List.getD_eq_getElem?_getD]

theorem declaredLength_append {xs : List UInt8} (ys : List UInt8)
    (h : 5 ≤ xs.length) : declaredLength (xs ++ ys) = declaredLength xs := by
  unfold declaredLength
  rw [getD_append ys (by omega), getD_append ys (by omega), getD_append ys (by omega), getD_append ys (by omega)]

theorem nextFrame_append {xs rest : List UInt8} {frame : RawFrame} (ys : List UInt8)
    (h : nextFrame xs = some (frame, rest)) :
    nextFrame (xs ++ ys) = some (frame, rest ++ ys) := by
  obtain ⟨hlong, rfl, rfl⟩ := nextFrame_eq_some h
  have hlength : declaredLength (xs ++ ys) = declaredLength xs := declaredLength_append ys (by omega)
  have hshort : ¬ ((xs ++ ys).length < 5 ∨ (xs ++ ys).length < 5 + declaredLength xs) := by
    rw [List.length_append]
    omega
  have hroom : declaredLength xs ≤ (xs.drop 5).length := by
    rw [List.length_drop]
    omega
  have hpayload : ((xs ++ ys).drop 5).take (declaredLength xs) = (xs.drop 5).take (declaredLength xs) := by
    rw [List.drop_append_of_le_length (by omega), List.take_append_of_le_length hroom]
  have hrest : (xs ++ ys).drop (5 + declaredLength xs) = xs.drop (5 + declaredLength xs) ++ ys :=
    List.drop_append_of_le_length hlong
  unfold nextFrame
  rw [hlength, getD_append ys (by omega), if_neg hshort, hpayload, hrest]

def frames : Splitter UInt8 RawFrame where
  next := nextFrame
  shorter h := by
    obtain ⟨hlong, -, rfl⟩ := nextFrame_eq_some h
    rw [List.length_drop]
    omega
  append ys h := nextFrame_append ys h

/-- The payload of a frame, for `onFrame`; nothing where it cannot be unpacked. -/
def RawFrame.payload (gunzipSync : List UInt8 → Option (List UInt8))
    (frame : RawFrame) : Option (List UInt8) :=
  if frame.flags &&& 0x01 ≠ 0 then gunzipSync frame.bytes else some frame.bytes

/-- What frames deliver until one of them cannot be unpacked, with `pending` behind them. -/
def deliver (gunzipSync : List UInt8 → Option (List UInt8))
    (pending : List UInt8) : List RawFrame → Delivery
  | [] => ⟨[], some pending⟩
  | frame :: more =>
    match frame.payload gunzipSync with
    | none => ⟨[], none⟩
    | some payload =>
      ⟨(if frame.flags &&& 0x02 = 0 then [payload] else []) ++ (deliver gunzipSync pending more).payloads, (deliver gunzipSync pending more).pending⟩

def Delivery.followedBy (first second : Delivery) : Delivery :=
  match first.pending with
  | none => first
  | some _ => ⟨first.payloads ++ second.payloads, second.pending⟩

-- Lean derives the equations of a recursive definition at the first proof that unfolds it.
-- The proofs of a module are elaborated side by side; asked for once, here, the equations
-- are the same for all of them.
section
attribute [local simp] decodeAgentLoop deliver parseRepeatedly
end

section

variable {gunzipSync : List UInt8 → Option (List UInt8)}

theorem decodeAgentLoop_eq (fuel : ℕ) (buffer : List UInt8) (payloads : List (List UInt8)) :
    decodeAgentLoop gunzipSync fuel buffer payloads =
      ⟨payloads ++ (deliver gunzipSync (frames.drainFor fuel buffer).2 (frames.drainFor fuel buffer).1).payloads,
        (deliver gunzipSync (frames.drainFor fuel buffer).2 (frames.drainFor fuel buffer).1).pending⟩ := by
  induction fuel generalizing buffer payloads with
  | zero => simp [decodeAgentLoop, Splitter.drainFor, deliver]
  | succ fuel ih =>
    rw [decodeAgentLoop]
    by_cases hshort : buffer.length < 5 ∨ buffer.length < 5 + declaredLength buffer
    · have hnone : frames.next buffer = none := nextFrame_eq_none.mpr hshort
      rw [Splitter.drainFor_none (fuel + 1) hnone]
      simp only [deliver, List.append_nil]
      by_cases hheader : 5 ≤ buffer.length
      · rw [if_pos hheader, if_pos (by omega)]
      · rw [if_neg hheader]
    · have hsome : frames.next buffer =
          some (⟨buffer.getD 0 0, (buffer.drop 5).take (declaredLength buffer)⟩, buffer.drop (5 + declaredLength buffer)) := if_neg hshort
      rw [Splitter.drainFor_some fuel hsome, if_pos (by omega), if_neg (by omega)]
      simp only [deliver, RawFrame.payload]
      split
      · rw [List.append_nil]
      · rw [ih]
        split_ifs <;> simp

theorem decodeAgentFrames_eq (buffer : List UInt8) :
    decodeAgentFrames gunzipSync buffer = deliver gunzipSync (frames.drain buffer).2 (frames.drain buffer).1 := by
  rw [decodeAgentFrames, decodeAgentLoop_eq]
  rfl

theorem deliver_append (left pending : List UInt8) (xs ys : List RawFrame) :
    deliver gunzipSync pending (xs ++ ys) = (deliver gunzipSync left xs).followedBy (deliver gunzipSync pending ys) := by
  induction xs with
  | nil => simp [deliver, Delivery.followedBy]
  | cons frame xs ih =>
    simp only [List.cons_append, deliver]
    cases frame.payload gunzipSync with
    | none => rfl
    | some payload =>
      simp only [ih, Delivery.followedBy]
      cases hpending : (deliver gunzipSync left xs).pending with
      | none => simp [hpending]
      | some _ => simp

theorem deliver_pending {pending rest : List UInt8} {xs : List RawFrame}
    (h : (deliver gunzipSync pending xs).pending = some rest) :
    rest = pending := by
  induction xs with
  | nil => exact (Option.some.inj h).symm
  | cons frame xs ih =>
    rw [deliver] at h
    cases hpayload : frame.payload gunzipSync with
    | none => simp [hpayload] at h
    | some payload =>
      simp only [hpayload] at h
      exact ih h

theorem readChunk_decode (stream value : List UInt8) :
    readChunk gunzipSync (decodeAgentFrames gunzipSync stream) value = decodeAgentFrames gunzipSync (stream ++ value) := by
  rw [readChunk, decodeAgentFrames_eq (stream ++ value), Splitter.drain_append,
    deliver_append (frames.drain stream).2, ← decodeAgentFrames_eq, Delivery.followedBy]
  cases hpending : (decodeAgentFrames gunzipSync stream).pending with
  | none => simp only
  | some pending =>
    rw [decodeAgentFrames_eq] at hpending
    simp only [deliver_pending hpending, decodeAgentFrames_eq]

theorem readAll_eq (chunks : List (List UInt8)) :
    readAll gunzipSync chunks = decodeAgentFrames gunzipSync chunks.flatten := by
  have hfold : ∀ stream : List UInt8,
      chunks.foldl (readChunk gunzipSync) (decodeAgentFrames gunzipSync stream) = decodeAgentFrames gunzipSync (stream ++ chunks.flatten) := by
    induction chunks with
    | nil => simp
    | cons value chunks ih =>
      intro stream
      rw [List.foldl_cons, readChunk_decode, ih, List.flatten_cons, List.append_assoc]
  exact hfold []

end

/-! ### The parser -/

/-- The parser finds in a stream, frame by frame, what the reader does:
it returns the trailers too. -/
def ParsedAlike (gunzipSync : List UInt8 → Option (List UInt8)) (data : List UInt8) : Prop :=
  ∃ fuel parsed rest, parseRepeatedly gunzipSync fuel data = some (parsed, rest) ∧
    decodeAgentFrames gunzipSync data = ⟨(parsed.filter fun frame => frame.flags &&& 2#32 == 0).map (·.payload), some rest⟩ ∧
    parsed.map (·.consumed) = (frames.drain data).1.map fun frame => 5 + (frame.bytes.length : ℤ)

/-- A length with the sign bit clear, and no compression that the reader and
the parser take differently. -/
def RawFrame.Plain (gunzipSync : List UInt8 → Option (List UInt8)) (frame : RawFrame) : Prop :=
  frame.bytes.length < 2 ^ 31 ∧
    (frame.flags &&& 0x01 ≠ 0 →
      ∃ payload, gunzipSync frame.bytes = some payload ∧ (frame.flags = 0x01 ∨ frame.flags &&& 0x02 ≠ 0 ∨ payload = frame.bytes))

def SmallHeader (pending : List UInt8) : Prop := pending.length < 5 ∨ declaredLength pending < 2 ^ 31

theorem byteAt_zero (buffer : List UInt8) : byteAt buffer 0 = (buffer.getD 0 0).toBitVec.zeroExtend 32 := if_pos le_rfl

theorem zeroExtend_eq_one (b : UInt8) : b.toBitVec.zeroExtend 32 = 1 ↔ b = 0x01 := by
  have hall : ∀ x : BitVec 8, x.zeroExtend 32 = 1 ↔ x = 0x01#8 := by decide +kernel
  rw [hall, ← UInt8.toBitVec_inj]
  rfl

theorem trailer_iff (b : UInt8) :
    (b.toBitVec.zeroExtend 32 &&& 2#32 == 0) = decide (b &&& 0x02 = 0) := by
  have hall : ∀ x : BitVec 8, (x.zeroExtend 32 &&& 2#32 == 0) = decide (x &&& 0x02#8 = 0) := by decide +kernel
  rw [hall]
  congr 1
  rw [← UInt8.toBitVec_inj]
  rfl

section

variable {gunzipSync : List UInt8 → Option (List UInt8)} {buffer : List UInt8}

theorem headerLength_lt (buffer : List UInt8) : declaredLength buffer < 2 ^ 32 := by
  rw [← headerLength_toNat]
  exact BitVec.isLt _

theorem headerLength_toInt (buffer : List UInt8) :
    ((byteAt buffer 1 <<< 24) ||| (byteAt buffer 2 <<< 16) ||| (byteAt buffer 3 <<< 8) ||| byteAt buffer 4).toInt =
      if declaredLength buffer < 2 ^ 31 then (declaredLength buffer : ℤ) else (declaredLength buffer : ℤ) - 2 ^ 32 := by
  rw [BitVec.toInt_eq_toNat_cond, headerLength_toNat]
  split_ifs <;> omega

theorem slice_payload {length : ℕ} (h : 5 + length ≤ buffer.length) :
    slice buffer 5 (5 + length) = (buffer.drop 5).take length := by
  have hstop : clamp buffer.length (5 + length) = 5 + length := by
    unfold clamp
    split <;> omega
  have hstart : clamp buffer.length 5 = 5 := by
    unfold clamp
    split <;> omega
  rw [slice, hstop, hstart, List.drop_take, Nat.add_sub_cancel_left]

theorem slice_rest {length : ℕ} (h : 5 + length ≤ buffer.length) :
    slice buffer (5 + length) buffer.length = buffer.drop (5 + length) := by
  have hstop : clamp buffer.length buffer.length = buffer.length := by
    unfold clamp
    split <;> omega
  have hstart : clamp buffer.length (5 + length) = 5 + length := by
    unfold clamp
    split <;> omega
  rw [slice, hstop, hstart, List.take_length]

def parsedPayload (gunzipSync : List UInt8 → Option (List UInt8)) (frame : RawFrame) : List UInt8 :=
  if frame.flags = 0x01 then (gunzipSync frame.bytes).getD frame.bytes else frame.bytes

theorem parse_some {rest : List UInt8} {frame : RawFrame}
    (h : nextFrame buffer = some (frame, rest)) (hsign : declaredLength buffer < 2 ^ 31) :
    parseConnectRPCFrame gunzipSync buffer =
      some ⟨frame.flags.toBitVec.zeroExtend 32, declaredLength buffer, parsedPayload gunzipSync frame, 5 + declaredLength buffer⟩ := by
  obtain ⟨hlong, rfl, rfl⟩ := nextFrame_eq_some h
  unfold parseConnectRPCFrame
  simp only [headerLength_toInt, if_pos hsign, byteAt_zero, zeroExtend_eq_one]
  rw [if_neg (by omega), if_neg (by omega), slice_payload hlong]
  rfl

theorem parse_none (h : nextFrame buffer = none)
    (hsmall : SmallHeader buffer) : parseConnectRPCFrame gunzipSync buffer = none := by
  unfold parseConnectRPCFrame
  by_cases hheader : buffer.length < 5
  · rw [if_pos hheader]
  · have hsign := hsmall.resolve_left hheader
    have hshort := (nextFrame_eq_none.mp h).resolve_left hheader
    simp only [headerLength_toInt, if_pos hsign]
    rw [if_neg hheader, if_pos (by omega)]

theorem parse_signed (hheader : 5 ≤ buffer.length) (hsign : ¬ declaredLength buffer < 2 ^ 31) :
    ∃ frame, parseConnectRPCFrame gunzipSync buffer = some frame ∧ frame.consumed < 5 := by
  have hlt := headerLength_lt buffer
  unfold parseConnectRPCFrame
  simp only [headerLength_toInt, if_neg hsign]
  rw [if_neg (by omega), if_neg (by omega)]
  exact ⟨_, rfl, by simp only; omega⟩

theorem decodeAgentFrames_cons {rest : List UInt8} {frame : RawFrame} {payload : List UInt8}
    (h : nextFrame buffer = some (frame, rest))
    (hpayload : frame.payload gunzipSync = some payload) :
    decodeAgentFrames gunzipSync buffer =
      ⟨(if frame.flags &&& 0x02 = 0 then [payload] else []) ++ (decodeAgentFrames gunzipSync rest).payloads,
        (decodeAgentFrames gunzipSync rest).pending⟩ := by
  have hsome : frames.next buffer = some (frame, rest) := h
  rw [decodeAgentFrames_eq, decodeAgentFrames_eq, Splitter.drain_some hsome]
  simp only [deliver, hpayload]

theorem decodeAgentFrames_none (h : nextFrame buffer = none) :
    decodeAgentFrames gunzipSync buffer = ⟨[], some buffer⟩ := by
  rw [decodeAgentFrames_eq, Splitter.drain_none (show frames.next buffer = none from h), deliver]

theorem parsedAlike_none (h : nextFrame buffer = none) :
    ParsedAlike gunzipSync buffer ↔ SmallHeader buffer := by
  have hdrain : frames.drain buffer = ([], buffer) := Splitter.drain_none h
  constructor
  · rintro ⟨fuel, parsed, rest, hparse, -, hconsumed⟩
    rw [hdrain, List.map_nil, List.map_eq_nil_iff] at hconsumed
    subst hconsumed
    by_contra hlarge
    rw [SmallHeader, not_or, not_lt] at hlarge
    obtain ⟨frame, hframe, -⟩ := @parse_signed gunzipSync buffer hlarge.1 hlarge.2
    cases fuel with
    | zero => simp [parseRepeatedly] at hparse
    | succ fuel => simp [parseRepeatedly, hframe] at hparse
  · intro hsmall
    refine ⟨1, [], buffer, ?_, ?_, ?_⟩
    · simp only [parseRepeatedly, parse_none h hsmall]
    · rw [decodeAgentFrames_none h]
      rfl
    · rw [hdrain]
      rfl

theorem payload_eq_parsed {frame : RawFrame} (hplain : frame.Plain gunzipSync) :
    ∃ payload, frame.payload gunzipSync = some payload ∧ (frame.flags &&& 0x02 = 0 → payload = parsedPayload gunzipSync frame) := by
  have hone : frame.flags = 0x01 → frame.flags &&& 0x01 ≠ 0 := by
    intro hflags
    rw [hflags]
    decide
  unfold RawFrame.payload parsedPayload
  by_cases hodd : frame.flags &&& 0x01 ≠ 0
  · obtain ⟨payload, hgunzip, hcase⟩ := hplain.2 hodd
    rw [if_pos hodd]
    refine ⟨payload, hgunzip, fun htrailer => ?_⟩
    rw [hgunzip]
    split
    · rfl
    · rename_i hflags
      exact (hcase.resolve_left hflags).resolve_left (not_not.mpr htrailer)
  · rw [if_neg hodd]
    exact ⟨frame.bytes, rfl, fun _ => (if_neg fun hflags => hodd (hone hflags)).symm⟩

theorem plain_of_payload {frame : RawFrame} {payload : List UInt8}
    (hlength : frame.bytes.length < 2 ^ 31)
    (hpayload : frame.payload gunzipSync = some payload) (hparsed : frame.flags &&& 0x02 = 0 → payload = parsedPayload gunzipSync frame) :
    frame.Plain gunzipSync := by
  refine ⟨hlength, fun hodd => ⟨payload, ?_, ?_⟩⟩
  · rwa [RawFrame.payload, if_pos hodd] at hpayload
  · by_cases hflags : frame.flags = 0x01
    · exact .inl hflags
    · by_cases htrailer : frame.flags &&& 0x02 = 0
      · rw [parsedPayload, if_neg hflags] at hparsed
        exact .inr (.inr (hparsed htrailer))
      · exact .inr (.inl htrailer)

theorem parsedAlike_some {rest : List UInt8} {frame : RawFrame}
    (h : nextFrame buffer = some (frame, rest)) :
    ParsedAlike gunzipSync buffer ↔ frame.Plain gunzipSync ∧ ParsedAlike gunzipSync rest := by
  have hdrain : frames.drain buffer = (frame :: (frames.drain rest).1, (frames.drain rest).2) :=
    Splitter.drain_some h
  obtain ⟨hlong, hframe, hrest⟩ := nextFrame_eq_some h
  have hbytes : frame.bytes.length = declaredLength buffer := by
    rw [hframe, List.length_take, List.length_drop]
    omega
  have hslice : slice buffer (5 + (declaredLength buffer : ℤ)) buffer.length = rest := by rw [slice_rest hlong, hrest]
  constructor
  · rintro ⟨fuel, parsed, left, hparse, hdecode, hconsumed⟩
    cases fuel with
    | zero => simp [parseRepeatedly] at hparse
    | succ fuel =>
      by_cases hsign : declaredLength buffer < 2 ^ 31
      · rw [parseRepeatedly, parse_some h hsign] at hparse
        simp only [hslice, Option.map_eq_some_iff] at hparse
        obtain ⟨⟨parsed', left'⟩, hparse', heq⟩ := hparse
        simp only [Prod.mk.injEq] at heq
        obtain ⟨rfl, rfl⟩ := heq
        rw [hdrain, List.map_cons, List.map_cons, List.cons.injEq] at hconsumed
        cases hpayload : frame.payload gunzipSync with
        | none =>
          rw [decodeAgentFrames_eq, hdrain] at hdecode
          simp [deliver, hpayload] at hdecode
        | some payload =>
          rw [decodeAgentFrames_cons h hpayload, List.filter_cons, trailer_iff, Delivery.mk.injEq] at hdecode
          obtain ⟨hpayloads, hpending⟩ := hdecode
          have hboth : (frame.flags &&& 0x02 = 0 → payload = parsedPayload gunzipSync frame) ∧
              (decodeAgentFrames gunzipSync rest).payloads =
                (parsed'.filter fun frame => frame.flags &&& 2#32 == 0).map (·.payload) := by
            by_cases htrailer : frame.flags &&& 0x02 = 0
            · simp only [htrailer, if_true, decide_true, List.map_cons, List.singleton_append,
                List.cons.injEq] at hpayloads
              exact ⟨fun _ => hpayloads.1, hpayloads.2⟩
            · simp only [htrailer, if_false, decide_false, Bool.false_eq_true, List.nil_append] at hpayloads
              exact ⟨fun h => absurd h htrailer, hpayloads⟩
          exact ⟨plain_of_payload (by omega) hpayload hboth.1,
            fuel, parsed', left', hparse', Delivery.ext hboth.2 hpending, hconsumed.2⟩
      · obtain ⟨wrong, hwrong, hlt⟩ := @parse_signed gunzipSync buffer (by omega) hsign
        rw [parseRepeatedly, hwrong] at hparse
        simp only [Option.map_eq_some_iff] at hparse
        obtain ⟨⟨parsed', left'⟩, -, heq⟩ := hparse
        simp only [Prod.mk.injEq] at heq
        obtain ⟨rfl, rfl⟩ := heq
        rw [hdrain, List.map_cons, List.map_cons, List.cons.injEq] at hconsumed
        have hhead := hconsumed.1
        omega
  · rintro ⟨hplain, fuel, parsed, left, hparse, hdecode, hconsumed⟩
    have hsign : declaredLength buffer < 2 ^ 31 := hbytes ▸ hplain.1
    obtain ⟨payload, hpayload, hparsed⟩ := payload_eq_parsed hplain
    refine ⟨fuel + 1, ⟨frame.flags.toBitVec.zeroExtend 32, declaredLength buffer,
      parsedPayload gunzipSync frame, 5 + declaredLength buffer⟩ :: parsed, left, ?_, ?_, ?_⟩
    · rw [parseRepeatedly, parse_some h hsign]
      simp only [hslice, hparse, Option.map_some]
    · rw [decodeAgentFrames_cons h hpayload, hdecode, List.filter_cons, trailer_iff]
      by_cases htrailer : frame.flags &&& 0x02 = 0
      · simp [htrailer, hparsed htrailer]
      · simp [htrailer]
    · rw [hdrain, List.map_cons, List.map_cons, hconsumed, hbytes]

/-- The parser and the reader agree just if each complete frame is plain, and the last
header has the sign bit clear. -/
theorem parsedAlike_iff (data : List UInt8) :
    ParsedAlike gunzipSync data ↔ (∀ frame ∈ (frames.drain data).1, frame.Plain gunzipSync) ∧ SmallHeader (frames.drain data).2 := by
  induction hlength : data.length using Nat.strongRecOn generalizing data with
  | ind length ih =>
    cases hnext : nextFrame data with
    | none =>
      have hdrain : frames.drain data = ([], data) := Splitter.drain_none hnext
      rw [parsedAlike_none hnext, hdrain]
      simp
    | some found =>
      obtain ⟨frame, rest⟩ := found
      have hdrain : frames.drain data = (frame :: (frames.drain rest).1, (frames.drain rest).2) :=
        Splitter.drain_some hnext
      have hshorter := frames.shorter (show frames.next data = some (frame, rest) from hnext)
      rw [parsedAlike_some hnext, ih rest.length (hlength ▸ hshorter) rest rfl, hdrain,
        List.forall_mem_cons, and_assoc]

end

/-! ### What is written -/

theorem lengthByte_toNat (length bits : ℕ) (h : bits ≤ 24)
    (hlt : length < 2 ^ 32) : (lengthByte length bits).toNat = length / 2 ^ bits % 256 := by
  have hunsigned : ((BitVec.ofNat 32 length).sshiftRight bits).setWidth 8 = ((BitVec.ofNat 32 length) >>> bits).setWidth 8 := by
    apply BitVec.eq_of_getLsbD_eq
    intro i hi
    simp only [BitVec.getLsbD_setWidth, BitVec.getLsbD_sshiftRight, BitVec.getLsbD_ushiftRight]
    have hin : bits + i < 32 := by omega
    have hsign : ¬ 32 ≤ i := by omega
    simp [hin, hsign]
  rw [lengthByte, hunsigned]
  simp only [UInt8.toNat, BitVec.toNat_setWidth, BitVec.toNat_ushiftRight, BitVec.toNat_ofNat]
  rw [Nat.mod_eq_of_lt hlt, Nat.shiftRight_eq_div_pow]

theorem declaredLength_wrap (gzipSync : List UInt8 → List UInt8) {payload : List UInt8}
    (h : payload.length < 2 ^ 32) (rest : List UInt8) :
    declaredLength (wrapConnectRPCFrame gzipSync payload false ++ rest) = payload.length := by
  simp only [wrapConnectRPCFrame, Bool.false_eq_true, if_false, declaredLength, List.cons_append,
    List.getD_cons_succ, List.getD_cons_zero,
    lengthByte_toNat _ _ (le_refl 24) h, lengthByte_toNat _ 16 (by omega) h, lengthByte_toNat _ 8 (by omega) h, lengthByte_toNat _ 0 (by omega) h]
  omega

theorem nextFrame_wrap (gzipSync : List UInt8 → List UInt8) {payload : List UInt8}
    (h : payload.length < 2 ^ 32) (rest : List UInt8) :
    nextFrame (wrapConnectRPCFrame gzipSync payload false ++ rest) = some (⟨0x00, payload⟩, rest) := by
  have hlength : (wrapConnectRPCFrame gzipSync payload false ++ rest).length = 5 + payload.length + rest.length := by
    simp [wrapConnectRPCFrame]
    omega
  unfold nextFrame
  rw [declaredLength_wrap gzipSync h, hlength, if_neg (by omega)]
  simp [wrapConnectRPCFrame, Nat.add_comm 5]

theorem drain_wrapped (gzipSync : List UInt8 → List UInt8) {payloads : List (List UInt8)}
    (h : ∀ payload ∈ payloads, payload.length < 2 ^ 32) :
    frames.drain (payloads.flatMap fun payload => wrapConnectRPCFrame gzipSync payload false) = (payloads.map fun payload => ⟨0x00, payload⟩, []) := by
  induction payloads with
  | nil => rfl
  | cons payload payloads ih =>
    have hnext : frames.next (wrapConnectRPCFrame gzipSync payload false ++
        payloads.flatMap fun payload => wrapConnectRPCFrame gzipSync payload false) = some (⟨0x00, payload⟩, _) :=
      nextFrame_wrap gzipSync (h payload List.mem_cons_self) _
    rw [List.flatMap_cons, Splitter.drain_some hnext, ih fun other hother => h other (List.mem_cons_of_mem payload hother), List.map_cons]

theorem deliver_wrapped (gunzipSync : List UInt8 → Option (List UInt8))
    (payloads : List (List UInt8)) :
    deliver gunzipSync [] (payloads.map fun payload => ⟨0x00, payload⟩) = ⟨payloads, some []⟩ := by
  induction payloads with
  | nil => rfl
  | cons payload payloads ih =>
    have hpayload : (RawFrame.mk 0x00 payload).payload gunzipSync = some payload :=
      if_neg (not_not.mpr (show (0x00 : UInt8) &&& 0x01 = 0 by decide))
    have htrailer : (0x00 : UInt8) &&& 0x02 = 0 := by decide
    rw [List.map_cons, deliver, ih]
    simp only [hpayload, htrailer, if_true, List.singleton_append]

/-- What is written is read in any chunks; the parser reads it too
unless a length has the sign bit. -/
theorem frames_in_chunks (gzipSync : List UInt8 → List UInt8)
    (gunzipSync : List UInt8 → Option (List UInt8)) (payloads : List (List UInt8))
    (data : List UInt8) :
    ((∀ payload ∈ payloads, payload.length < 2 ^ 32) →
      (∀ chunks : List (List UInt8), chunks.flatten = payloads.flatMap (fun payload => wrapConnectRPCFrame gzipSync payload false) →
        readAll gunzipSync chunks = ⟨payloads, some []⟩) ∧
      (ParsedAlike gunzipSync (payloads.flatMap fun payload => wrapConnectRPCFrame gzipSync payload false) ↔
        ∀ payload ∈ payloads, payload.length < 2 ^ 31)) ∧
      (∀ chunks : List (List UInt8), chunks.flatten = data → readAll gunzipSync chunks = decodeAgentFrames gunzipSync data) ∧
      (ParsedAlike gunzipSync data ↔ (∀ frame ∈ (frames.drain data).1, frame.Plain gunzipSync) ∧ SmallHeader (frames.drain data).2) := by
  refine ⟨fun h => ⟨fun chunks hchunks => ?_, ?_⟩, fun chunks hchunks => ?_, parsedAlike_iff data⟩
  · rw [readAll_eq, hchunks, decodeAgentFrames_eq, drain_wrapped gzipSync h, deliver_wrapped]
  · rw [parsedAlike_iff, drain_wrapped gzipSync h, List.forall_mem_map]
    have hsmall : SmallHeader [] := .inl (by decide)
    have hplain : ∀ payload : List UInt8, (RawFrame.mk 0x00 payload).Plain gunzipSync ↔ payload.length < 2 ^ 31 := by
      intro payload
      refine and_iff_left ?_
      intro hodd
      exact absurd (show (0x00 : UInt8) &&& 0x01 = 0 by decide) hodd
    simp only [hplain, hsmall, and_true]
  · rw [readAll_eq, hchunks]

/-- The header of 2³¹ bytes: the reader waits for them, and the parser returns a frame. -/
theorem signed_header :
    readAll some [[0, 0x80], [0, 0, 0]] = ⟨[], some [0, 0x80, 0, 0, 0]⟩ ∧
      parseConnectRPCFrame some [0, 0x80, 0, 0, 0] = some ⟨0, -2147483648, [], -2147483643⟩ ∧ ¬ ParsedAlike some [0, 0x80, 0, 0, 0] := by
  refine ⟨by decide +kernel, by decide +kernel, ?_⟩
  rw [parsedAlike_none (by decide +kernel), SmallHeader]
  decide +kernel

end TokenProxy.Cursor
