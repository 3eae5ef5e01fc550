import TokenProxy.Lib.Table
import Mathlib.Data.List.Infix
import Mathlib.Order.Lattice
import Mathlib.Data.Int.Order.Basic

/-!
# The protobuf decoder

`decodeMessage` walks over the fields of a message. A length is read with 32-bit shifts, so it is a
signed number, and the cursor moves by it: a length that is negative enough puts the cursor where it
was, or before it.

* `varintBytes`, `varintValue`, `fieldSize`: the wire format on the bytes themselves,
  `decodeField_pos` says that the code reads it so.
* `decodeMessage_sound_iff`: the walk ends, and stays in the buffer, unless it meets a
  `BackwardLength`.
* `consumed_iff`: the same for the header of a frame.
-/

namespace TokenProxy.Cursor

open Lib

/-! ### Reading bytes -/

/-- `buffer[pos]` in a bitwise operator, where `undefined` is 0. -/
def byteAt (buffer : List UInt8) (pos : ℤ) : BitVec 32 :=
  if 0 ≤ pos then (buffer.getD pos.toNat 0).toBitVec.zeroExtend 32 else 0

/-- An index of `slice`: a negative one counts from the end. -/
def clamp (length : ℕ) (i : ℤ) : ℕ := if i < 0 then (length + i).toNat else min i.toNat length

/-- `Uint8Array.prototype.slice` -/
def slice (buffer : List UInt8) (start stop : ℤ) : List UInt8 := (buffer.take (clamp buffer.length stop)).drop (clamp buffer.length start)

def varintLoop (buffer : List UInt8) (result : BitVec 32) (shift : ℕ) (pos : ℤ) : BitVec 32 × ℤ :=
  if pos < buffer.length then
    let b := byteAt buffer pos
    let result := result ||| ((b &&& 0x7F#32) <<< (shift % 32))
    if b &&& 0x80#32 = 0 then (result, pos + 1) else varintLoop buffer result (shift + 7) (pos + 1)
  else (result, pos)
termination_by (buffer.length - pos).toNat

def decodeVarint (buffer : List UInt8) (offset : ℤ) : BitVec 32 × ℤ := varintLoop buffer 0 0 offset

/-! ### Fields -/

inductive Value where
  | number (value : BitVec 32)
  | bytes (value : List UInt8)
  | null
  deriving DecidableEq

/-- What `decodeField` returns; `fieldNum` is null behind the end. -/
structure Field where
  fieldNum : Option ℤ
  wireType : Option ℕ
  value : Value
  pos : ℤ
  deriving DecidableEq

namespace WireType
def varint : ℕ := 0
def fixed64 : ℕ := 1
def len : ℕ := 2
def fixed32 : ℕ := 5
end WireType

def decodeField (buffer : List UInt8) (offset : ℤ) : Field :=
  if (buffer.length : ℤ) ≤ offset then ⟨none, none, .null, offset⟩
  else
    let tag := (decodeVarint buffer offset).1
    let pos := (decodeVarint buffer offset).2
    let fieldNum := (tag.sshiftRight 3).toInt
    let wireType := (tag &&& 7#32).toNat
    if wireType = WireType.varint then ⟨some fieldNum, some wireType, .number (decodeVarint buffer pos).1, (decodeVarint buffer pos).2⟩
    else if wireType = WireType.len then
      let length := (decodeVarint buffer pos).1.toInt
      let pos := (decodeVarint buffer pos).2
      ⟨some fieldNum, some wireType, .bytes (slice buffer pos (pos + length)), pos + length⟩
    else if wireType = WireType.fixed64 then ⟨some fieldNum, some wireType, .bytes (slice buffer pos (pos + 8)), pos + 8⟩
    else if wireType = WireType.fixed32 then ⟨some fieldNum, some wireType, .bytes (slice buffer pos (pos + 4)), pos + 4⟩
    else ⟨some fieldNum, some wireType, .null, pos⟩

abbrev Fields := Dict ℤ (List (Option ℕ × Value))

def Fields.push (fields : Fields) (fieldNum : ℤ) (entry : Option ℕ × Value) : Fields :=
  fields.put (fieldNum, ((fields.lookup fieldNum).getD []) ++ [entry])

/-- The loop of `decodeMessage`, for a number of rounds; `none` when it has not ended by then. -/
def decodeLoop (data : List UInt8) : ℕ → ℤ → Fields → Option Fields
  | 0, _, _ => none
  | fuel + 1, pos, fields =>
    if pos < data.length then
      let field := decodeField data pos
      match field.fieldNum with
      | none => some fields
      | some fieldNum => decodeLoop data fuel field.pos (fields.push fieldNum (field.wireType, field.value))
    else some fields

def decodeMessage (data : List UInt8) (fuel : ℕ) : Option Fields := decodeLoop data fuel 0 Table.empty

/-! ### Frames -/

structure Frame where
  flags : BitVec 32
  length : ℤ
  payload : List UInt8
  consumed : ℤ
  deriving DecidableEq

/-- `gunzip` is the decompression, `none` where it throws. -/
def parseConnectRPCFrame (gunzip : List UInt8 → Option (List UInt8))
    (buffer : List UInt8) : Option Frame :=
  if buffer.length < 5 then none
  else
    let flags := byteAt buffer 0
    let length :=
      ((byteAt buffer 1 <<< 24) ||| (byteAt buffer 2 <<< 16) ||| (byteAt buffer 3 <<< 8) ||| byteAt buffer 4).toInt
    if (buffer.length : ℤ) < 5 + length then none
    else
      let payload := slice buffer 5 (5 + length)
      let payload := if flags = 1 then (gunzip payload).getD payload else payload
      some ⟨flags, length, payload, 5 + length⟩

/-! ### The wire format -/

/-- The varint that a text begins with: its bytes up to the first one
without the continuation bit. -/
def varintBytes : List UInt8 → List UInt8
  | [] => []
  | b :: rest => if b < 0x80 then [b] else b :: varintBytes rest

/-- Its value: seven bits a byte, moved by shifts that count modulo 32. -/
def varintValue (shift : ℕ) : List UInt8 → BitVec 32
  | [] => 0
  | b :: rest => ((b.toBitVec.zeroExtend 32 &&& 0x7F#32) <<< (shift % 32)) ||| varintValue (shift + 7) rest

def wireTypeOf (text : List UInt8) : ℕ := (varintValue 0 (varintBytes text) &&& 7#32).toNat

def bodyOf (text : List UInt8) : List UInt8 := text.drop (varintBytes text).length

def fieldSize (text : List UInt8) : ℤ :=
  (varintBytes text).length +
    if wireTypeOf text = WireType.varint then ((varintBytes (bodyOf text)).length : ℤ)
    else if wireTypeOf text = WireType.len then (varintBytes (bodyOf text)).length + (varintValue 0 (varintBytes (bodyOf text))).toInt
    else if wireTypeOf text = WireType.fixed64 then 8
    else if wireTypeOf text = WireType.fixed32 then 4
    else 0

/-- A field with a length that takes back all that its header has read, or more. -/
def BackwardLength (text : List UInt8) : Prop :=
  wireTypeOf text = WireType.len ∧
    ((varintBytes text).length + (varintBytes (bodyOf text)).length : ℤ) + (varintValue 0 (varintBytes (bodyOf text))).toInt ≤ 0

inductive FieldAt (data : List UInt8) : ℕ → Prop where
  | start : FieldAt data 0
  | next {pos size : ℕ} : FieldAt data pos → pos < data.length → (size : ℤ) = fieldSize (data.drop pos) → FieldAt data (pos + size)

/-! ### The code reads the wire format -/

theorem continuation_iff (b : UInt8) : b.toBitVec.zeroExtend 32 &&& 0x80#32 = 0 ↔ b < 0x80 := by
  have hall : ∀ x : BitVec 8, x.zeroExtend 32 &&& 0x80#32 = 0 ↔ x < 0x80#8 := by decide +kernel
  rw [UInt8.lt_iff_toBitVec_lt]
  exact hall b.toBitVec

theorem byteAt_of_drop {data rest : List UInt8} {pos : ℕ} {b : UInt8}
    (h : data.drop pos = b :: rest) :
    byteAt data pos = b.toBitVec.zeroExtend 32 := by
  have hb : data[pos]? = some b := by
    rw [← Nat.add_zero pos, ← List.getElem?_drop, h]
    rfl
  simp [byteAt, List.getD_eq_getElem?_getD, hb]

theorem lt_length_of_drop {data rest : List UInt8} {pos : ℕ} {b : UInt8}
    (h : data.drop pos = b :: rest) : pos < data.length := by
  by_contra hn
  rw [List.drop_eq_nil_of_le (by omega)] at h
  exact absurd h (by simp)

theorem varintLoop_eq (data rest : List UInt8) (result : BitVec 32) (shift pos : ℕ)
    (h : data.drop pos = rest) :
    varintLoop data result shift pos = (result ||| varintValue shift (varintBytes rest), pos + ((varintBytes rest).length : ℤ)) := by
  induction rest generalizing result shift pos with
  | nil =>
    have hle : ¬ (pos : ℤ) < data.length := by
      have := List.drop_eq_nil_iff.mp h
      omega
    rw [varintLoop, if_neg hle]
    simp [varintBytes, varintValue]
  | cons b rest ih =>
    have hlt : (pos : ℤ) < data.length := by
      have := lt_length_of_drop h
      omega
    have hrest : data.drop (pos + 1) = rest := by rw [← List.drop_drop, h, List.drop_succ_cons, List.drop_zero]
    rw [varintLoop, if_pos hlt]
    simp only [byteAt_of_drop h, continuation_iff]
    by_cases hb : b < 0x80
    · simp [varintBytes, varintValue, hb]
    · have hpos : (pos : ℤ) + 1 = ((pos + 1 : ℕ) : ℤ) := by omega
      rw [if_neg hb, hpos, ih _ _ _ hrest]
      simp only [varintBytes, if_neg hb, varintValue, List.length_cons, BitVec.or_assoc]
      congr 1
      omega

theorem decodeVarint_eq (data : List UInt8) (pos : ℕ) :
    decodeVarint data pos = (varintValue 0 (varintBytes (data.drop pos)), pos + ((varintBytes (data.drop pos)).length : ℤ)) := by
  rw [decodeVarint, varintLoop_eq data _ 0 0 pos rfl]
  simp

theorem varintBytes_length_pos {text : List UInt8}
    (h : text ≠ []) : 0 < (varintBytes text).length := by
  cases text with
  | nil => exact absurd rfl h
  | cons b rest =>
    unfold varintBytes
    split <;> simp

theorem decodeField_pos {data : List UInt8} {pos : ℕ} (h : pos < data.length) :
    (∃ fieldNum, (decodeField data pos).fieldNum = some fieldNum) ∧ (decodeField data pos).pos = pos + fieldSize (data.drop pos) := by
  have hlt : ¬ (data.length : ℤ) ≤ pos := by omega
  have hbody : data.drop (pos + (varintBytes (data.drop pos)).length) = bodyOf (data.drop pos) := by rw [bodyOf, List.drop_drop]
  have hsecond := decodeVarint_eq data (pos + (varintBytes (data.drop pos)).length)
  rw [hbody, Nat.cast_add] at hsecond
  unfold decodeField fieldSize wireTypeOf
  simp only [if_neg hlt, decodeVarint_eq data pos, hsecond]
  split_ifs
  · exact ⟨⟨_, rfl⟩, by simp only; omega⟩
  · exact ⟨⟨_, rfl⟩, by simp only; omega⟩
  · exact ⟨⟨_, rfl⟩, by simp only; omega⟩
  · exact ⟨⟨_, rfl⟩, by simp only; omega⟩
  · exact ⟨⟨_, rfl⟩, by simp only; omega⟩

theorem fieldSize_le_zero_iff {text : List UInt8}
    (h : text ≠ []) : fieldSize text ≤ 0 ↔ BackwardLength text := by
  have hpos := varintBytes_length_pos h
  unfold fieldSize BackwardLength
  by_cases hlen : wireTypeOf text = WireType.len
  · have hvarint : wireTypeOf text ≠ WireType.varint := by
      rw [hlen]
      decide
    rw [if_neg hvarint, if_pos hlen]
    refine ⟨fun hle => ⟨hlen, by omega⟩, fun hb => ?_⟩
    have := hb.2
    omega
  · refine iff_of_false ?_ fun hb => hlen hb.1
    rw [if_neg hlen]
    split_ifs <;> omega

/-! ### Walks -/

/-- The cursors that the loop of `decodeMessage` calls `decodeField` with, or stops at. -/
inductive CursorAt (data : List UInt8) : ℤ → Prop where
  | start : CursorAt data 0
  | next {pos : ℤ} : CursorAt data pos → pos < data.length → CursorAt data (decodeField data pos).pos

/-- The walk ends; each call begins in the buffer, moves the cursor on, and
returns bytes of the buffer. -/
structure Sound (data : List UInt8) : Prop where
  terminates : ∃ fuel fields, decodeMessage data fuel = some fields
  advances : ∀ pos, CursorAt data pos → pos < data.length → 0 ≤ pos ∧ pos < (decodeField data pos).pos
  inside : ∀ pos, CursorAt data pos → ∀ bytes, (decodeField data pos).value = .bytes bytes → bytes <:+: data

theorem slice_infix (buffer : List UInt8) (start stop : ℤ) : slice buffer start stop <:+: buffer :=
  (List.drop_suffix _ _).isInfix.trans (List.take_prefix _ _).isInfix

theorem decodeField_inside {data bytes : List UInt8} {pos : ℤ}
    (h : (decodeField data pos).value = .bytes bytes) : bytes <:+: data := by
  unfold decodeField at h
  simp only at h
  split_ifs at h
  · simp only [Value.bytes.injEq] at h
    exact h ▸ slice_infix _ _ _
  · simp only [Value.bytes.injEq] at h
    exact h ▸ slice_infix _ _ _
  · simp only [Value.bytes.injEq] at h
    exact h ▸ slice_infix _ _ _

theorem drop_ne_nil {data : List UInt8} {pos : ℕ} (h : pos < data.length) : data.drop pos ≠ [] := by
  rw [ne_eq, List.drop_eq_nil_iff]
  omega

theorem cursorAt_fieldAt {data : List UInt8} (h : ∀ pos, FieldAt data pos → pos < data.length → ¬ BackwardLength (data.drop pos)) {pos : ℤ}
    (hc : CursorAt data pos) : ∃ n : ℕ, pos = n ∧ FieldAt data n := by
  induction hc with
  | start => exact ⟨0, rfl, .start⟩
  | @next pos _ hlt ih =>
    obtain ⟨n, rfl, hn⟩ := ih
    have hlt : n < data.length := by omega
    have hsize : ¬ fieldSize (data.drop n) ≤ 0 := by
      rw [fieldSize_le_zero_iff (drop_ne_nil hlt)]
      exact h n hn hlt
    obtain ⟨size, hs⟩ := Int.eq_ofNat_of_zero_le (show 0 ≤ fieldSize (data.drop n) by omega)
    refine ⟨n + size, ?_, .next hn hlt hs.symm⟩
    rw [(decodeField_pos hlt).2, hs]
    omega

theorem fieldAt_cursorAt {data : List UInt8} {pos : ℕ}
    (h : FieldAt data pos) : CursorAt data pos := by
  induction h with
  | start => exact .start
  | @next pos size _ hlt hs ih =>
    have hn := CursorAt.next ih (by omega)
    rw [(decodeField_pos hlt).2, ← hs] at hn
    exact_mod_cast hn

theorem decodeLoop_ends {data : List UInt8} (h : ∀ pos, FieldAt data pos → pos < data.length → ¬ BackwardLength (data.drop pos)) (fuel : ℕ)
    {pos : ℕ} (fields : Fields) (hp : FieldAt data pos) (hf : data.length - pos < fuel) :
    ∃ result, decodeLoop data fuel pos fields = some result := by
  induction fuel generalizing pos fields with
  | zero => omega
  | succ fuel ih =>
    rw [decodeLoop]
    by_cases hlt : pos < data.length
    · obtain ⟨⟨fieldNum, hnum⟩, hpos⟩ := decodeField_pos hlt
      have hsize : ¬ fieldSize (data.drop pos) ≤ 0 := by
        rw [fieldSize_le_zero_iff (drop_ne_nil hlt)]
        exact h pos hp hlt
      obtain ⟨size, hs⟩ := Int.eq_ofNat_of_zero_le (show 0 ≤ fieldSize (data.drop pos) by omega)
      rw [if_pos (by omega)]
      simp only [hnum, hpos, hs, ← Nat.cast_add]
      exact ih _ (.next hp hlt hs.symm) (by omega)
    · exact ⟨fields, if_neg (by omega)⟩

theorem decodeMessage_sound_iff (data : List UInt8) :
    Sound data ↔ ∀ pos, FieldAt data pos → pos < data.length → ¬ BackwardLength (data.drop pos) := by
  constructor
  · intro h pos hp hlt hback
    have hadv := (h.advances pos (fieldAt_cursorAt hp) (by omega)).2
    rw [(decodeField_pos hlt).2] at hadv
    have hle := (fieldSize_le_zero_iff (drop_ne_nil hlt)).mpr hback
    omega
  · intro h
    refine ⟨?_, ?_, fun pos _ bytes hb => decodeField_inside hb⟩
    · obtain ⟨result, hr⟩ := decodeLoop_ends h (data.length + 1) Table.empty .start (by omega)
      exact ⟨data.length + 1, result, hr⟩
    · intro pos hc hlt
      obtain ⟨n, rfl, hn⟩ := cursorAt_fieldAt h hc
      have hlt : n < data.length := by omega
      have hsize : ¬ fieldSize (data.drop n) ≤ 0 := by
        rw [fieldSize_le_zero_iff (drop_ne_nil hlt)]
        exact h n hn hlt
      refine ⟨by omega, ?_⟩
      rw [(decodeField_pos hlt).2]
      omega

/-! ### Headers of frames -/

def declaredLength (buffer : List UInt8) : ℕ :=
  (buffer.getD 1 0).toNat * 2 ^ 24 + (buffer.getD 2 0).toNat * 2 ^ 16 + (buffer.getD 3 0).toNat * 2 ^ 8 + (buffer.getD 4 0).toNat

theorem byteAt_toNat (buffer : List UInt8) (i : ℕ) :
    (byteAt buffer i).toNat = (buffer.getD i 0).toNat := by
  have hlt : (buffer.getD i 0).toNat < 256 := (buffer.getD i 0).toNat_lt
  simp only [byteAt, Int.natCast_nonneg, if_true, Int.toNat_natCast, BitVec.toNat_setWidth, UInt8.toNat_toBitVec]
  exact Nat.mod_eq_of_lt (by omega)

theorem headerLength_toNat (buffer : List UInt8) :
    ((byteAt buffer 1 <<< 24) ||| (byteAt buffer 2 <<< 16) ||| (byteAt buffer 3 <<< 8) ||| byteAt buffer 4).toNat = declaredLength buffer := by
  have h1 := byteAt_toNat buffer 1
  have h2 := byteAt_toNat buffer 2
  have h3 := byteAt_toNat buffer 3
  have h4 := byteAt_toNat buffer 4
  have l1 := (buffer.getD 1 0).toNat_lt
  have l2 := (buffer.getD 2 0).toNat_lt
  have l3 := (buffer.getD 3 0).toNat_lt
  have l4 := (buffer.getD 4 0).toNat_lt
  simp only [Nat.cast_one, Nat.cast_ofNat] at h1 h2 h3 h4
  unfold declaredLength
  rw [BitVec.toNat_or, BitVec.toNat_or, BitVec.toNat_or, BitVec.toNat_shiftLeft,
    BitVec.toNat_shiftLeft, BitVec.toNat_shiftLeft, h1, h2, h3, h4]
  generalize (buffer.getD 1 0).toNat = a at *
  generalize (buffer.getD 2 0).toNat = b at *
  generalize (buffer.getD 3 0).toNat = c at *
  generalize (buffer.getD 4 0).toNat = d at *
  -- the bytes are put together from the left, each pair by one shift
  have hab : a <<< 24 ||| b <<< 16 = (a * 2 ^ 8 + b) <<< 16 := by
    rw [show 24 = 8 + 16 from rfl, Nat.shiftLeft_add, ← Nat.shiftLeft_or_distrib,
      ← Nat.shiftLeft_add_eq_or_of_lt (by omega), Nat.shiftLeft_eq a 8]
  have habc : (a * 2 ^ 8 + b) <<< 16 ||| c <<< 8 = ((a * 2 ^ 8 + b) * 2 ^ 8 + c) <<< 8 := by
    rw [show 16 = 8 + 8 from rfl, Nat.shiftLeft_add, ← Nat.shiftLeft_or_distrib,
      ← Nat.shiftLeft_add_eq_or_of_lt (by omega), Nat.shiftLeft_eq (a * 2 ^ 8 + b) 8]
  have ha : a <<< 24 % 2 ^ 32 = a <<< 24 := Nat.mod_eq_of_lt (by rw [Nat.shiftLeft_eq]; omega)
  have hb : b <<< 16 % 2 ^ 32 = b <<< 16 := Nat.mod_eq_of_lt (by rw [Nat.shiftLeft_eq]; omega)
  have hc : c <<< 8 % 2 ^ 32 = c <<< 8 := Nat.mod_eq_of_lt (by rw [Nat.shiftLeft_eq]; omega)
  rw [ha, hb, hc, hab, habc, ← Nat.shiftLeft_add_eq_or_of_lt (by omega), Nat.shiftLeft_eq]
  omega

/-- A frame is as long as it says unless the top bit of its length is set and it does
not fit into the header again. -/
theorem consumed_iff {gunzip : List UInt8 → Option (List UInt8)} {buffer : List UInt8}
    {frame : Frame} (h : parseConnectRPCFrame gunzip buffer = some frame) :
    (0 < frame.consumed ∧ frame.consumed ≤ buffer.length) ↔ ¬ (2 ^ 31 ≤ declaredLength buffer ∧ declaredLength buffer < 2 ^ 32 - 4) := by
  unfold parseConnectRPCFrame at h
  simp only at h
  split at h
  · exact absurd h (by simp)
  rename_i hshort
  split at h
  · exact absurd h (by simp)
  rename_i hlong
  have hlt : declaredLength buffer < 2 ^ 32 := by
    rw [← headerLength_toNat]
    exact BitVec.isLt _
  have hint := BitVec.toInt_eq_toNat_cond ((byteAt buffer 1 <<< 24) ||| (byteAt buffer 2 <<< 16) ||| (byteAt buffer 3 <<< 8) ||| byteAt buffer 4)
  rw [headerLength_toNat] at hint
  simp only [Option.some.injEq] at h
  subst h
  simp only
  generalize ((byteAt buffer 1 <<< 24) ||| (byteAt buffer 2 <<< 16) ||| (byteAt buffer 3 <<< 8) ||| byteAt buffer 4).toInt = length at *
  split_ifs at hint with hsign <;> omega

/-- When the decoder ends, and when a frame has a length: a length that is read as a
negative number is what both miss. -/
theorem decoder_progress (gunzip : List UInt8 → Option (List UInt8)) (data buffer : List UInt8) :
    (Sound data ↔ ∀ pos, FieldAt data pos → pos < data.length → ¬ BackwardLength (data.drop pos)) ∧
      ∀ frame, parseConnectRPCFrame gunzip buffer = some frame →
        ((0 < frame.consumed ∧ frame.consumed ≤ buffer.length) ↔
          ¬ (2 ^ 31 ≤ declaredLength buffer ∧ declaredLength buffer < 2 ^ 32 - 4)) :=
  ⟨decodeMessage_sound_iff data, fun _ h => consumed_iff h⟩

/-- Six bytes with the length -6, and a header with the length -2147483648. -/
theorem backward_message :
    ¬ (∃ fuel fields, decodeMessage [0x0a, 0xfa, 0xff, 0xff, 0xff, 0x0f] fuel = some fields) ∧
      parseConnectRPCFrame (fun _ => none) [0, 0x80, 0, 0, 0] = some ⟨0, -2147483648, [], -2147483643⟩ := by
  have hstep : decodeField [0x0a, 0xfa, 0xff, 0xff, 0xff, 0x0f] 0 = ⟨some 1, some 2, .bytes [],
    0⟩ := by decide +kernel
  have hnone : ∀ fuel fields, decodeLoop [0x0a, 0xfa, 0xff, 0xff, 0xff, 0x0f] fuel 0 fields = none := by
    intro fuel
    induction fuel with
    | zero => exact fun _ => rfl
    | succ fuel ih =>
      intro fields
      rw [decodeLoop, if_pos (by decide), hstep]
      exact ih _
  refine ⟨?_, by decide +kernel⟩
  rintro ⟨fuel, fields, h⟩
  rw [decodeMessage, hnone] at h
  exact absurd h (by simp)

end TokenProxy.Cursor
