import TokenProxy.Cursor.Protobuf
import TokenProxy.Lib.Utf8
import Mathlib.Data.List.Induction

/-!
# The protobuf encoder

`encodeVarint` and `encodeField` write what `decodeField` reads. A field that is read back wherever
it stands in a message is a `WireField`, and a message is a list of these: `decodeMessage_message`
says what `decodeMessage` collects from it.
-/

namespace TokenProxy.Cursor

open Lib

/-! ### Writing -/

/-- `>>>` takes its operand modulo 2³². -/
def encodeVarint (value : ℕ) : List UInt8 :=
  if 0x80 ≤ value then UInt8.ofNat ((value &&& 0x7F) ||| 0x80) :: encodeVarint ((value % 2 ^ 32) >>> 7)
  else [UInt8.ofNat (value &&& 0x7F)]
termination_by value
decreasing_by
  rw [Nat.shiftRight_eq_div_pow]
  have := Nat.mod_le value (2 ^ 32)
  omega

/-- What `encodeField` is given. -/
inductive Payload where
  | number (value : ℕ)
  | text (value : List Char)
  | bytes (value : List UInt8)
  deriving DecidableEq

def Payload.toNumber : Payload → ℕ
  | .number value => value
  | .text _ => 0
  | .bytes _ => 0

def Payload.dataBytes : Payload → List UInt8
  | .number _ => []
  | .text value => Utf8Decoder.encode value
  | .bytes value => value

def encodeField (fieldNum wireType : ℕ) (value : Payload) : List UInt8 :=
  let tagBytes := encodeVarint ((fieldNum <<< 3) ||| wireType)
  if wireType = WireType.varint then tagBytes ++ encodeVarint value.toNumber
  else if wireType = WireType.len then tagBytes ++ (encodeVarint value.dataBytes.length ++ value.dataBytes)
  else []

def littleEndian : ℕ → ℕ → List UInt8
  | 0, _ => []
  | count + 1, value => UInt8.ofNat value :: littleEndian count (value / 256)

def ofLittleEndian : List UInt8 → ℕ
  | [] => 0
  | b :: rest => b.toNat + 256 * ofLittleEndian rest

/-- `setFloat64(0, value, true)`, for the double with these bits. -/
def float64Bytes (bits : BitVec 64) : List UInt8 := littleEndian 8 bits.toNat

def encodeDoubleField (fieldNum : ℕ) (bits : BitVec 64) : List UInt8 :=
  encodeVarint ((fieldNum <<< 3) ||| WireType.fixed64) ++ float64Bytes bits

-- Lean derives the equations of a recursive definition at the first proof that unfolds it.
-- The proofs of a module are elaborated side by side; asked for once, here, the equations
-- are the same for all of them.
section
attribute [local simp] encodeVarint littleEndian ofLittleEndian varintBytes varintValue decodeVarint
end

theorem length_littleEndian (count value : ℕ) : (littleEndian count value).length = count := by
  induction count generalizing value with
  | zero => rfl
  | succ count ih => rw [littleEndian, List.length_cons, ih]

theorem ofLittleEndian_littleEndian (count value : ℕ) :
    ofLittleEndian (littleEndian count value) = value % 256 ^ count := by
  induction count generalizing value with
  | zero => rw [littleEndian, ofLittleEndian, Nat.pow_zero, Nat.mod_one]
  | succ count ih =>
    have hbyte : (UInt8.ofNat value).toNat = value % 256 := UInt8.toNat_ofNat'
    rw [littleEndian, ofLittleEndian, ih, hbyte, Nat.pow_succ', Nat.mod_mul]

/-! ### Varints -/

theorem encodeVarint_of_lt {value : ℕ} (h : value < 0x80) :
    encodeVarint value = [UInt8.ofNat value] := by
  rw [encodeVarint, if_neg (by omega)]
  congr 2
  exact (Nat.and_two_pow_sub_one_eq_mod value 7).trans (Nat.mod_eq_of_lt h)

theorem encodeVarint_of_le {value : ℕ} (h : 0x80 ≤ value) (hlt : value < 2 ^ 32) :
    encodeVarint value = UInt8.ofNat (value % 0x80 ||| 0x80) :: encodeVarint (value / 0x80) := by
  rw [encodeVarint, if_pos h, Nat.mod_eq_of_lt hlt, Nat.shiftRight_eq_div_pow]
  congr 3
  exact Nat.and_two_pow_sub_one_eq_mod value 7

theorem continued_byte {n : ℕ} (h : n < 0x80) :
    ¬ UInt8.ofNat (n ||| 0x80) < 0x80 ∧ (UInt8.ofNat (n ||| 0x80)).toBitVec.zeroExtend 32 &&& 0x7F#32 = BitVec.ofNat 32 n := by
  have hall : ∀ k : Fin 128,
      ¬ UInt8.ofNat (k.val ||| 0x80) < 0x80 ∧
        (UInt8.ofNat (k.val ||| 0x80)).toBitVec.zeroExtend 32 &&& 0x7F#32 = BitVec.ofNat 32 k.val := by decide +kernel
  exact hall ⟨n, h⟩

theorem last_byte {n : ℕ} (h : n < 0x80) :
    UInt8.ofNat n < 0x80 ∧ (UInt8.ofNat n).toBitVec.zeroExtend 32 &&& 0x7F#32 = BitVec.ofNat 32 n := by
  have hall : ∀ k : Fin 128,
      UInt8.ofNat k.val < 0x80 ∧ (UInt8.ofNat k.val).toBitVec.zeroExtend 32 &&& 0x7F#32 = BitVec.ofNat 32 k.val := by decide +kernel
  exact hall ⟨n, h⟩

theorem varintBytes_encodeVarint {value : ℕ} (h : value < 2 ^ 32) (rest : List UInt8) :
    varintBytes (encodeVarint value ++ rest) = encodeVarint value := by
  induction value using Nat.strong_induction_on with
  | _ value ih =>
    by_cases hvalue : value < 0x80
    · rw [encodeVarint_of_lt hvalue, List.cons_append, varintBytes, if_pos (last_byte hvalue).1]
    · rw [encodeVarint_of_le (by omega) h, List.cons_append, varintBytes, if_neg (continued_byte (by omega)).1,
        ih (value / 0x80) (by omega) (by omega)]

theorem ofNat_split (value : ℕ) :
    BitVec.ofNat 32 value = BitVec.ofNat 32 (value % 0x80) ||| BitVec.ofNat 32 (value / 0x80) <<< 7 := by
  have hvalue : (value / 0x80) <<< 7 ||| value % 0x80 = value := by
    rw [← Nat.shiftLeft_add_eq_or_of_lt (by omega), Nat.shiftLeft_eq]
    omega
  have hshift : BitVec.ofNat 32 ((value / 0x80) <<< 7) = BitVec.ofNat 32 (value / 0x80) <<< 7 := by
    apply BitVec.eq_of_toNat_eq
    simp [BitVec.toNat_shiftLeft, Nat.shiftLeft_eq]
  rw [← hshift, ← BitVec.ofNat_or, Nat.or_comm, hvalue]

theorem varintValue_encodeVarint {value : ℕ} (h : value < 2 ^ 32) (shift : ℕ)
    (hshift : value * 2 ^ shift < 2 ^ 32) (hlt : shift < 32) :
    varintValue shift (encodeVarint value) = BitVec.ofNat 32 value <<< shift := by
  induction value using Nat.strong_induction_on generalizing shift with
  | _ value ih =>
    by_cases hvalue : value < 0x80
    · rw [encodeVarint_of_lt hvalue, varintValue, (last_byte hvalue).2, varintValue, Nat.mod_eq_of_lt hlt]
      exact BitVec.or_zero
    · have hseven : value / 0x80 * 2 ^ (shift + 7) ≤ value * 2 ^ shift := by
        rw [Nat.pow_add, Nat.mul_comm (2 ^ shift), ← Nat.mul_assoc]
        exact Nat.mul_le_mul_right _ (Nat.div_mul_le_self value 0x80)
      have hroom : shift + 7 < 32 := by
        by_contra hge
        have hpow : 2 ^ 25 ≤ 2 ^ shift := Nat.pow_le_pow_right (by omega) (by omega)
        have hmul : 0x80 * 2 ^ 25 ≤ value * 2 ^ shift := Nat.mul_le_mul (by omega) hpow
        omega
      rw [encodeVarint_of_le (by omega) h, varintValue, (continued_byte (Nat.mod_lt value (by omega))).2, Nat.mod_eq_of_lt hlt,
        ih (value / 0x80) (by omega) (by omega) (shift + 7) (by omega) hroom, ofNat_split value, BitVec.shiftLeft_or_distrib,
        ← BitVec.shiftLeft_add, Nat.add_comm 7 shift]

theorem decodeVarint_encodeVarint {value : ℕ} (h : value < 2 ^ 32) (before after : List UInt8) :
    decodeVarint (before ++ (encodeVarint value ++ after)) before.length =
      (BitVec.ofNat 32 value, ((before.length + (encodeVarint value).length : ℕ) : ℤ)) := by
  rw [decodeVarint_eq, List.drop_left, varintBytes_encodeVarint h,
    varintValue_encodeVarint h 0 (by omega) (by omega), BitVec.shiftLeft_zero, Nat.cast_add]

/-! ### The sign of a varint -/

/-- One of the seven bits of a byte is moved to the place of the sign. -/
def setsSign (shift : ℕ) : List UInt8 → Bool
  | [] => false
  | b :: rest => (decide (25 ≤ shift % 32) && b.toNat.testBit (31 - shift % 32)) || setsSign (shift + 7) rest

theorem msb_group (b : UInt8) {shift : ℕ} (h : shift < 32) :
    ((b.toBitVec.zeroExtend 32 &&& 0x7F#32) <<< shift).msb = (decide (25 ≤ shift) && b.toNat.testBit (31 - shift)) := by
  have hseven : (0x7F#32).getLsbD (31 - shift) = decide (25 ≤ shift) := by
    have hall : ∀ place : Fin 32, (0x7F#32).getLsbD (31 - place.val) = decide (25 ≤ place.val) := by decide +kernel
    exact hall ⟨shift, h⟩
  rw [BitVec.msb_eq_getLsbD_last, BitVec.getLsbD_shiftLeft, BitVec.getLsbD_and, hseven]
  simp only [BitVec.truncate_eq_setWidth, BitVec.getLsbD_setWidth]
  have hplace : decide (32 - 1 < shift) = false := by simpa using by omega
  have hinside : decide (32 - 1 < 32) = true := rfl
  have hroom : decide (32 - 1 - shift < 32) = true := by simpa using by omega
  rw [hplace, hinside, hroom, Bool.and_comm, Bool.true_and, Bool.not_false, Bool.and_true,
    Bool.and_true, Bool.and_comm]
  rfl

theorem msb_varintValue (shift : ℕ) (text : List UInt8) :
    (varintValue shift text).msb = setsSign shift text := by
  induction text generalizing shift with
  | nil => simp [varintValue, setsSign]
  | cons b rest ih => rw [varintValue, setsSign, BitVec.msb_or, ih, msb_group b (Nat.mod_lt shift (by omega))]

/-- Numbers below 2³¹ come back; the others come back as negative numbers, and so does
every text that sets the sign. -/
theorem varint_round_trip (n : ℕ) (before after data : List UInt8) (pos : ℕ) :
    (n < 2 ^ 32 →
      (((decodeVarint (before ++ (encodeVarint n ++ after)) before.length).1.toInt = n ∧
        (decodeVarint (before ++ (encodeVarint n ++ after)) before.length).2 = ((before.length + (encodeVarint n).length : ℕ) : ℤ)) ↔
          n < 2 ^ 31)) ∧
      (0 ≤ (decodeVarint data pos).1.toInt ↔ setsSign 0 (varintBytes (data.drop pos)) = false) := by
  constructor
  · intro h
    rw [decodeVarint_encodeVarint h, and_iff_left rfl]
    have hint := BitVec.toInt_eq_toNat_cond (BitVec.ofNat 32 n)
    rw [BitVec.toNat_ofNat, Nat.mod_eq_of_lt h] at hint
    rw [hint]
    split_ifs <;> omega
  · rw [decodeVarint_eq, ← msb_varintValue, Bool.eq_false_iff, ne_eq, BitVec.msb_eq_toInt]
    simp only [decide_eq_true_eq, not_lt]

/-- 2³¹, which its bytes give back as -2³¹. -/
theorem varint_negative :
    (decodeVarint (encodeVarint 2147483648) 0).1.toInt = -2147483648 ∧ (decodeVarint [0x80, 0x80, 0x80, 0x80, 0x08] 0).1.toInt < 0 := by
  have hbytes : encodeVarint 2147483648 = [0x80, 0x80, 0x80, 0x80, 0x08] := by decide +kernel
  rw [hbytes]
  decide +kernel

/-! ### Fields in a message -/

/-- A field as it stands in a message: whatever is around it, `decodeField`
reads it and moves behind it. -/
structure WireField where
  fieldNum : ℕ
  wireType : ℕ
  value : Value
  bytes : List UInt8
  ne_nil : bytes ≠ []
  reads : ∀ before after : List UInt8,
    decodeField (before ++ (bytes ++ after)) before.length = ⟨some fieldNum, some wireType, value, ((before.length + bytes.length : ℕ) : ℤ)⟩

namespace WireField

def tag (fieldNum wireType : ℕ) : ℕ := (fieldNum <<< 3) ||| wireType

theorem tag_spec {fieldNum wireType : ℕ} (hnum : fieldNum < 16) (htype : wireType < 8) :
    tag fieldNum wireType < 0x80 ∧ ((BitVec.ofNat 32 (tag fieldNum wireType)).sshiftRight 3).toInt = fieldNum ∧
      (BitVec.ofNat 32 (tag fieldNum wireType) &&& 7#32).toNat = wireType := by
  have hall : ∀ (n : Fin 16) (t : Fin 8),
      tag n t < 0x80 ∧ ((BitVec.ofNat 32 (tag n t)).sshiftRight 3).toInt = (n : ℕ) ∧ (BitVec.ofNat 32 (tag n t) &&& 7#32).toNat = t := by
    decide +kernel
  exact hall ⟨fieldNum, hnum⟩ ⟨wireType, htype⟩

theorem length_tag {fieldNum wireType : ℕ} (hnum : fieldNum < 16)
    (htype : wireType < 8) : (encodeVarint (tag fieldNum wireType)).length = 1 := by
  rw [encodeVarint_of_lt (tag_spec hnum htype).1, List.length_singleton]

theorem decodeField_tag {fieldNum wireType : ℕ} (hnum : fieldNum < 16) (htype : wireType < 8)
    (before behind : List UInt8) :
    decodeField (before ++ encodeVarint (tag fieldNum wireType) ++ behind) before.length =
      let data := before ++ encodeVarint (tag fieldNum wireType) ++ behind
      let pos : ℤ := ((before ++ encodeVarint (tag fieldNum wireType)).length : ℕ)
      if wireType = WireType.varint then ⟨some fieldNum, some wireType, .number (decodeVarint data pos).1, (decodeVarint data pos).2⟩
      else if wireType = WireType.len then
        let length := (decodeVarint data pos).1.toInt
        let pos := (decodeVarint data pos).2
        ⟨some fieldNum, some wireType, .bytes (slice data pos (pos + length)), pos + length⟩
      else if wireType = WireType.fixed64 then ⟨some fieldNum, some wireType, .bytes (slice data pos (pos + 8)), pos + 8⟩
      else if wireType = WireType.fixed32 then ⟨some fieldNum, some wireType, .bytes (slice data pos (pos + 4)), pos + 4⟩
      else ⟨some fieldNum, some wireType, .null, pos⟩ := by
  obtain ⟨hone, hnumber, hwire⟩ := tag_spec hnum htype
  have hmore : ¬ ((before ++ encodeVarint (tag fieldNum wireType) ++ behind).length : ℤ) ≤ before.length := by
    simp only [List.length_append, length_tag hnum htype]
    omega
  have htag : decodeVarint (before ++ encodeVarint (tag fieldNum wireType) ++ behind) before.length =
      (BitVec.ofNat 32 (tag fieldNum wireType), (((before ++ encodeVarint (tag fieldNum wireType)).length : ℕ) : ℤ)) := by
    rw [List.append_assoc, decodeVarint_encodeVarint (lt_trans hone (by omega)), List.length_append]
  rw [decodeField, if_neg hmore]
  simp only [htag, hnumber, hwire]

theorem encodeField_varint (fieldNum value : ℕ) :
    encodeField fieldNum WireType.varint (.number value) = encodeVarint (tag fieldNum WireType.varint) ++ encodeVarint value := rfl

theorem encodeField_len (fieldNum : ℕ) (payload : Payload) :
    encodeField fieldNum WireType.len payload =
      encodeVarint (tag fieldNum WireType.len) ++ (encodeVarint payload.dataBytes.length ++ payload.dataBytes) := rfl

theorem encodeDoubleField_eq (fieldNum : ℕ) (bits : BitVec 64) :
    encodeDoubleField fieldNum bits = encodeVarint (tag fieldNum WireType.fixed64) ++ float64Bytes bits := rfl

theorem tag_append_ne_nil {fieldNum wireType : ℕ} (hnum : fieldNum < 16) (htype : wireType < 8)
    (body : List UInt8) :
    encodeVarint (tag fieldNum wireType) ++ body ≠ [] := by
  intro h
  have := congrArg List.length h
  rw [List.length_append, length_tag hnum htype, List.length_nil] at this
  omega

theorem slice_middle (before middle after : List UInt8) :
    slice (before ++ (middle ++ after)) (before.length : ℤ) ((before.length + middle.length : ℕ) : ℤ) = middle := by
  have hstop : clamp (before ++ (middle ++ after)).length ((before.length + middle.length : ℕ) : ℤ) = before.length + middle.length := by
    simp only [clamp, List.length_append]
    split <;> omega
  have hstart : clamp (before ++ (middle ++ after)).length (before.length : ℤ) = before.length := by
    simp only [clamp, List.length_append]
    split <;> omega
  rw [slice, hstop, hstart, ← List.append_assoc, ← List.length_append, List.take_left, List.drop_left]

/-- `encodeField(fieldNum, VARINT, value)` -/
def varint (fieldNum value : ℕ) (hnum : fieldNum < 16) (hvalue : value < 2 ^ 32) : WireField where
  fieldNum := fieldNum
  wireType := WireType.varint
  value := .number (BitVec.ofNat 32 value)
  bytes := encodeField fieldNum WireType.varint (.number value)
  ne_nil := tag_append_ne_nil hnum (by decide) _
  reads before after := by
    have hdata : before ++ (encodeField fieldNum WireType.varint (.number value) ++ after) =
        before ++ encodeVarint (tag fieldNum WireType.varint) ++ (encodeVarint value ++ after) := by
      simp only [encodeField_varint, List.append_assoc]
    rw [hdata, decodeField_tag hnum (by decide)]
    simp only [if_true, decodeVarint_encodeVarint hvalue]
    simp only [encodeField_varint, List.length_append, Nat.add_assoc]

/-- `encodeField(fieldNum, LEN, payload)` of bytes that a signed 32-bit length can count. -/
def len (fieldNum : ℕ) (payload : Payload) (hnum : fieldNum < 16)
    (hlength : payload.dataBytes.length < 2 ^ 31) : WireField where
  fieldNum := fieldNum
  wireType := WireType.len
  value := .bytes payload.dataBytes
  bytes := encodeField fieldNum WireType.len payload
  ne_nil := tag_append_ne_nil hnum (by decide) _
  reads before after := by
    have hsigned : (BitVec.ofNat 32 payload.dataBytes.length).toInt = payload.dataBytes.length := by
      rw [BitVec.toInt_eq_toNat_of_lt, BitVec.toNat_ofNat, Nat.mod_eq_of_lt (by omega)]
      rw [BitVec.toNat_ofNat, Nat.mod_eq_of_lt (by omega)]
      omega
    have hdata : before ++ (encodeField fieldNum WireType.len payload ++ after) =
        before ++ encodeVarint (tag fieldNum WireType.len) ++ (encodeVarint payload.dataBytes.length ++ (payload.dataBytes ++ after)) := by
      simp only [encodeField_len, List.append_assoc]
    have hmiddle := slice_middle (before ++ encodeVarint (tag fieldNum WireType.len) ++ encodeVarint payload.dataBytes.length)
      payload.dataBytes after
    rw [hdata, decodeField_tag hnum (by decide)]
    simp only [decodeVarint_encodeVarint (show payload.dataBytes.length < 2 ^ 32 by omega), hsigned]
    rw [if_neg (by decide), if_pos trivial, ← List.length_append, ← Nat.cast_add]
    rw [List.append_assoc (before ++ encodeVarint (tag fieldNum WireType.len))] at hmiddle
    rw [hmiddle]
    simp only [encodeField_len, List.length_append, Nat.add_assoc]

/-- `encodeDoubleField(fieldNum, value)` -/
def double (fieldNum : ℕ) (bits : BitVec 64) (hnum : fieldNum < 16) : WireField where
  fieldNum := fieldNum
  wireType := WireType.fixed64
  value := .bytes (float64Bytes bits)
  bytes := encodeDoubleField fieldNum bits
  ne_nil := tag_append_ne_nil hnum (by decide) _
  reads before after := by
    have hdata : before ++ (encodeDoubleField fieldNum bits ++ after) =
        before ++ encodeVarint (tag fieldNum WireType.fixed64) ++ (float64Bytes bits ++ after) := by
      simp only [encodeDoubleField_eq, List.append_assoc]
    have height : (float64Bytes bits).length = 8 := length_littleEndian 8 _
    have hmiddle := slice_middle (before ++ encodeVarint (tag fieldNum WireType.fixed64)) (float64Bytes bits) after
    rw [height, Nat.cast_add, Nat.cast_ofNat] at hmiddle
    rw [hdata, decodeField_tag hnum (by decide)]
    simp only
    rw [if_neg (by decide), if_neg (by decide), if_pos trivial, hmiddle]
    simp only [encodeDoubleField_eq, List.length_append, height, Nat.cast_add, Nat.cast_ofNat, add_assoc]

/-- What `decodeMessage` keeps of a field. -/
def entry (field : WireField) : Option ℕ × Value := (some field.wireType, field.value)

end WireField

/-! ### Messages -/

/-- `concatArrays(...fields)` -/
def message (fields : List WireField) : List UInt8 := fields.flatMap WireField.bytes

def collected (fields : List WireField) : Fields :=
  fields.foldl (fun acc field => acc.push field.fieldNum field.entry) Table.empty

theorem decodeLoop_message (fields : List WireField) (before : List UInt8) (acc : Fields) {fuel : ℕ}
    (h : fields.length < fuel) :
    decodeLoop (before ++ message fields) fuel before.length acc =
      some (fields.foldl (fun acc field => acc.push field.fieldNum field.entry) acc) := by
  induction fields generalizing before acc fuel with
  | nil =>
    obtain ⟨fuel, rfl⟩ := Nat.exists_eq_add_of_lt h
    rw [decodeLoop, if_neg (by simp [message])]
    rfl
  | cons field fields ih =>
    cases fuel with
    | zero => omega
    | succ fuel =>
      have hbytes : 0 < field.bytes.length := List.length_pos_iff.mpr field.ne_nil
      have hdata : before ++ message (field :: fields) = before ++ (field.bytes ++ message fields) := rfl
      have hrest := ih (before ++ field.bytes) (acc.push field.fieldNum field.entry) (Nat.lt_of_succ_lt_succ h)
      rw [decodeLoop, if_pos (by simp only [hdata, List.length_append]; omega), hdata, field.reads before (message fields)]
      simp only
      rw [List.append_assoc, List.length_append] at hrest
      exact hrest

theorem decodeMessage_message (fields : List WireField) {fuel : ℕ} (h : fields.length < fuel) :
    decodeMessage (message fields) fuel = some (collected fields) := by
  exact decodeLoop_message fields [] Table.empty h

def entriesOf (fieldNum : ℤ) (fields : List WireField) : List (Option ℕ × Value) :=
  (fields.filter fun field => (field.fieldNum : ℤ) == fieldNum).map WireField.entry

theorem lookup_collected (fieldNum : ℤ) (fields : List WireField) :
    (collected fields).lookup fieldNum = if entriesOf fieldNum fields = [] then none else some (entriesOf fieldNum fields) := by
  induction fields using List.reverseRecOn with
  | nil => rfl
  | append_singleton fields field ih =>
    have hsnoc : collected (fields ++ [field]) = (collected fields).push field.fieldNum field.entry := by
      rw [collected, List.foldl_append]
      rfl
    rw [hsnoc, Fields.push, Table.lookup_put]
    by_cases hnum : fieldNum = field.fieldNum
    · have hentries : entriesOf fieldNum (fields ++ [field]) = entriesOf fieldNum fields ++ [field.entry] := by
        simp [entriesOf, List.filter_append, hnum]
      have hold : ((collected fields).lookup (field.fieldNum : ℤ)).getD [] = entriesOf fieldNum fields := by
        rw [← hnum, ih]
        split
        · next hnil => rw [hnil, Option.getD_none]
        · rfl
      rw [if_pos hnum, hold, hentries, if_neg (by simp)]
    · have hentries : entriesOf fieldNum (fields ++ [field]) = entriesOf fieldNum fields := by
        simp [entriesOf, List.filter_append, Ne.symm hnum]
      rw [if_neg hnum, ih, hentries]

end TokenProxy.Cursor
