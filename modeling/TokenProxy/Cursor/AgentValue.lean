import TokenProxy.Cursor.WireFields

/-!
# Values of the tool protocol

`encodeAgentValue` writes a JSON value as nested messages, and `decodeAgentValue` reads such a
message. A length is written without a sign and read with one.
-/

namespace TokenProxy.Cursor

open Lib

/-- A JSON value: a number by its bits, a string by its code points, the entries
of an object in their order. -/
inductive AgentValue where
  | null
  | bool (value : Bool)
  | number (bits : BitVec 64)
  | string (text : List Char)
  | list (items : List AgentValue)
  | struct (entries : List (List Char × AgentValue))

/-- How a call ends that returns nothing: it throws, or it has not ended within its rounds. -/
inductive Failure where
  | thrown
  | unfinished
  deriving DecidableEq

abbrev Outcome := Except Failure

/-- What the stack has room for: a call of `encodeAgentValue` inside so many others, which hands so
many arrays on to `concatArrays`, and a call of `decodeAgentValue` inside so many others. -/
structure Runtime where
  encodes : ℕ → ℕ → Bool
  decodes : ℕ → Bool

/-- A call that throws a `RangeError` if the stack has no room for it. -/
def Runtime.call (room : Bool) : Outcome Unit := if room then .ok () else .error .thrown

/-! ### The encoder -/

/-- `concatArrays(...arrays)` -/
def concatArrays (runtime : Runtime) (depth : ℕ)
    (arrays : List (List UInt8)) : Outcome (List UInt8) := do
  Runtime.call (runtime.encodes depth arrays.length)
  return arrays.flatten

mutual

/-- `encodeAgentValue(value)`, inside so many other calls. -/
def encodeAgentValue (runtime : Runtime) (depth : ℕ) : AgentValue → Outcome (List UInt8)
  | .null => do
    Runtime.call (runtime.encodes depth 0)
    return encodeField 1 WireType.varint (.number 0)
  | .bool value => do
    Runtime.call (runtime.encodes depth 0)
    return encodeField 4 WireType.varint (.number (if value then 1 else 0))
  | .number bits => do
    Runtime.call (runtime.encodes depth 0)
    return encodeDoubleField 2 bits
  | .string text => do
    Runtime.call (runtime.encodes depth 0)
    return encodeField 3 WireType.len (.text text)
  | .list items => do
    Runtime.call (runtime.encodes depth 0)
    let items ← encodeItems runtime (depth + 1) items
    return encodeField 6 WireType.len (.bytes (← concatArrays runtime depth items))
  | .struct entries => do
    Runtime.call (runtime.encodes depth 0)
    let entries ← encodeEntries runtime (depth + 1) entries
    return encodeField 5 WireType.len (.bytes (← concatArrays runtime depth entries))

def encodeItems (runtime : Runtime) (depth : ℕ) : List AgentValue → Outcome (List (List UInt8))
  | [] => .ok []
  | item :: items => do
    let field := encodeField 1 WireType.len (.bytes (← encodeAgentValue runtime depth item))
    return field :: (← encodeItems runtime depth items)

def encodeEntries (runtime : Runtime) (depth : ℕ) : List (List Char × AgentValue) → Outcome (List (List UInt8))
  | [] => .ok []
  | (key, item) :: entries => do
    let field := encodeField 1 WireType.len (.bytes
      (encodeField 1 WireType.len (.text key) ++ encodeField 2 WireType.len (.bytes (← encodeAgentValue runtime depth item))))
    return field :: (← encodeEntries runtime depth entries)

end

/-! ### The decoder -/

/-- `decodeMessage(value)`: a number has no length, so it has no fields. -/
def messageOf (fuel : ℕ) : Value → Outcome Fields
  | .number _ => .ok Table.empty
  | .bytes data => match decodeMessage data fuel with
    | some fields => .ok fields
    | none => .error .unfinished
  | .null => .error .thrown

namespace Fields

def has (fields : Fields) (fieldNum : ℤ) : Bool := (fields.lookup fieldNum).isSome

/-- `fields.get(fieldNum) ?? []` -/
def all (fields : Fields) (fieldNum : ℤ) : List Value := ((fields.lookup fieldNum).getD []).map Prod.snd

/-- `fields.get(fieldNum)[0].value` -/
def first (fields : Fields) (fieldNum : ℤ) : Outcome Value :=
  match fields.all fieldNum with
  | value :: _ => .ok value
  | [] => .error .thrown

end Fields

/-- `Buffer.from(value)` and `Uint8Array.from(value)`; a number that the latter
takes has no eight bytes either. -/
def bytesOf : Value → Outcome (List UInt8)
  | .bytes data => .ok data
  | .number _ => .error .thrown
  | .null => .error .thrown

/-- `getFloat64(0, true)` -/
def getFloat64 (data : List UInt8) : Outcome (BitVec 64) :=
  if data.length < 8 then .error .thrown else .ok (BitVec.ofNat 64 (ofLittleEndian (data.take 8)))

/-- `toString("utf8")` -/
def utf8Text (data : List UInt8) : List Char := (({} : Utf8Decoder).decode data).2 ++ (({} : Utf8Decoder).decode data).1.finish

/-- `out[key] = value`, which sets the prototype for one key. -/
def setEntry (out : List (List Char × AgentValue)) (key : List Char)
    (value : AgentValue) : List (List Char × AgentValue) :=
  if key = "__proto__".toList then out
  else if out.any fun entry => entry.1 == key then out.map fun entry => if entry.1 = key then (key, value) else entry
  else out ++ [(key, value)]

def decodeEntry (fuel : ℕ) (decode : Value → Outcome AgentValue)
    (out : List (List Char × AgentValue)) (entry : Value) :
    Outcome (List (List Char × AgentValue)) := do
  let fields ← messageOf fuel entry
  let key ← bytesOf (← fields.first 1)
  let item ← decode (← fields.first 2)
  return setEntry out (utf8Text key) item

/-- `decodeAgentValue(bytes)`, inside so many other calls. -/
def decodeAgentValue (runtime : Runtime) : ℕ → ℕ → Value → Outcome AgentValue
  | 0, _, _ => .error .unfinished
  | fuel + 1, depth, bytes => do
    Runtime.call (runtime.decodes depth)
    let msg ← messageOf fuel bytes
    if msg.has 1 then
      return .null
    else if msg.has 2 then
      let raw ← bytesOf (← msg.first 2)
      return .number (← getFloat64 raw)
    else if msg.has 3 then
      let text ← bytesOf (← msg.first 3)
      return .string (utf8Text text)
    else if msg.has 4 then
      return .bool ((← msg.first 4) != .number 0)
    else if msg.has 6 then
      let list ← messageOf fuel (← msg.first 6)
      return .list (← (list.all 1).mapM (decodeAgentValue runtime fuel (depth + 1)))
    else
      let source ← if msg.has 5 then msg.first 5 else pure bytes
      let struct ← messageOf fuel source
      return .struct (← (struct.all 1).foldlM (decodeEntry fuel (decodeAgentValue runtime fuel (depth + 1))) [])

def reread (runtime : Runtime) (fuel : ℕ) (value : AgentValue) : Outcome AgentValue := do
  decodeAgentValue runtime fuel 0 (.bytes (← encodeAgentValue runtime 0 value))

/-! ### The bytes of a value -/

mutual

def agentBytes : AgentValue → List UInt8
  | .null => encodeField 1 WireType.varint (.number 0)
  | .bool value => encodeField 4 WireType.varint (.number (if value then 1 else 0))
  | .number bits => encodeDoubleField 2 bits
  | .string text => encodeField 3 WireType.len (.text text)
  | .list items => encodeField 6 WireType.len (.bytes (itemsBytes items))
  | .struct entries => encodeField 5 WireType.len (.bytes (entriesBytes entries))

def itemsBytes : List AgentValue → List UInt8
  | [] => []
  | item :: items => encodeField 1 WireType.len (.bytes (agentBytes item)) ++ itemsBytes items

def entriesBytes : List (List Char × AgentValue) → List UInt8
  | [] => []
  | (key, item) :: entries =>
    encodeField 1 WireType.len
      (.bytes (encodeField 1 WireType.len (.text key) ++ encodeField 2 WireType.len (.bytes (agentBytes item)))) ++ entriesBytes entries

end

mutual

/-- The stack has room for a value inside so many others: for each call, and for the
items of each list and object. -/
def AgentValue.Fits (room : ℕ → ℕ → Bool) (depth : ℕ) : AgentValue → Bool
  | .null => room depth 0
  | .bool _ => room depth 0
  | .number _ => room depth 0
  | .string _ => room depth 0
  | .list items => room depth 0 && (fitItems room (depth + 1) items && room depth items.length)
  | .struct entries => room depth 0 && (fitEntries room (depth + 1) entries && room depth entries.length)

def fitItems (room : ℕ → ℕ → Bool) (depth : ℕ) : List AgentValue → Bool
  | [] => true
  | item :: items => item.Fits room depth && fitItems room depth items

def fitEntries (room : ℕ → ℕ → Bool) (depth : ℕ) : List (List Char × AgentValue) → Bool
  | [] => true
  | (_, item) :: entries => item.Fits room depth && fitEntries room depth entries

end

/-- A result that is there if there is room, and else the call throws. -/
abbrev ifRoom {α : Type} (room : Bool) (a : α) : Outcome α := if room then .ok a else .error .thrown

theorem concatArrays_eq (runtime : Runtime) (depth : ℕ) (arrays : List (List UInt8)) :
    concatArrays runtime depth arrays = ifRoom (runtime.encodes depth arrays.length) arrays.flatten := by
  unfold concatArrays
  cases runtime.encodes depth arrays.length <;> rfl

mutual

theorem encodeAgentValue_eq (runtime : Runtime) : ∀ (value : AgentValue) (depth : ℕ),
    encodeAgentValue runtime depth value = ifRoom (value.Fits runtime.encodes depth) (agentBytes value)
  | .null, depth => by
    rw [encodeAgentValue, AgentValue.Fits]
    cases runtime.encodes depth 0 <;> rfl
  | .bool value, depth => by
    rw [encodeAgentValue, AgentValue.Fits]
    cases runtime.encodes depth 0 <;> rfl
  | .number bits, depth => by
    rw [encodeAgentValue, AgentValue.Fits]
    cases runtime.encodes depth 0 <;> rfl
  | .string text, depth => by
    rw [encodeAgentValue, AgentValue.Fits]
    cases runtime.encodes depth 0 <;> rfl
  | .list items, depth => by
    obtain ⟨arrays, hflatten, hlength, hitems⟩ := encodeItems_eq runtime items (depth + 1)
    rw [encodeAgentValue, AgentValue.Fits, agentBytes, hitems, ← hflatten, ← hlength]
    cases runtime.encodes depth 0 with
    | false => rfl
    | true =>
      cases fitItems runtime.encodes (depth + 1) items with
      | false => rfl
      | true =>
        show (do return encodeField 6 WireType.len (.bytes (← concatArrays runtime depth arrays))) = _
        rw [concatArrays_eq]
        cases runtime.encodes depth arrays.length <;> rfl
  | .struct entries, depth => by
    obtain ⟨arrays, hflatten, hlength, hentries⟩ := encodeEntries_eq runtime entries (depth + 1)
    rw [encodeAgentValue, AgentValue.Fits, agentBytes, hentries, ← hflatten, ← hlength]
    cases runtime.encodes depth 0 with
    | false => rfl
    | true =>
      cases fitEntries runtime.encodes (depth + 1) entries with
      | false => rfl
      | true =>
        show (do return encodeField 5 WireType.len (.bytes (← concatArrays runtime depth arrays))) = _
        rw [concatArrays_eq]
        cases runtime.encodes depth arrays.length <;> rfl

theorem encodeItems_eq (runtime : Runtime) : ∀ (items : List AgentValue) (depth : ℕ),
    ∃ arrays : List (List UInt8), arrays.flatten = itemsBytes items ∧ arrays.length = items.length ∧
      encodeItems runtime depth items = ifRoom (fitItems runtime.encodes depth items) arrays
  | [], depth => ⟨[], rfl, rfl, rfl⟩
  | item :: items, depth => by
    obtain ⟨arrays, hflatten, hlength, hitems⟩ := encodeItems_eq runtime items depth
    refine ⟨encodeField 1 WireType.len (.bytes (agentBytes item)) :: arrays, ?_, ?_, ?_⟩
    · rw [List.flatten_cons, hflatten, itemsBytes]
    · rw [List.length_cons, List.length_cons, hlength]
    · rw [encodeItems, encodeAgentValue_eq runtime item depth, hitems, fitItems]
      cases item.Fits runtime.encodes depth <;> cases fitItems runtime.encodes depth items <;> rfl

theorem encodeEntries_eq (runtime : Runtime) :
    ∀ (entries : List (List Char × AgentValue)) (depth : ℕ),
    ∃ arrays : List (List UInt8), arrays.flatten = entriesBytes entries ∧ arrays.length = entries.length ∧
      encodeEntries runtime depth entries = ifRoom (fitEntries runtime.encodes depth entries) arrays
  | [], depth => ⟨[], rfl, rfl, rfl⟩
  | (key, item) :: entries, depth => by
    obtain ⟨arrays, hflatten, hlength, hentries⟩ := encodeEntries_eq runtime entries depth
    refine ⟨encodeField 1 WireType.len (.bytes
      (encodeField 1 WireType.len (.text key) ++ encodeField 2 WireType.len (.bytes (agentBytes item)))) :: arrays, ?_, ?_, ?_⟩
    · rw [List.flatten_cons, hflatten, entriesBytes]
    · rw [List.length_cons, List.length_cons, hlength]
    · rw [encodeEntries, encodeAgentValue_eq runtime item depth, hentries, fitEntries]
      cases item.Fits runtime.encodes depth <;> cases fitEntries runtime.encodes depth entries <;> rfl

end

/-! ### Sizes -/

def varintSize (value : ℕ) : ℕ := if value < 0x80 then 1 else varintSize (value / 0x80) + 1

def lenFieldSize (length : ℕ) : ℕ := 1 + varintSize length + length

mutual

def AgentValue.size : AgentValue → ℕ
  | .null => 2
  | .bool _ => 2
  | .number _ => 9
  | .string text => lenFieldSize (Utf8Decoder.encode text).length
  | .list items => lenFieldSize (itemsSize items)
  | .struct entries => lenFieldSize (entriesSize entries)

def itemsSize : List AgentValue → ℕ
  | [] => 0
  | item :: items => lenFieldSize item.size + itemsSize items

def entriesSize : List (List Char × AgentValue) → ℕ
  | [] => 0
  | (key, item) :: entries =>
    lenFieldSize (lenFieldSize (Utf8Decoder.encode key).length + lenFieldSize item.size) + entriesSize entries

end

/-- The length that is written in front of a value; the other lengths in it are smaller. -/
def AgentValue.declaredSize : AgentValue → ℕ
  | .null => 0
  | .bool _ => 0
  | .number _ => 0
  | .string text => (Utf8Decoder.encode text).length
  | .list items => itemsSize items
  | .struct entries => entriesSize entries

theorem length_encodeVarint {value : ℕ} (h : value < 2 ^ 32) :
    (encodeVarint value).length = varintSize value := by
  induction value using Nat.strong_induction_on with
  | _ value ih =>
    rw [varintSize]
    by_cases hvalue : value < 0x80
    · rw [encodeVarint_of_lt hvalue, if_pos hvalue, List.length_singleton]
    · rw [encodeVarint_of_le (by omega) h, if_neg hvalue, List.length_cons, ih (value / 0x80) (by omega) (by omega)]

theorem length_lenField {fieldNum : ℕ} (hnum : fieldNum < 16) {payload : Payload}
    (h : payload.dataBytes.length < 2 ^ 32) :
    (encodeField fieldNum WireType.len payload).length = lenFieldSize payload.dataBytes.length := by
  rw [WireField.encodeField_len, List.length_append, List.length_append,
    WireField.length_tag hnum (by decide), length_encodeVarint h, lenFieldSize, Nat.add_assoc]

theorem add_two_le_lenFieldSize (length : ℕ) : length + 2 ≤ lenFieldSize length := by
  have hvarint : 1 ≤ varintSize length := by
    unfold varintSize
    split <;> omega
  rw [lenFieldSize]
  omega

theorem AgentValue.declaredSize_lt (value : AgentValue) : value.declaredSize < value.size := by
  have hfield := add_two_le_lenFieldSize
  cases value with
  | null => exact Nat.zero_lt_two
  | bool => exact Nat.zero_lt_two
  | number => exact Nat.zero_lt_succ 8
  | string text => exact Nat.lt_of_succ_lt (hfield _)
  | list items => exact Nat.lt_of_succ_lt (hfield _)
  | struct entries => exact Nat.lt_of_succ_lt (hfield _)

def entryBytes (entry : List Char × AgentValue) : List UInt8 :=
  encodeField 1 WireType.len (.text entry.1) ++ encodeField 2 WireType.len (.bytes (agentBytes entry.2))

theorem length_entryBytes {key : List Char} {item : AgentValue}
    (hitem : (agentBytes item).length = item.size)
    (h : lenFieldSize (Utf8Decoder.encode key).length + lenFieldSize item.size < 2 ^ 32) :
    (entryBytes (key, item)).length = lenFieldSize (Utf8Decoder.encode key).length + lenFieldSize item.size := by
  have hsize := add_two_le_lenFieldSize item.size
  have hkeySize := add_two_le_lenFieldSize (Utf8Decoder.encode key).length
  have hkey : (Payload.text key).dataBytes.length < 2 ^ 32 := by
    rw [Payload.dataBytes]
    omega
  have hlt : (Payload.bytes (agentBytes item)).dataBytes.length < 2 ^ 32 := by
    rw [Payload.dataBytes, hitem]
    omega
  rw [entryBytes, List.length_append, length_lenField (by omega) hkey, length_lenField (by omega) hlt, Payload.dataBytes, Payload.dataBytes, hitem]

mutual

theorem length_agentBytes : ∀ value : AgentValue, value.declaredSize < 2 ^ 32 → (agentBytes value).length = value.size
  | .null, _ => by decide +kernel
  | .bool value, _ => by cases value <;> decide +kernel
  | .number bits, _ => by
    rw [agentBytes, WireField.encodeDoubleField_eq, List.length_append,
      WireField.length_tag (by omega) (by decide)]
    exact congrArg (1 + ·) (length_littleEndian 8 _)
  | .string text, h => length_lenField (by omega) h
  | .list items, h => by
    have hitems := length_itemsBytes items h
    have hlt : (Payload.bytes (itemsBytes items)).dataBytes.length < 2 ^ 32 := hitems ▸ h
    rw [agentBytes, length_lenField (by omega) hlt, AgentValue.size, ← hitems]
    rfl
  | .struct entries, h => by
    have hentries := length_entriesBytes entries h
    have hlt : (Payload.bytes (entriesBytes entries)).dataBytes.length < 2 ^ 32 := hentries ▸ h
    rw [agentBytes, length_lenField (by omega) hlt, AgentValue.size, ← hentries]
    rfl

theorem length_itemsBytes : ∀ items : List AgentValue, itemsSize items < 2 ^ 32 → (itemsBytes items).length = itemsSize items
  | [], _ => rfl
  | item :: items, h => by
    rw [itemsSize] at h
    have hsize := add_two_le_lenFieldSize item.size
    have hitem := length_agentBytes item (lt_trans item.declaredSize_lt (by omega))
    have hlt : (Payload.bytes (agentBytes item)).dataBytes.length < 2 ^ 32 := by
      rw [Payload.dataBytes, hitem]
      omega
    rw [itemsBytes, List.length_append, length_lenField (by omega) hlt, length_itemsBytes items (by omega), itemsSize, Payload.dataBytes, hitem]

theorem length_entriesBytes : ∀ entries : List (List Char × AgentValue), entriesSize entries < 2 ^ 32 →
    (entriesBytes entries).length = entriesSize entries
  | [], _ => rfl
  | (key, item) :: entries, h => by
    rw [entriesSize] at h
    have hentry := add_two_le_lenFieldSize (lenFieldSize (Utf8Decoder.encode key).length + lenFieldSize item.size)
    have hsize := add_two_le_lenFieldSize item.size
    have hitem := length_agentBytes item (lt_trans item.declaredSize_lt (by omega))
    have hboth := @length_entryBytes key item hitem (by omega)
    have hlt : (Payload.bytes (entryBytes (key, item))).dataBytes.length < 2 ^ 32 := by
      rw [Payload.dataBytes, hboth]
      omega
    have hfield := @length_lenField 1 (by omega) _ hlt
    rw [Payload.dataBytes, hboth] at hfield
    rw [entriesBytes, List.length_append, length_entriesBytes entries (by omega), entriesSize, ← hfield]
    rfl

end

/-! ### Reading back -/

theorem utf8Text_encode (text : List Char) : utf8Text (Utf8Decoder.encode text) = text := by
  rw [utf8Text, Utf8Decoder.decode_encode]
  exact List.append_nil text

theorem getFloat64_float64Bytes (bits : BitVec 64) : getFloat64 (float64Bytes bits) = .ok bits := by
  have height : (float64Bytes bits).length = 8 := length_littleEndian 8 _
  have htake : (float64Bytes bits).take 8 = float64Bytes bits := List.take_of_length_le (by omega)
  have hvalue : BitVec.ofNat 64 (ofLittleEndian (float64Bytes bits)) = bits := by
    apply BitVec.eq_of_toNat_eq
    rw [float64Bytes, ofLittleEndian_littleEndian, BitVec.toNat_ofNat]
    have := bits.isLt
    omega
  rw [getFloat64, if_neg (by omega), htake, hvalue]

theorem messageOf_message (fields : List WireField) {fuel : ℕ} (h : fields.length < fuel) :
    messageOf fuel (.bytes (message fields)) = .ok (collected fields) := by
  rw [messageOf, decodeMessage_message fields h]

theorem all_collected (fieldNum : ℤ) (fields : List WireField) :
    (collected fields).all fieldNum = (entriesOf fieldNum fields).map Prod.snd := by
  rw [Fields.all, lookup_collected]
  split
  · next h => rw [h, Option.getD_none]
  · rfl

theorem has_collected (fieldNum : ℤ) (fields : List WireField) :
    (collected fields).has fieldNum = fields.any fun field => (field.fieldNum : ℤ) == fieldNum := by
  have hnil : entriesOf fieldNum fields = [] ↔ ¬ (fields.any fun field => (field.fieldNum : ℤ) == fieldNum) = true := by
    simp [entriesOf]
  rw [Fields.has, lookup_collected]
  split
  · next h => exact (Bool.eq_false_of_not_eq_true (hnil.mp h)).symm
  · next h => exact (by_contra fun hn => h (hnil.mpr fun hany => hn hany.symm))

theorem length_le_message (fields : List WireField) : fields.length ≤ (message fields).length := by
  induction fields with
  | nil => exact Nat.zero_le _
  | cons field fields ih =>
    have hpos : 0 < field.bytes.length := List.length_pos_iff.mpr field.ne_nil
    rw [message, List.flatMap_cons, List.length_append, List.length_cons, ← message]
    omega

theorem decodeAgentValue_field {runtime : Runtime} {depth : ℕ}
    (hdepth : runtime.decodes depth = true) (field : WireField) {fuel : ℕ} (h : 1 < fuel) :
    decodeAgentValue runtime (fuel + 1) depth (.bytes field.bytes) =
      if field.fieldNum = 1 then .ok .null
      else if field.fieldNum = 2 then do return .number (← getFloat64 (← bytesOf field.value))
      else if field.fieldNum = 3 then do return .string (utf8Text (← bytesOf field.value))
      else if field.fieldNum = 4 then .ok (.bool (field.value != .number 0))
      else if field.fieldNum = 6 then do
        let list ← messageOf fuel field.value
        return .list (← (list.all 1).mapM (decodeAgentValue runtime fuel (depth + 1)))
      else do
        let struct ← messageOf fuel (if field.fieldNum = 5 then field.value else .bytes field.bytes)
        return .struct (← (struct.all 1).foldlM (decodeEntry fuel (decodeAgentValue runtime fuel (depth + 1))) []) := by
  have hmsg : messageOf fuel (.bytes field.bytes) = .ok (collected [field]) := by
    have hone := messageOf_message [field] h
    rwa [message, List.flatMap_singleton] at hone
  have hhas : ∀ n : ℕ, (collected [field]).has n = decide (field.fieldNum = n) := by
    intro n
    rw [has_collected, List.any_cons, List.any_nil, Bool.or_false, beq_eq_decide]
    exact decide_eq_decide.mpr Nat.cast_inj
  have hfirst : ∀ n : ℕ, field.fieldNum = n → (collected [field]).first n = .ok field.value := by
    intro n hn
    rw [Fields.first, all_collected, entriesOf, List.filter_singleton, hn, beq_self_eq_true]
    rfl
  have h1 : (collected [field]).has 1 = decide (field.fieldNum = 1) := hhas 1
  have h2 : (collected [field]).has 2 = decide (field.fieldNum = 2) := hhas 2
  have h3 : (collected [field]).has 3 = decide (field.fieldNum = 3) := hhas 3
  have h4 : (collected [field]).has 4 = decide (field.fieldNum = 4) := hhas 4
  have h5 : (collected [field]).has 5 = decide (field.fieldNum = 5) := hhas 5
  have h6 : (collected [field]).has 6 = decide (field.fieldNum = 6) := hhas 6
  rw [decodeAgentValue, hmsg, hdepth]
  show (if _ then _ else _) = _
  simp only [h1, h2, h3, h4, h5, h6, decide_eq_true_eq]
  split_ifs with c1 c2 c3 c4 c6 c5
  · rfl
  · rw [show (collected [field]).first 2 = _ from hfirst 2 c2]
    rfl
  · rw [show (collected [field]).first 3 = _ from hfirst 3 c3]
    rfl
  · rw [show (collected [field]).first 4 = _ from hfirst 4 c4]
    rfl
  · rw [show (collected [field]).first 6 = _ from hfirst 6 c6]
    rfl
  · rw [show (collected [field]).first 5 = _ from hfirst 5 c5]
    rfl
  · rfl

/-! ### Objects -/

/-- An object of JSON: its keys are distinct, and none of them sets a prototype. -/
def ProperKeys (keys : List (List Char)) : Prop := keys.Nodup ∧ "__proto__".toList ∉ keys

mutual

/-- A JSON value: its numbers are finite, and its objects have proper keys. -/
def AgentValue.Proper : AgentValue → Prop
  | .null => True
  | .bool _ => True
  | .number bits => (bits >>> 52) &&& 0x7FF#64 ≠ 0x7FF#64
  | .string _ => True
  | .list items => ProperItems items
  | .struct entries => ProperKeys (entries.map Prod.fst) ∧ ProperEntries entries

def ProperItems : List AgentValue → Prop
  | [] => True
  | item :: items => item.Proper ∧ ProperItems items

def ProperEntries : List (List Char × AgentValue) → Prop
  | [] => True
  | (_, item) :: entries => item.Proper ∧ ProperEntries entries

end

theorem setEntry_new {out : List (List Char × AgentValue)} {key : List Char} (hproto : key ≠ "__proto__".toList)
    (hnew : key ∉ out.map Prod.fst) (value : AgentValue) :
    setEntry out key value = out ++ [(key, value)] := by
  have hany : ¬ (out.any fun entry => entry.1 == key) = true := by
    simp only [List.any_eq_true, beq_iff_eq, not_exists, not_and]
    intro entry hmem heq
    exact hnew (List.mem_map.mpr ⟨entry, hmem, heq⟩)
  rw [setEntry, if_neg hproto, if_neg hany]

/-! ### Round trips -/

theorem itemsBytes_message (items : List AgentValue) (h : itemsSize items < 2 ^ 31) :
    ∃ fields : List WireField, itemsBytes items = message fields ∧ (∀ field ∈ fields, field.fieldNum = 1) ∧
      fields.map WireField.value = items.map fun item => .bytes (agentBytes item) := by
  induction items with
  | nil => exact ⟨[], rfl, by simp, rfl⟩
  | cons item items ih =>
    rw [itemsSize] at h
    obtain ⟨fields, hbytes, hnum, hvalues⟩ := ih (by omega)
    have hsize := add_two_le_lenFieldSize item.size
    have hlt : (Payload.bytes (agentBytes item)).dataBytes.length < 2 ^ 31 := by
      rw [Payload.dataBytes, length_agentBytes item (lt_trans item.declaredSize_lt (by omega))]
      omega
    refine ⟨WireField.len 1 (.bytes (agentBytes item)) (by omega) hlt :: fields, ?_, ?_, ?_⟩
    · rw [itemsBytes, hbytes]
      rfl
    · rintro field (_ | ⟨_, hmem⟩)
      · rfl
      · exact hnum field hmem
    · rw [List.map_cons, hvalues]
      rfl

theorem entriesBytes_message (entries : List (List Char × AgentValue))
    (h : entriesSize entries < 2 ^ 31) :
    ∃ fields : List WireField, entriesBytes entries = message fields ∧ (∀ field ∈ fields, field.fieldNum = 1) ∧
      fields.map WireField.value = entries.map fun entry => .bytes (entryBytes entry) := by
  induction entries with
  | nil => exact ⟨[], rfl, by simp, rfl⟩
  | cons entry entries ih =>
    obtain ⟨key, item⟩ := entry
    rw [entriesSize] at h
    obtain ⟨fields, hbytes, hnum, hvalues⟩ := ih (by omega)
    have hentry := add_two_le_lenFieldSize (lenFieldSize (Utf8Decoder.encode key).length + lenFieldSize item.size)
    have hsize := add_two_le_lenFieldSize item.size
    have hitem := length_agentBytes item (lt_trans item.declaredSize_lt (by omega))
    have hlt : (Payload.bytes (entryBytes (key, item))).dataBytes.length < 2 ^ 31 := by
      rw [Payload.dataBytes, length_entryBytes hitem (by omega)]
      omega
    refine ⟨WireField.len 1 (.bytes (entryBytes (key, item))) (by omega) hlt :: fields, ?_, ?_, ?_⟩
    · rw [entriesBytes, hbytes]
      rfl
    · rintro field (_ | ⟨_, hmem⟩)
      · rfl
      · exact hnum field hmem
    · rw [List.map_cons, hvalues]
      rfl

theorem all_of_forall {fields : List WireField} (h : ∀ field ∈ fields, field.fieldNum = 1) :
    (collected fields).all 1 = fields.map WireField.value := by
  have hall : fields.filter (fun field => (field.fieldNum : ℤ) == 1) = fields := by
    rw [List.filter_eq_self]
    intro field hmem
    rw [h field hmem]
    rfl
  rw [all_collected, entriesOf, hall, List.map_map]
  rfl

theorem decodeEntry_entryBytes {key : List Char} {item : AgentValue}
    {decode : Value → Outcome AgentValue} {fuel : ℕ}
    (hsize : lenFieldSize (Utf8Decoder.encode key).length + lenFieldSize item.size < 2 ^ 31) (hfuel : 2 < fuel)
    {room : Bool} (hdecode : decode (.bytes (agentBytes item)) = ifRoom room item) (out : List (List Char × AgentValue)) :
    decodeEntry fuel decode out (.bytes (entryBytes (key, item))) = ifRoom room (setEntry out key item) := by
  have hitemSize := add_two_le_lenFieldSize item.size
  have hkeySize := add_two_le_lenFieldSize (Utf8Decoder.encode key).length
  have hkey : (Payload.text key).dataBytes.length < 2 ^ 31 := by
    rw [Payload.dataBytes]
    omega
  have hitem : (Payload.bytes (agentBytes item)).dataBytes.length < 2 ^ 31 := by
    rw [Payload.dataBytes, length_agentBytes item (lt_trans item.declaredSize_lt (by omega))]
    omega
  obtain ⟨fields, hfields⟩ : ∃ fields : List WireField,
      fields = [WireField.len 1 (.text key) (by omega) hkey, WireField.len 2 (.bytes (agentBytes item)) (by omega) hitem] := ⟨_, rfl⟩
  have hbytes : entryBytes (key, item) = message fields := by
    simp only [hfields, message, List.flatMap_cons, List.flatMap_nil, List.append_nil]
    rfl
  have hfirst : ∀ n value, (collected fields).all n = [value] → (collected fields).first n = .ok value := by
    intro n value h
    rw [Fields.first, h]
  have hname : (collected fields).first 1 = .ok (.bytes (Utf8Decoder.encode key)) :=
    hfirst 1 _ (by rw [all_collected, hfields]; rfl)
  have hvalue : (collected fields).first 2 = .ok (.bytes (agentBytes item)) :=
    hfirst 2 _ (by rw [all_collected, hfields]; rfl)
  rw [decodeEntry, hbytes, messageOf_message fields (by rw [hfields]; exact hfuel)]
  show (do
    let key ← bytesOf (← (collected fields).first 1)
    let item ← decode (← (collected fields).first 2)
    return setEntry out (utf8Text key) item) = _
  rw [hname, hvalue]
  show (do
    let item ← decode (.bytes (agentBytes item))
    return setEntry out (utf8Text (Utf8Decoder.encode key)) item) = _
  rw [hdecode, utf8Text_encode]
  cases room <;> rfl

abbrev AgentValue.Readable (runtime : Runtime) : ℕ → AgentValue → Bool := AgentValue.Fits fun depth _ => runtime.decodes depth

theorem decode_guarded {runtime : Runtime} {depth fuel : ℕ} {bytes : Value} {value : AgentValue}
    {rest : Bool}
    (h : runtime.decodes depth = true → decodeAgentValue runtime (fuel + 1) depth bytes = ifRoom rest value) :
    decodeAgentValue runtime (fuel + 1) depth bytes = ifRoom (runtime.decodes depth && rest) value := by
  cases hdepth : runtime.decodes depth with
  | true => exact h hdepth
  | false =>
    rw [decodeAgentValue, hdepth]
    rfl

theorem decode_guarded_leaf {runtime : Runtime} {depth fuel : ℕ} {bytes : Value}
    {value : AgentValue}
    (h : runtime.decodes depth = true → decodeAgentValue runtime (fuel + 1) depth bytes = .ok value) :
    decodeAgentValue runtime (fuel + 1) depth bytes = ifRoom (runtime.decodes depth) value := by
  have hguarded := @decode_guarded runtime depth fuel bytes value true h
  rwa [Bool.and_true] at hguarded

mutual

/-- **A value is read back** if the stack has room, with as many rounds as
it has bytes, and one more. -/
theorem decode_encode (runtime : Runtime) :
    ∀ value : AgentValue, value.Proper → value.declaredSize < 2 ^ 31 →
    ∀ fuel, value.size ≤ fuel → ∀ depth,
      decodeAgentValue runtime (fuel + 1) depth (.bytes (agentBytes value)) = ifRoom (value.Readable runtime depth) value
  | .null, _, _, fuel, hfuel, depth => decode_guarded_leaf fun hdepth =>
    decodeAgentValue_field hdepth (WireField.varint 1 0 (by omega) (by omega)) hfuel
  | .bool value, _, _, fuel, hfuel, depth => decode_guarded_leaf fun hdepth => by
    have hbit : (if value then 1 else 0) < 2 ^ 32 := by split <;> omega
    rw [agentBytes, show encodeField 4 _ _ = (WireField.varint 4 _ (by omega) hbit).bytes from rfl, decodeAgentValue_field hdepth _ hfuel]
    cases value <;> rfl
  | .number bits, _, _, fuel, hfuel, depth => decode_guarded_leaf fun hdepth => by
    rw [AgentValue.size] at hfuel
    rw [agentBytes, show encodeDoubleField 2 bits = (WireField.double 2 bits (by omega)).bytes from rfl,
      decodeAgentValue_field hdepth _ (by omega)]
    show (do return AgentValue.number (← getFloat64 (float64Bytes bits))) = _
    rw [getFloat64_float64Bytes]
    rfl
  | .string text, _, hsize, fuel, hfuel, depth => decode_guarded_leaf fun hdepth => by
    have hfield := add_two_le_lenFieldSize (Utf8Decoder.encode text).length
    rw [AgentValue.size] at hfuel
    rw [agentBytes, show encodeField 3 _ _ = (WireField.len 3 (.text text) (by omega) hsize).bytes from rfl,
      decodeAgentValue_field hdepth _ (by omega)]
    exact congrArg (fun t => Except.ok (AgentValue.string t)) (utf8Text_encode text)
  | .list items, hproper, hsize, fuel, hfuel, depth => decode_guarded fun hdepth => by
    have hfield := add_two_le_lenFieldSize (itemsSize items)
    rw [AgentValue.size] at hfuel
    rw [AgentValue.declaredSize] at hsize
    obtain ⟨fields, hbytes, hnum, hvalues⟩ := itemsBytes_message items hsize
    have hlength := length_itemsBytes items (by omega)
    have hcount := length_le_message fields
    rw [← hbytes] at hcount
    have hlt : (Payload.bytes (itemsBytes items)).dataBytes.length < 2 ^ 31 := hlength ▸ hsize
    rw [agentBytes, show encodeField 6 _ _ = (WireField.len 6 (.bytes (itemsBytes items)) (by omega) hlt).bytes from rfl,
      decodeAgentValue_field hdepth _ (by omega)]
    show (do
      let list ← messageOf fuel (.bytes (itemsBytes items))
      return AgentValue.list (← (list.all 1).mapM (decodeAgentValue runtime fuel (depth + 1)))) = _
    obtain ⟨rounds, rfl⟩ := Nat.exists_eq_add_of_lt (show 0 < fuel by omega)
    rw [hbytes, messageOf_message fields (by omega)]
    simp only [hdepth, Bool.and_true]
    show (do return AgentValue.list (← ((collected fields).all 1).mapM (decodeAgentValue runtime _ (depth + 1)))) = _
    rw [all_of_forall hnum, hvalues, decode_itemsBytes runtime items hproper (by omega) _ (by omega)]
    cases fitItems (fun depth _ => runtime.decodes depth) (depth + 1) items <;> rfl
  | .struct entries, hproper, hsize, fuel, hfuel, depth => decode_guarded fun hdepth => by
    have hfield := add_two_le_lenFieldSize (entriesSize entries)
    rw [AgentValue.size] at hfuel
    rw [AgentValue.declaredSize] at hsize
    obtain ⟨fields, hbytes, hnum, hvalues⟩ := entriesBytes_message entries hsize
    have hlength := length_entriesBytes entries (by omega)
    have hcount := length_le_message fields
    rw [← hbytes] at hcount
    have hlt : (Payload.bytes (entriesBytes entries)).dataBytes.length < 2 ^ 31 := hlength ▸ hsize
    rw [agentBytes, show encodeField 5 _ _ = (WireField.len 5 (.bytes (entriesBytes entries)) (by omega) hlt).bytes from rfl,
      decodeAgentValue_field hdepth _ (by omega)]
    show (do
      let struct ← messageOf fuel (.bytes (entriesBytes entries))
      return AgentValue.struct (← (struct.all 1).foldlM (decodeEntry fuel (decodeAgentValue runtime fuel (depth + 1))) [])) = _
    obtain ⟨rounds, rfl⟩ := Nat.exists_eq_add_of_lt (show 0 < fuel by omega)
    rw [hbytes, messageOf_message fields (by omega)]
    simp only [hdepth, Bool.and_true]
    show (do
      return AgentValue.struct (← ((collected fields).all 1).foldlM (decodeEntry _ (decodeAgentValue runtime _ (depth + 1))) [])) = _
    rw [all_of_forall hnum, hvalues, decode_entriesBytes runtime entries hproper.2 (by omega) _ (by omega) (depth + 1) [] hproper.1]
    cases fitEntries (fun depth _ => runtime.decodes depth) (depth + 1) entries <;> rfl

theorem decode_itemsBytes (runtime : Runtime) :
    ∀ items : List AgentValue, ProperItems items → itemsSize items < 2 ^ 31 →
    ∀ fuel, itemsSize items ≤ fuel → ∀ depth,
      (items.map fun item => Value.bytes (agentBytes item)).mapM (decodeAgentValue runtime (fuel + 1) depth) =
        ifRoom (fitItems (fun depth _ => runtime.decodes depth) depth items) items
  | [], _, _, fuel, _, depth => rfl
  | item :: items, hproper, hsize, fuel, hfuel, depth => by
    rw [itemsSize] at hsize hfuel
    have hitem := add_two_le_lenFieldSize item.size
    have hdeclared := item.declaredSize_lt
    rw [List.map_cons, List.mapM_cons, decode_encode runtime item hproper.1 (by omega) fuel (by omega) depth,
      decode_itemsBytes runtime items hproper.2 (by omega) fuel (by omega) depth, fitItems, AgentValue.Readable]
    cases item.Fits (fun depth _ => runtime.decodes depth) depth <;>
      cases fitItems (fun depth _ => runtime.decodes depth) depth items <;> rfl

theorem decode_entriesBytes (runtime : Runtime) :
    ∀ entries : List (List Char × AgentValue), ProperEntries entries →
    entriesSize entries < 2 ^ 31 → ∀ fuel, entriesSize entries ≤ fuel → ∀ depth out, ProperKeys ((out ++ entries).map Prod.fst) →
      (entries.map fun entry => Value.bytes (entryBytes entry)).foldlM
          (decodeEntry (fuel + 1) (decodeAgentValue runtime (fuel + 1) depth)) out =
        ifRoom (fitEntries (fun depth _ => runtime.decodes depth) depth entries) (out ++ entries)
  | [], _, _, fuel, _, depth, out, _ => by
    rw [List.append_nil]
    rfl
  | (key, item) :: entries, hproper, hsize, fuel, hfuel, depth, out, hkeys => by
    rw [entriesSize] at hsize hfuel
    have hentry := add_two_le_lenFieldSize (lenFieldSize (Utf8Decoder.encode key).length + lenFieldSize item.size)
    have hitem := add_two_le_lenFieldSize item.size
    have hdeclared := item.declaredSize_lt
    have hnodup := hkeys.1
    rw [List.map_append, List.map_cons] at hnodup
    have hnew : key ∉ out.map Prod.fst := fun hmem => (List.nodup_append.mp hnodup).2.2 key hmem key (by simp) rfl
    have hproto : key ≠ "__proto__".toList := fun heq => hkeys.2 (by simp [heq])
    rw [List.map_cons, List.foldlM_cons, decodeEntry_entryBytes (by omega) (by omega)
      (decode_encode runtime item hproper.1 (by omega) fuel (by omega) depth) out, setEntry_new hproto hnew]
    have hrest := decode_entriesBytes runtime entries hproper.2 (by omega) fuel (by omega) depth (out ++ [(key, item)]) (by
      rwa [List.append_assoc, List.singleton_append])
    rw [List.append_assoc, List.singleton_append] at hrest
    rw [fitEntries, AgentValue.Readable]
    cases item.Fits (fun depth _ => runtime.decodes depth) depth with
    | false => rfl
    | true => exact hrest

end

/-! ### Lengths that are read as negative numbers -/

theorem decodeVarint_negative (data : List UInt8)
    (n : ℕ) : decodeVarint data (-((n + 1 : ℕ) : ℤ)) = (0, -(n : ℤ)) := by
  have hlt : (-((n + 1 : ℕ) : ℤ)) < data.length := by omega
  have hbyte : byteAt data (-((n + 1 : ℕ) : ℤ)) = 0 := if_neg (by omega)
  rw [decodeVarint, varintLoop, if_pos hlt, hbyte]
  simp only [BitVec.zero_and, BitVec.ofNat_eq_ofNat, if_true]
  refine Prod.ext ?_ ?_
  · simp
  · simp only
    omega

theorem decodeField_negative (data : List UInt8) (n : ℕ) :
    decodeField data (-((2 * (n + 1) : ℕ) : ℤ)) = ⟨some 0, some WireType.varint, .number 0, -((2 * n : ℕ) : ℤ)⟩ := by
  have hmore : ¬ (data.length : ℤ) ≤ -((2 * (n + 1) : ℕ) : ℤ) := by omega
  have htag := decodeVarint_negative data (2 * n + 1)
  have hvalue := decodeVarint_negative data (2 * n)
  rw [decodeField, if_neg hmore, show 2 * (n + 1) = 2 * n + 1 + 1 by omega]
  simp only [htag, hvalue]
  rfl

theorem decodeLoop_never {data : List UInt8} {fieldNum : ℤ} {back : ℕ} (hdata : data ≠ [])
    (hnum : (decodeField data 0).fieldNum = some fieldNum)
    (hpos : (decodeField data 0).pos = -((2 * back : ℕ) : ℤ)) (fuel n : ℕ) (acc : Fields) :
    decodeLoop data fuel (-((2 * n : ℕ) : ℤ)) acc = none := by
  have hlength : 0 < data.length := List.length_pos_iff.mpr hdata
  induction fuel generalizing n acc with
  | zero => rfl
  | succ fuel ih =>
    rw [decodeLoop, if_pos (by omega)]
    cases n with
    | zero =>
      have hstart : -((2 * 0 : ℕ) : ℤ) = 0 := by omega
      rw [hstart]
      simp only [hnum, hpos]
      exact ih back _
    | succ n =>
      rw [decodeField_negative]
      exact ih n _

theorem varintSize_five {value : ℕ} (h : 2 ^ 28 ≤ value)
    (hlt : value < 2 ^ 32) : varintSize value = 5 := by
  rw [varintSize, if_neg (by omega), varintSize, if_neg (by omega), varintSize, if_neg (by omega), varintSize, if_neg (by omega), varintSize,
    if_pos (by omega)]

theorem bytes_len {value : AgentValue} (h : 0 < value.declaredSize)
    (hlt : value.declaredSize < 2 ^ 32) :
    ∃ fieldNum payload, fieldNum < 16 ∧ agentBytes value = encodeField fieldNum WireType.len payload ∧
      payload.dataBytes.length = value.declaredSize := by
  cases value with
  | null => exact absurd h (Nat.lt_irrefl 0)
  | bool => exact absurd h (Nat.lt_irrefl 0)
  | number => exact absurd h (Nat.lt_irrefl 0)
  | string text => exact ⟨3, .text text, by omega, rfl, rfl⟩
  | list items => exact ⟨6, .bytes (itemsBytes items), by omega, by rw [agentBytes], length_itemsBytes items hlt⟩
  | struct entries => exact ⟨5, .bytes (entriesBytes entries), by omega, by rw [agentBytes], length_entriesBytes entries hlt⟩

/-- **An even length with the top bit set is never read to its end**, unless it takes the cursor
back into the header only. -/
theorem decode_never {value : AgentValue} (hle : 2 ^ 31 ≤ value.declaredSize)
    (hlt : value.declaredSize < 2 ^ 32 - 5)
    (heven : value.declaredSize % 2 = 0) (runtime : Runtime) (fuel depth : ℕ) :
    ∃ failure, decodeAgentValue runtime fuel depth (.bytes (agentBytes value)) = .error failure := by
  have hword : value.declaredSize < 2 ^ 32 := by omega
  obtain ⟨fieldNum, payload, hnum, hbytes, hlength⟩ := bytes_len (by omega) hword
  have hsigned : (BitVec.ofNat 32 value.declaredSize).toInt = value.declaredSize - 2 ^ 32 := by
    rw [BitVec.toInt_eq_toNat_cond, BitVec.toNat_ofNat, Nat.mod_eq_of_lt hword, if_neg (by omega)]
    rfl
  have hfive : (encodeVarint value.declaredSize).length = 5 := by rw [length_encodeVarint hword, varintSize_five (by omega) hword]
  have hone := WireField.length_tag hnum (show WireType.len < 8 by decide)
  have hvarint := decodeVarint_encodeVarint hword (encodeVarint (WireField.tag fieldNum WireType.len)) payload.dataBytes
  have htag := WireField.decodeField_tag hnum (show WireType.len < 8 by decide) [] (encodeVarint payload.dataBytes.length ++ payload.dataBytes)
  simp only [List.nil_append, List.length_nil, Nat.cast_zero, hlength, hvarint] at htag
  rw [if_neg (by decide), if_pos trivial, hsigned, hone, hfive, ← hlength, ← WireField.encodeField_len, ← hbytes, hlength] at htag
  obtain ⟨back, hback⟩ : ∃ back : ℕ, value.declaredSize + 2 * back + 6 = 2 ^ 32 :=
    ⟨(2 ^ 32 - 6 - value.declaredSize) / 2, by omega⟩
  have hdata : agentBytes value ≠ [] := hbytes ▸ WireField.tag_append_ne_nil hnum (by decide) _
  have hnever : ∀ rounds, decodeMessage (agentBytes value) rounds = none := by
    intro rounds
    refine @decodeLoop_never _ fieldNum back hdata (by rw [htag]) ?_ rounds 0 Table.empty
    rw [htag]
    simp only
    omega
  cases fuel with
  | zero => exact ⟨_, rfl⟩
  | succ fuel =>
    have hmsg : messageOf fuel (.bytes (agentBytes value)) = .error .unfinished := by rw [messageOf, hnever]
    rw [decodeAgentValue, hmsg]
    cases runtime.decodes depth
    · exact ⟨.thrown, rfl⟩
    · exact ⟨.unfinished, rfl⟩

theorem reread_eq (runtime : Runtime) (fuel : ℕ) (value : AgentValue) :
    reread runtime fuel value =
      if value.Fits runtime.encodes 0 then decodeAgentValue runtime fuel 0 (.bytes (agentBytes value)) else .error .thrown := by
  rw [reread, encodeAgentValue_eq]
  cases value.Fits runtime.encodes 0 <;> rfl

/-- **When the decoder undoes the encoder**: the stack has room for the calls of both, and no length
reaches the top bit of
32. Where it has no room, and where an even length has that bit, nothing is read back. -/
theorem agentValue_round_trip (runtime : Runtime) (value : AgentValue) (h : value.Proper) :
    (value.declaredSize < 2 ^ 31 →
      ((∃ rounds, ∀ fuel, rounds ≤ fuel → reread runtime fuel value = .ok value) ↔
        value.Fits runtime.encodes 0 = true ∧ value.Readable runtime 0 = true)) ∧
      (2 ^ 31 ≤ value.declaredSize → value.declaredSize < 2 ^ 32 - 5 → value.declaredSize % 2 = 0 →
        ∀ fuel, reread runtime fuel value ≠ .ok value) := by
  constructor
  · intro hsize
    have hreread : ∀ fuel, value.size + 1 ≤ fuel →
        reread runtime fuel value = ifRoom (value.Fits runtime.encodes 0 && value.Readable runtime 0) value := by
      intro fuel hfuel
      obtain ⟨rounds, rfl⟩ := Nat.exists_eq_add_of_le' (Nat.le_of_add_left_le hfuel)
      rw [reread_eq, decode_encode runtime value h hsize rounds (by omega) 0]
      cases value.Fits runtime.encodes 0 <;> rfl
    rw [← Bool.and_eq_true_iff]
    constructor
    · rintro ⟨rounds, hrounds⟩
      have hboth := (hreread _ (Nat.le_max_left _ rounds)).symm.trans (hrounds _ (Nat.le_max_right (value.size + 1) rounds))
      by_contra hroom
      rw [ifRoom, if_neg hroom] at hboth
      cases hboth
    · intro hroom
      refine ⟨value.size + 1, fun fuel hfuel => ?_⟩
      rw [hreread fuel hfuel, ifRoom, if_pos hroom]
  · intro hle hlt heven fuel hback
    obtain ⟨failure, hfailure⟩ := decode_never hle hlt heven runtime fuel 0
    rw [reread_eq, hfailure] at hback
    split at hback <;> cases hback

def sampleValue : AgentValue :=
  .struct [("path".toList, .string "src/index.js".toList), ("lines".toList, .list [.number 0x3FF0000000000000#64, .null]), ("raw".toList, .bool false)]

/-- A stack with room for so many arguments, and so many calls inside one another. -/
def Runtime.upTo (arguments calls : ℕ) : Runtime where
  encodes depth count := decide (depth < calls ∧ count ≤ arguments)
  decodes depth := decide (depth < calls)

theorem agentValue_round_trip_sample :
    ∃ rounds, ∀ fuel, rounds ≤ fuel → reread (.upTo 131072 5000) fuel sampleValue = .ok sampleValue :=
  ((agentValue_round_trip (.upTo 131072 5000) sampleValue (by
    simp [sampleValue, AgentValue.Proper, ProperItems, ProperEntries,
      ProperKeys])).1 (by decide +kernel)).mpr (by decide +kernel)

def nulls (count : ℕ) : AgentValue := .list (List.replicate count .null)

theorem nulls_proper (count : ℕ) : (nulls count).Proper := by
  show ProperItems (List.replicate count .null)
  induction count with
  | zero => trivial
  | succ count ih => exact ⟨trivial, ih⟩

/-- A list of 200000 `null`s, a megabyte of JSON: `concatArrays(...items)` has more arguments than
the stack has room for. -/
theorem long_list_not_read :
    (nulls 200000).Proper ∧ ∀ calls fuel, reread (.upTo 131072 calls) fuel (nulls 200000) ≠ .ok (nulls 200000) := by
  refine ⟨nulls_proper 200000, fun calls fuel h => ?_⟩
  have hroom : (nulls 200000).Fits (Runtime.upTo 131072 calls).encodes 0 = false := by
    have hspread : (Runtime.upTo 131072 calls).encodes 0 200000 = false :=
      decide_eq_false fun hboth => absurd hboth.2 (by decide)
    rw [nulls, AgentValue.Fits, List.length_replicate, hspread, Bool.and_false, Bool.and_false]
  rw [reread_eq, if_neg (by rw [hroom]; exact Bool.false_ne_true)] at h
  cases h

end TokenProxy.Cursor
