import TokenProxy.Lib.JsonPrint
import TokenProxy.Lib.Utf8

/-!
# Where a value stands in the text

The text of a document up to the value of a key, and up to an item of an array. Neither text depends
on what comes behind it.
-/

namespace TokenProxy.Lib

open Utf8Decoder (encode)

def JsonFields.before (key : String) : JsonFields → List Char
  | .nil => []
  | .cons k value fields =>
    '"' :: Json.escape k.toList ++ '"' :: ':' :: if k = key then [] else value.print ++ ',' :: fields.before key

def JsonItems.before : JsonItems → ℕ → List Char
  | .cons item items, i + 1 => item.print ++ ',' :: items.before i
  | _, _ => []

theorem JsonFields.print_cons (key : String) (fields : JsonFields) :
    ∃ after, ∀ v : Json, (JsonFields.cons key v fields).print = '"' :: Json.escape key.toList ++ '"' :: ':' :: v.print ++ after := by
  cases fields with
  | nil => exact ⟨[], fun v => by simp [print]⟩
  | cons k w fields => exact ⟨',' :: (JsonFields.cons k w fields).print, fun v => by simp [print]⟩

/-- What is written for a key stands behind the text that is before it, and what
follows does not depend on it. -/
theorem JsonFields.print_put {key : String} {value : Json} :
    ∀ {fields : JsonFields}, fields.get key = some value →
      ∃ after, ∀ v : Json, (fields.put key v).print = fields.before key ++ v.print ++ after
  | .nil, h => by simp [get] at h
  | .cons k w fields, h => by
    by_cases hk : k = key
    · obtain ⟨after, hafter⟩ := print_cons k fields
      refine ⟨after, fun v => ?_⟩
      rw [put, if_pos hk, hafter, before, if_pos hk]
      simp
    · rw [get, if_neg hk] at h
      obtain ⟨after, hafter⟩ := print_put h
      refine ⟨after, fun v => ?_⟩
      rw [put, if_neg hk, before, if_neg hk]
      cases hput : fields.put key v with
      | nil =>
        have := get_put key key v fields
        simp [hput, get] at this
      | cons k' w' fields' =>
        rw [print, ← hput, hafter v]
        · simp
        · intro hnil
          simp at hnil

theorem JsonItems.print_cons (item : Json) (items : JsonItems) :
    ∃ after, (JsonItems.cons item items).print = item.print ++ after := by
  cases items with
  | nil => exact ⟨[], by simp [print]⟩
  | cons next rest => exact ⟨',' :: (JsonItems.cons next rest).print, by simp [print]⟩

theorem JsonItems.print_eq :
    ∀ {items : JsonItems} {i : ℕ} {item : Json}, items.toList[i]? = some item → ∃ after, items.print = items.before i ++ item.print ++ after
  | .nil, _, _, h => by simp [toList] at h
  | .cons first items, 0, item, h => by
    simp only [toList, List.getElem?_cons_zero, Option.some.injEq] at h
    subst h
    obtain ⟨after, hafter⟩ := print_cons first items
    exact ⟨after, by simp [hafter, before]⟩
  | .cons first items, i + 1, item, h => by
    simp only [toList, List.getElem?_cons_succ] at h
    obtain ⟨after, hafter⟩ := print_eq h
    cases items with
    | nil => simp [toList] at h
    | cons next rest =>
      refine ⟨after, ?_⟩
      rw [print, before, hafter]
      · simp
      · simp

theorem JsonItems.before_congr :
    ∀ {items items' : JsonItems} {i : ℕ}, items.toList.take i = items'.toList.take i → items.before i = items'.before i
  | _, _, 0, _ => by simp [before]
  | .nil, .nil, _ + 1, _ => rfl
  | .nil, .cons _ _, _ + 1, h => by simp [toList] at h
  | .cons _ _, .nil, _ + 1, h => by simp [toList] at h
  | .cons first items, .cons first' items', i + 1, h => by
    simp only [toList, List.take_succ_cons, List.cons.injEq] at h
    rw [before, before, h.1, before_congr h.2]

/-! ### Bytes -/

theorem length_encode (cs : List Char) : (encode cs).length = (cs.map Char.utf8Size).sum := by
  induction cs with
  | nil => rfl
  | cons c cs ih =>
    rw [encode, List.flatMap_cons, List.length_append, String.length_utf8EncodeChar, List.map_cons, List.sum_cons, ← ih, encode]

theorem encode_append (xs ys : List Char) : encode (xs ++ ys) = encode xs ++ encode ys := by
  simp [encode]

theorem Json.byteLength_eq (value : Json) : value.byteLength = (encode value.print).length := (length_encode value.print).symm

theorem JsonItems.sum_byteLength_le :
    ∀ (items : JsonItems) (i : ℕ), ((items.toList.take i).map Json.byteLength).sum ≤ (encode (items.before i)).length
  | .nil, _ => by simp [toList]
  | .cons _ _, 0 => by simp [before, encode]
  | .cons first items, i + 1 => by
    have := sum_byteLength_le items i
    rw [toList, List.take_succ_cons, List.map_cons, List.sum_cons, before, encode_append, List.length_append, Json.byteLength_eq,
      show ',' :: items.before i = [','] ++ items.before i from rfl, encode_append, List.length_append]
    omega

end TokenProxy.Lib
