import Mathlib.Tactic.SplitIfs
import Std.Data.String.ToNat
import Mathlib.Data.List.Basic

/-!
# JSON documents

A document as a parser hands it over: a number keeps the text that it prints as, an object its
fields in the order of its keys.
-/

namespace TokenProxy.Lib

mutual

inductive Json where
  | null
  | bool (b : Bool)
  | number (text : String)
  | string (s : String)
  | array (items : JsonItems)
  | object (fields : JsonFields)
  deriving DecidableEq

inductive JsonItems where
  | nil
  | cons (item : Json) (items : JsonItems)
  deriving DecidableEq

inductive JsonFields where
  | nil
  | cons (key : String) (value : Json) (fields : JsonFields)
  deriving DecidableEq

end

instance : Inhabited Json := ⟨.null⟩

def JsonFields.get (key : String) : JsonFields → Option Json
  | .nil => none
  | .cons k value fields => if k = key then some value else fields.get key

/-- `value?.key` of a document: only an object has fields. -/
def Json.field (value : Json) (key : String) : Option Json :=
  match value with
  | .object fields => fields.get key
  | _ => none

/-- `Boolean(value)` -/
def Json.truthy : Json → Bool
  | .null => false
  | .bool b => b
  | .number text => text ≠ "0"
  | .string s => s ≠ ""
  | .array _ => true
  | .object _ => true

/-! ### Objects as records -/

def JsonItems.toList : JsonItems → List Json
  | .nil => []
  | .cons item items => item :: items.toList

def JsonItems.ofList : List Json → JsonItems
  | [] => .nil
  | item :: items => .cons item (ofList items)

@[simp] theorem JsonItems.toList_ofList (items : List Json) : (ofList items).toList = items := by
  induction items with
  | nil => rfl
  | cons item items ih => rw [ofList, toList, ih]

namespace JsonFields

def keys : JsonFields → List String
  | .nil => []
  | .cons key _ fields => key :: fields.keys

/-- `{ ...items }`, with the keys from `start` on. -/
def ofItems (start : Nat) : JsonItems → JsonFields
  | .nil => .nil
  | .cons item items => .cons (Nat.repr start) item (ofItems (start + 1) items)

/-- `fields[key] = value`: in its place, or behind the others. -/
def put (key : String) (value : Json) : JsonFields → JsonFields
  | .nil => .cons key value .nil
  | .cons k v fields => if k = key then .cons k value fields else .cons k v (fields.put key value)

/-- `delete fields[key]` -/
def erase (key : String) : JsonFields → JsonFields
  | .nil => .nil
  | .cons k v fields => if k = key then fields.erase key else .cons k v (fields.erase key)

/-- `if (value !== undefined) fields[key] = value` -/
def assign (fields : JsonFields) (key : String) (value : Option Json) : JsonFields :=
  match value with
  | some v => fields.put key v
  | none => fields

-- Lean derives the equations of a recursive definition at the first proof that unfolds it.
-- The proofs of a module are elaborated side by side; asked for once, here, the equations
-- are the same for all of them.
section
attribute [local simp] get put erase ofItems
end

theorem get_ofItems {key : String} (h : key.toList.all Char.isDigit = false) :
    ∀ (items : JsonItems) (start : Nat), (ofItems start items).get key = none
  | .nil, _ => rfl
  | .cons _ items, start => by
    have hne : Nat.repr start ≠ key := by
      rintro rfl
      rw [Nat.toList_repr, List.all_eq_false] at h
      obtain ⟨c, hc, hdigit⟩ := h
      exact hdigit (Nat.isDigit_of_mem_toDigits (by decide) (by decide) hc)
    rw [ofItems, get, if_neg hne, get_ofItems h items]

theorem get_put (key key' : String) (value : Json) :
    ∀ fields : JsonFields, (fields.put key value).get key' = if key = key' then some value else fields.get key'
  | .nil => rfl
  | .cons k v fields => by
    have ih := get_put key key' value fields
    by_cases hk : k = key <;> simp only [put, get, hk, if_true, if_false, ih] <;> grind

theorem get_erase (key key' : String) : ∀ fields : JsonFields, (fields.erase key).get key' = if key = key' then none else fields.get key'
  | .nil => by simp [erase, get]
  | .cons k v fields => by
    have ih := get_erase key key' fields
    by_cases hk : k = key <;> simp only [erase, get, hk, if_true, if_false, ih] <;> grind

theorem erase_of_get {key : String} : ∀ {fields : JsonFields}, fields.get key = none → fields.erase key = fields
  | .nil, _ => rfl
  | .cons k v fields, h => by
    by_cases hk : k = key
    · simp [get, hk] at h
    · rw [get, if_neg hk] at h
      rw [erase, if_neg hk, erase_of_get h]

theorem put_of_get {key : String} {value : Json} : ∀ {fields : JsonFields}, fields.get key = some value → fields.put key value = fields
  | .nil, h => by simp [get] at h
  | .cons k v fields, h => by
    by_cases hk : k = key
    · simp only [get, hk, if_true, Option.some.injEq] at h
      rw [put, if_pos hk, h]
    · rw [get, if_neg hk] at h
      rw [put, if_neg hk, put_of_get h]

theorem erase_put_self (key : String) (value : Json) : ∀ fields : JsonFields, (fields.put key value).erase key = fields.erase key
  | .nil => by simp [put, erase]
  | .cons k v fields => by
    have ih := erase_put_self key value fields
    by_cases hk : k = key <;> simp [put, erase, hk, ih]

theorem erase_put_of_ne {key key' : String} (hne : key ≠ key') (value : Json) :
    ∀ fields : JsonFields, (fields.put key value).erase key' = (fields.erase key').put key value
  | .nil => by simp [put, erase, hne]
  | .cons k v fields => by
    have ih := erase_put_of_ne hne value fields
    by_cases hk : k = key
    · subst hk
      simp [put, erase, hne]
    · by_cases hk' : k = key' <;> simp [put, erase, hk, hk', ih, Ne.symm hne]

theorem put_comm {key key' : String} (hne : key ≠ key') (value value' : Json) :
    ∀ {fields : JsonFields}, (fields.get key).isSome → (fields.put key' value').put key value = (fields.put key value).put key' value'
  | .nil, h => by simp [get] at h
  | .cons k v fields, h => by
    by_cases hk : k = key
    · subst hk
      simp [put, hne]
    · rw [get, if_neg hk] at h
      have ih := put_comm hne value value' h
      by_cases hk' : k = key' <;> simp [put, hk, hk', ih, Ne.symm hne]

section Assign

variable {fields : JsonFields} {key key' : String} {value value' : Option Json}

theorem get_assign (fields : JsonFields) (key key' : String) (value : Option Json) :
    (fields.assign key value).get key' = if key = key' then value.or (fields.get key') else fields.get key' := by
  cases value with
  | none => simp [assign]
  | some v =>
    rw [assign, get_put]
    simp

theorem assign_of_get (h : fields.get key = value) : fields.assign key value = fields := by
  cases value with
  | none => rfl
  | some v => exact put_of_get h

theorem erase_assign_self (fields : JsonFields) (key : String) (value : Option Json) :
    (fields.assign key value).erase key = fields.erase key := by
  cases value with
  | none => rfl
  | some v => exact erase_put_self key v fields

theorem erase_assign_of_ne (hne : key ≠ key') (fields : JsonFields) (value : Option Json) :
    (fields.assign key value).erase key' = (fields.erase key').assign key value := by
  cases value with
  | none => rfl
  | some v => exact erase_put_of_ne hne v fields

theorem assign_comm (hne : key ≠ key') (hkey : value.isSome → (fields.get key).isSome) :
    (fields.assign key' value').assign key value = (fields.assign key value).assign key' value' := by
  cases value with
  | none => rfl
  | some v =>
    cases value' with
    | none => rfl
    | some v' => exact put_comm hne v v' (hkey rfl)

end Assign
end JsonFields

end TokenProxy.Lib
