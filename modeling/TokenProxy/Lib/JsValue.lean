import TokenProxy.Lib.Text

/-!
# Values of a dynamic language

Plain data as a script handles it: primitives, arrays and objects by their fields. `undefined` is a
value of its own. What comes back after a value was serialized and parsed (`stored`) has none: a
field that holds it is dropped, an array item becomes null.
-/

namespace TokenProxy.Lib

mutual

/-- A value. `uuid n` is the `n`-th string that the process drew at random. -/
inductive JsValue where
  | undefined
  | null
  | bool (b : Bool)
  | number (n : Int)
  | string (s : String)
  | uuid (n : Nat)
  | array (items : JsItems)
  | object (fields : JsFields)
  deriving DecidableEq

inductive JsItems where
  | nil
  | cons (item : JsValue) (items : JsItems)
  deriving DecidableEq

inductive JsFields where
  | nil
  | cons (key : String) (value : JsValue) (fields : JsFields)
  deriving DecidableEq

end

instance : Inhabited JsValue := ⟨.undefined⟩

@[induction_eliminator]
theorem JsFields.inductionOn {motive : JsFields → Prop} (fields : JsFields) (nil : motive .nil)
    (cons : ∀ key value fields, motive fields → motive (.cons key value fields)) : motive fields :=
  match fields with
  | .nil => nil
  | .cons key value fields => cons key value fields (JsFields.inductionOn fields nil cons)

/-! ### Reading -/

def JsValue.truthy : JsValue → Bool
  | .undefined => false
  | .null => false
  | .bool b => b
  | .number n => n ≠ 0
  | .string s => s ≠ ""
  | .uuid _ => true
  | .array _ => true
  | .object _ => true

/-- `a || b` -/
def JsValue.orElse (a b : JsValue) : JsValue := if a.truthy then a else b

/-- `a ?? b` -/
def JsValue.nullish (a b : JsValue) : JsValue := if a = .undefined ∨ a = .null then b else a

/-- The fields of a value that is an object, and none of any other. -/
def JsValue.fields : JsValue → JsFields
  | .object fields => fields
  | _ => .nil

namespace JsFields

def keys : JsFields → List String
  | .nil => []
  | .cons k _ fields => k :: fields.keys

def has (key : String) : JsFields → Bool
  | .nil => false
  | .cons k _ fields => k = key || fields.has key

def get (key : String) : JsFields → JsValue
  | .nil => .undefined
  | .cons k v fields => if k = key then v else fields.get key

/-! ### Writing -/

/-- Write a field: in the place of the one of its key, or behind all fields. -/
def put (key : String) (value : JsValue) : JsFields → JsFields
  | .nil => .cons key value .nil
  | .cons k v fields => if k = key then .cons k value fields else .cons k v (fields.put key value)

def erase (key : String) : JsFields → JsFields
  | .nil => .nil
  | .cons k v fields => if k = key then fields.erase key else .cons k v (fields.erase key)

/-- `{ ...fields, ...more }` -/
def spread (fields : JsFields) : JsFields → JsFields
  | .nil => fields
  | .cons k v more => (fields.put k v).spread more

def insert (key : String) (value : JsValue) : JsFields → JsFields
  | .nil => .cons key value .nil
  | .cons k v fields => if key ≤ k then .cons key value (.cons k v fields) else .cons k v (fields.insert key value)

def sorted : JsFields → JsFields
  | .nil => .nil
  | .cons k v fields => fields.sorted.insert k v

end JsFields

/-! ### Serialized and parsed -/

mutual

/-- What is parsed from a serialized value; a field or item that is undefined
is up to the object or array. -/
def JsValue.stored : JsValue → JsValue
  | .array items => .array items.stored
  | .object fields => .object fields.stored
  | v => v

def JsItems.stored : JsItems → JsItems
  | .nil => .nil
  | .cons .undefined items => .cons .null items.stored
  | .cons v items => .cons v.stored items.stored

def JsFields.stored : JsFields → JsFields
  | .nil => .nil
  | .cons _ .undefined fields => fields.stored
  | .cons k v fields => .cons k v.stored fields.stored

end

mutual

def JsValue.weight : JsValue → Nat
  | .array items => items.weight
  | .object fields => fields.weight
  | _ => 0

def JsItems.weight : JsItems → Nat
  | .nil => 0
  | .cons v items => v.weight + items.weight

def JsFields.weight : JsFields → Nat
  | .nil => 0
  | .cons _ v fields => 1 + v.weight + fields.weight

end

theorem JsFields.weight_insert (key : String) (value : JsValue) (fields : JsFields) :
    (fields.insert key value).weight = 1 + value.weight + fields.weight := by
  induction fields with
  | nil => rfl
  | cons k v fields ih =>
    rw [JsFields.insert]
    split
    · rfl
    · rw [JsFields.weight, ih, JsFields.weight]
      omega

/-! ### What a round leaves alone -/

theorem JsFields.stored_cons (key : String) {value : JsValue} (h : value ≠ .undefined)
    (fields : JsFields) :
    (JsFields.cons key value fields).stored = .cons key value.stored fields.stored := by
  cases value with
  | undefined => exact absurd rfl h
  | _ => rfl

theorem JsItems.stored_cons (item : JsValue) (items : JsItems) :
    ∃ w, (JsItems.cons item items).stored = .cons w items.stored ∧ ((item = .undefined ∧ w = .null) ∨ w = item.stored) := by
  cases item with
  | undefined => exact ⟨.null, rfl, Or.inl ⟨rfl, rfl⟩⟩
  | _ => exact ⟨_, rfl, Or.inr rfl⟩

theorem JsValue.stored_ne_undefined {v : JsValue} (h : v ≠ .undefined) : v.stored ≠ .undefined := by
  cases v with
  | undefined => exact absurd rfl h
  | _ => exact fun he => by cases he

mutual

theorem JsValue.stored_stored : (v : JsValue) → v.stored.stored = v.stored
  | .array items => congrArg JsValue.array (JsItems.stored_stored items)
  | .object fields => congrArg JsValue.object (JsFields.stored_stored fields)
  | .undefined => rfl
  | .null => rfl
  | .bool _ => rfl
  | .number _ => rfl
  | .string _ => rfl
  | .uuid _ => rfl

theorem JsItems.stored_stored : (items : JsItems) → items.stored.stored = items.stored
  | .nil => rfl
  | .cons v items => by
    cases v with
    | undefined => exact congrArg (JsItems.cons .null) (JsItems.stored_stored items)
    | array a => exact congrArg₂ JsItems.cons (JsValue.stored_stored (.array a)) (JsItems.stored_stored items)
    | object a => exact congrArg₂ JsItems.cons (JsValue.stored_stored (.object a)) (JsItems.stored_stored items)
    | _ => exact congrArg (JsItems.cons _) (JsItems.stored_stored items)

theorem JsFields.stored_stored : (fields : JsFields) → fields.stored.stored = fields.stored
  | .nil => rfl
  | .cons k v fields => by
    by_cases hv : v = .undefined
    · subst hv
      exact JsFields.stored_stored fields
    · rw [JsFields.stored_cons k hv, JsFields.stored_cons k (JsValue.stored_ne_undefined hv), JsValue.stored_stored v,
        JsFields.stored_stored fields]

end

theorem JsFields.length_keys_stored (fields : JsFields) :
    fields.stored.keys.length ≤ fields.keys.length := by
  induction fields with
  | nil => exact le_rfl
  | cons k v fields ih =>
    by_cases hv : v = .undefined
    · subst hv
      exact ih.trans (Nat.le_succ _)
    · rw [JsFields.stored_cons k hv]
      exact Nat.succ_le_succ ih

/-- An object that a round leaves alone has no undefined field, and each
of its values is left alone. -/
theorem JsFields.stored_cons_eq {k : String} {v : JsValue} {fields : JsFields}
    (h : (JsFields.cons k v fields).stored = .cons k v fields) :
    v ≠ .undefined ∧ v.stored = v ∧ fields.stored = fields := by
  have hv : v ≠ .undefined := by
    rintro rfl
    have hlength := JsFields.length_keys_stored fields
    rw [show fields.stored = JsFields.cons k .undefined fields from h] at hlength
    exact absurd hlength (Nat.not_succ_le_self _)
  rw [JsFields.stored_cons k hv] at h
  injection h with _ hstored hrest
  exact ⟨hv, hstored, hrest⟩

theorem JsFields.stored_put {key : String} {value : JsValue} (hv : value ≠ .undefined)
    (hvalue : value.stored = value)
    {fields : JsFields} (h : fields.stored = fields) :
    (fields.put key value).stored = fields.put key value := by
  induction fields with
  | nil => rw [JsFields.put, JsFields.stored_cons key hv, hvalue, JsFields.stored]
  | cons k v fields ih =>
    obtain ⟨hne, hstored, hrest⟩ := JsFields.stored_cons_eq h
    rw [JsFields.put]
    split
    · rw [JsFields.stored_cons k hv, hvalue, hrest]
    · rw [JsFields.stored_cons k hne, hstored, ih hrest]

theorem JsFields.stored_spread {fields more : JsFields} (h : fields.stored = fields)
    (hmore : more.stored = more) :
    (fields.spread more).stored = fields.spread more := by
  induction more generalizing fields with
  | nil => exact h
  | cons k v more ih =>
    obtain ⟨hne, hstored, hrest⟩ := JsFields.stored_cons_eq hmore
    exact ih (JsFields.stored_put hne hstored h) hrest

theorem JsFields.stored_erase {key : String} {fields : JsFields} (h : fields.stored = fields) :
    (fields.erase key).stored = fields.erase key := by
  induction fields with
  | nil => rfl
  | cons k v fields ih =>
    obtain ⟨hne, hstored, hrest⟩ := JsFields.stored_cons_eq h
    rw [JsFields.erase]
    split
    · exact ih hrest
    · rw [JsFields.stored_cons k hne, hstored, ih hrest]

end TokenProxy.Lib
