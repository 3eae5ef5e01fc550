import TokenProxy.Lib.Json

/-!
# What a schema means to a validator

A validator reads a schema keyword by keyword. The keywords whose values are schemas, lists of
schemas or maps from names to schemas are those of the specification; the value of any other keyword
is data, and annotations do not matter. A reference stands for the schema that its pointer leads to,
`locate` from the root of the document. A validator sees through `n` references in a row with
`meaning … n`, and has its verdict as soon as further ones do not change it.
-/

namespace TokenProxy.Compression

open Lib (Json JsonItems JsonFields)

universe u

def annotations : List String := ["title", "default", "examples", "example"]

def mapKeywords : List String := ["properties", "patternProperties", "dependentSchemas", "$defs", "definitions", "dependencies"]

def listKeywords : List String := ["allOf", "anyOf", "oneOf", "prefixItems"]

def schemaKeywords : List String :=
  ["not", "if", "then", "else", "items", "additionalItems", "contains", "additionalProperties", "propertyNames", "unevaluatedItems",
    "unevaluatedProperties", "contentSchema"]

/-- Keywords such as `enum` and `const`, whose values are no schemas. -/
def IsData (keyword : String) : Prop :=
  keyword ∉ annotations ∧ keyword ∉ mapKeywords ∧ keyword ∉ listKeywords ∧ keyword ∉ schemaKeywords

instance (keyword : String) : Decidable (IsData keyword) := inferInstanceAs (Decidable (_ ∧ _ ∧ _ ∧ _))

def isTuple : Json → Bool
  | .array _ => true
  | _ => false

/-- `items` may hold a list of schemas or a schema. -/
def HoldsList (keyword : String) (value : Json) : Prop := keyword ∈ listKeywords ∨ (keyword = "items" ∧ isTuple value)

instance (keyword : String) (value : Json) : Decidable (HoldsList keyword value) := inferInstanceAs (Decidable (_ ∨ _))

/-- The element of a list at an index that is written as a text. -/
def element (name : String) : Json → Option Json
  | .array items => (JsonFields.ofItems 0 items).get name
  | _ => none

/-- The schema at the end of a pointer that leads through schemas only. -/
def locate : List String → Json → Option Json
  | [], schema => some schema
  | keyword :: path, schema =>
    (schema.field keyword).bind fun value =>
      if keyword ∈ mapKeywords then
        match path with
        | [] => none
        | name :: path => (value.field name).bind (locate path)
      else if HoldsList keyword value then
        match path with
        | [] => none
        | name :: path => (element name value).bind (locate path)
      else if keyword ∈ schemaKeywords then locate path value
      else none

/-- What the value of a keyword is to a validator for which a schema means a `μ`. -/
inductive Part (μ : Type u) where
  | data (value : Json)
  | schema (meaning : μ)
  | schemas (meanings : List μ)
  | named (meanings : List (String × μ))

structure Validator (μ : Type u) where
  /-- What a schema means that is no object. -/
  plain : Json → μ
  keywords : (String → μ) → List (String × Part μ) → μ
  /-- Where a reference points to. -/
  pointer : String → Option (List String)
  unresolved : String → μ
  accepts : μ → Json → Prop
  ignores : ∀ reference parts, keywords reference parts = keywords reference (parts.filter fun part => part.1 ∉ annotations)

namespace Validator

variable {μ : Type u} (V : Validator μ) (reference : String → μ)

mutual

def mean : Json → μ
  | .object fields => V.keywords reference (parts fields)
  | schema => V.plain schema

def parts : JsonFields → List (String × Part μ)
  | .nil => []
  | .cons keyword value fields =>
    (keyword,
      if keyword ∈ mapKeywords then names value
      else if HoldsList keyword value then schemas value
      else if keyword ∈ schemaKeywords then .schema (mean value)
      else .data value) :: parts fields

def names : Json → Part μ
  | .object fields => .named (named fields)
  | value => .data value

def named : JsonFields → List (String × μ)
  | .nil => []
  | .cons name schema fields => (name, mean schema) :: named fields

def schemas : Json → Part μ
  | .array items => .schemas (listed items)
  | value => .data value

def listed : JsonItems → List μ
  | .nil => []
  | .cons schema items => mean schema :: listed items

end

/-- The meaning of a schema in a document, seen through so many references in a row. -/
def meaning (root : Json) : ℕ → Json → μ
  | 0, schema => V.mean V.unresolved schema
  | n + 1, schema =>
    V.mean
      (fun ref =>
        match (V.pointer ref).bind fun path => locate path root with
        | some target => meaning root n target
        | none => V.unresolved ref)
      schema

def Validates (schema value : Json) : Prop := ∃ n, ∀ m ≥ n, V.accepts (V.meaning schema m schema) value

end Validator

/-! ### A validator -/

def typeName : Json → String
  | .null => "null"
  | .bool _ => "boolean"
  | .number _ => "number"
  | .string _ => "string"
  | .array _ => "array"
  | .object _ => "object"

def items : Json → List Json
  | .array items => items.toList
  | _ => []

/-- `#/$defs/name` -/
def pointerTokens (ref : String) : Option (List String) :=
  match ref.splitOn "/" with
  | "#" :: path => some path
  | _ => none

def passes (reference : String → Json → Bool) (keyword : String) (part : Part (Json → Bool))
    (value : Json) : Bool :=
  match part with
  | .data data =>
    if keyword = "type" then data = .string (typeName value)
    else if keyword = "const" then value = data
    else if keyword = "enum" then value ∈ items data
    else if keyword = "required" then (items data).all fun name =>
      match name with
      | .string s => (value.field s).isSome
      | _ => true
    else if keyword = "$ref" then
      match data with
      | .string ref => reference ref value
      | _ => true
    else true
  | .schema m => if keyword = "not" then !m value else if keyword = "items" then (items value).all m else true
  | .schemas ms =>
    if keyword = "allOf" then ms.all (· value)
    else if keyword = "anyOf" then ms.any (· value)
    else if keyword = "oneOf" then ms.countP (· value) = 1
    else true
  | .named ms =>
    if keyword = "properties" then ms.all fun entry => ((value.field entry.1).map entry.2).getD true else true

theorem passes_of_annotations (reference : String → Json → Bool) {keyword : String}
    (h : keyword ∈ annotations) (part : Part (Json → Bool))
    (value : Json) : passes reference keyword part value = true := by
  simp only [annotations, List.mem_cons, List.not_mem_nil, or_false] at h
  rcases h with rfl | rfl | rfl | rfl <;> cases part <;> simp [passes]

def plainValidator : Validator (Json → Bool) where
  plain schema _ := schema ≠ .bool false
  keywords reference parts value := parts.all fun part => passes reference part.1 part.2 value
  pointer := pointerTokens
  unresolved _ _ := false
  accepts meaning value := meaning value = true
  ignores reference parts := by
    funext value
    rw [List.all_filter]
    congr 1
    funext part
    by_cases h : part.1 ∈ annotations
    · simp [h, passes_of_annotations reference h]
    · simp [h]

instance : Inhabited (Validator (Json → Bool)) := ⟨plainValidator⟩

end TokenProxy.Compression
