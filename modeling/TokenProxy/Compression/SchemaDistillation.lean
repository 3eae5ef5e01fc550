import TokenProxy.Compression.SchemaDistiller
import TokenProxy.Compression.SchemaMeaning

/-!
# Distilling a schema keeps its meaning

The distiller's sets of keys are those of the specification, so that it takes annotations from the
places of schemas only. Hence the parts of a schema that a validator looks at stay as they are
(`mean_distillNode`), a pointer through schemas leads to the distilled schema
(`locate_distillNode`), and a distilled schema has nothing left to take (`distillNode_distillNode`,
`strippedNode_distillNode`).
-/

namespace TokenProxy.Compression

open Lib (Json JsonItems JsonFields)

universe u

/-! ### The keys -/

theorem mem_stripKeys (key : String) : key ∈ stripKeys ↔ key ∈ annotations := by
  have hperm : stripKeys.Perm annotations := by decide
  exact hperm.mem_iff

theorem mem_nameMapKeys (key : String) : key ∈ nameMapKeys ∨ key = "dependencies" ↔ key ∈ mapKeywords := by
  have hperm : ("dependencies" :: nameMapKeys).Perm mapKeywords := by decide
  rw [← hperm.mem_iff, List.mem_cons, or_comm]

theorem mem_schemaKeys (key : String) : key ∈ schemaKeys ↔ key ∈ schemaKeywords := by
  have hperm : schemaKeys.Perm schemaKeywords := by decide
  exact hperm.mem_iff

theorem isArray_eq (value : Json) : isArray value = isTuple value := rfl

def distillValue (key : String) (value : Json) : Json :=
  if key ∈ mapKeywords then distillNames value
  else if HoldsList key value then distillSchemas value
  else if key ∈ schemaKeywords then distillNode value
  else value

theorem distillFields_cons (key : String) (value : Json) (fields : JsonFields) :
    distillFields (.cons key value fields) =
      if key ∈ annotations then distillFields fields else .cons key (distillValue key value) (distillFields fields) := by
  simp only [distillFields, distillValue, HoldsList, mem_stripKeys, mem_nameMapKeys, mem_schemaKeys, isArray_eq]
  rfl

theorem get_distillFields (key : String) :
    ∀ fields : JsonFields, (distillFields fields).get key = if key ∈ annotations then none else (fields.get key).map (distillValue key)
  | .nil => by simp [distillFields, JsonFields.get]
  | .cons k value fields => by
    have ih := get_distillFields key fields
    rw [distillFields_cons]
    by_cases hk : k = key
    · subst hk
      split_ifs with hstrip
      · rw [ih, if_pos hstrip]
      · simp [JsonFields.get]
    · split_ifs with hstrip hkey hkey <;> simp [JsonFields.get, hk, ih, hkey]

theorem field_distillNode (node : Json) {key : String} (hkey : key ∉ annotations) :
    (distillNode node).field key = (node.field key).map (distillValue key) := by
  cases node with
  | object fields => exact (get_distillFields key fields).trans (if_neg hkey)
  | _ => rfl

theorem get_distillNamed (name : String) : ∀ names : JsonFields, (distillNamed names).get name = (names.get name).map distillNode
  | .nil => rfl
  | .cons n schema names => by
    have ih := get_distillNamed name names
    by_cases hn : n = name <;> simp [distillNamed, JsonFields.get, hn, ih]

theorem keys_distillNamed : ∀ names : JsonFields, (distillNamed names).keys = names.keys
  | .nil => rfl
  | .cons n schema names => by rw [distillNamed, JsonFields.keys, JsonFields.keys, keys_distillNamed names]

theorem ofItems_distillItems : ∀ (items : JsonItems) (start : ℕ),
    JsonFields.ofItems start (distillItems items) = distillNamed (JsonFields.ofItems start items)
  | .nil, _ => rfl
  | .cons item items, start => by
    rw [distillItems, JsonFields.ofItems, JsonFields.ofItems, distillNamed, ofItems_distillItems items]

theorem isTuple_distillNode (node : Json) : isTuple (distillNode node) = isTuple node := by
  cases node <;> rfl

theorem isTuple_distillSchemas (value : Json) : isTuple (distillSchemas value) = isTuple value := by
  cases value <;> rfl

theorem holdsList_distillValue {key : String} {value : Json} (h : key ∉ mapKeywords) :
    HoldsList key (distillValue key value) ↔ HoldsList key value := by
  have htuple : isTuple (distillValue key value) = isTuple value := by
    rw [distillValue, if_neg h]
    split_ifs
    · exact isTuple_distillSchemas value
    · exact isTuple_distillNode value
    · rfl
  rw [HoldsList, HoldsList, htuple]

/-! ### The meaning -/

section Meaning

variable {μ : Type u} (V : Validator μ) (reference : String → μ)

def part (keyword : String) (value : Json) : Part μ :=
  if keyword ∈ mapKeywords then V.names reference value
  else if HoldsList keyword value then V.schemas reference value
  else if keyword ∈ schemaKeywords then .schema (V.mean reference value)
  else .data value

theorem parts_cons (keyword : String) (value : Json) (fields : JsonFields) :
    V.parts reference (.cons keyword value fields) = (keyword, part V reference keyword value) :: V.parts reference fields := by
  rw [Validator.parts]
  rfl

theorem part_distillValue {keyword : String} {value : Json}
    (hnode : V.mean reference (distillNode value) = V.mean reference value)
    (hnames : V.names reference (distillNames value) = V.names reference value)
    (hschemas : V.schemas reference (distillSchemas value) = V.schemas reference value) :
    part V reference keyword (distillValue keyword value) = part V reference keyword value := by
  by_cases hmap : keyword ∈ mapKeywords
  · simp only [part, distillValue, if_pos hmap, hnames]
  · rw [part, part, if_neg hmap, if_neg hmap]
    simp only [holdsList_distillValue hmap]
    simp only [distillValue, if_neg hmap]
    split_ifs
    · exact hschemas
    · rw [hnode]
    · rfl

mutual

theorem mean_distillNode : ∀ node : Json, V.mean reference (distillNode node) = V.mean reference node
  | .object fields => by
    rw [distillNode, Validator.mean, Validator.mean, V.ignores, filter_parts_distillFields fields, ← V.ignores]
  | .null | .bool _ | .number _ | .string _ | .array _ => by simp [distillNode]

theorem filter_parts_distillFields : ∀ fields : JsonFields,
    (V.parts reference (distillFields fields)).filter (fun part => part.1 ∉ annotations) =
      (V.parts reference fields).filter fun part => part.1 ∉ annotations
  | .nil => by rw [distillFields]
  | .cons key value fields => by
    have ih := filter_parts_distillFields fields
    rw [distillFields_cons, parts_cons]
    by_cases hkey : key ∈ annotations
    · rw [if_pos hkey, ih, List.filter_cons_of_neg (by simpa using hkey)]
    · rw [if_neg hkey, parts_cons, part_distillValue V reference (mean_distillNode value) (names_distillNames value)
        (schemas_distillSchemas value), List.filter_cons_of_pos (by simpa using hkey), List.filter_cons_of_pos (by simpa using hkey), ih]

theorem names_distillNames : ∀ value : Json, V.names reference (distillNames value) = V.names reference value
  | .object names => by rw [distillNames, Validator.names, Validator.names, named_distillNamed names]
  | .null | .bool _ | .number _ | .string _ | .array _ => by simp [distillNames]

theorem named_distillNamed : ∀ names : JsonFields, V.named reference (distillNamed names) = V.named reference names
  | .nil => by rw [distillNamed]
  | .cons name schema names => by
    rw [distillNamed, Validator.named, Validator.named, mean_distillNode schema, named_distillNamed names]

theorem schemas_distillSchemas : ∀ value : Json, V.schemas reference (distillSchemas value) = V.schemas reference value
  | .array items => by rw [distillSchemas, Validator.schemas, Validator.schemas, listed_distillItems items]
  | .null | .bool _ | .number _ | .string _ | .object _ => by simp [distillSchemas]

theorem listed_distillItems : ∀ items : JsonItems, V.listed reference (distillItems items) = V.listed reference items
  | .nil => by rw [distillItems]
  | .cons schema items => by
    rw [distillItems, Validator.listed, Validator.listed, mean_distillNode schema, listed_distillItems items]

end

end Meaning

/-! ### Pointers -/

theorem distillValue_of_map {key : String} (h : key ∈ mapKeywords)
    (value : Json) : distillValue key value = distillNames value := if_pos h

theorem distillValue_of_list {key : String} {value : Json} (hmap : key ∉ mapKeywords)
    (h : HoldsList key value) :
    distillValue key value = distillSchemas value := by
  rw [distillValue, if_neg hmap, if_pos h]

theorem distillValue_of_schema {key : String} {value : Json} (hmap : key ∉ mapKeywords)
    (hlist : ¬ HoldsList key value)
    (h : key ∈ schemaKeywords) : distillValue key value = distillNode value := by
  rw [distillValue, if_neg hmap, if_neg hlist, if_pos h]

theorem distillValue_of_isData {key : String} (h : IsData key)
    (value : Json) : distillValue key value = value := by
  have hitems : key ≠ "items" := by
    rintro rfl
    exact h.2.2.2 (by decide)
  rw [distillValue, if_neg h.2.1, if_neg (by simp [HoldsList, h.2.2.1, hitems]), if_neg h.2.2.2]

theorem field_distillNames (value : Json) (name : String) :
    (distillNames value).field name = (value.field name).map distillNode := by
  cases value with
  | object names => exact get_distillNamed name names
  | _ => rfl

theorem element_distillSchemas (name : String) (value : Json) :
    element name (distillSchemas value) = (element name value).map distillNode := by
  cases value with
  | array items =>
    rw [distillSchemas, element, element, ofItems_distillItems]
    exact get_distillNamed name _
  | _ => rfl

theorem annotations_not_schema {keyword : String} (h : keyword ∈ annotations) :
    keyword ∉ mapKeywords ∧ keyword ∉ listKeywords ∧ keyword ∉ schemaKeywords ∧ keyword ≠ "items" := by
  simp only [annotations, List.mem_cons, List.not_mem_nil, or_false] at h
  rcases h with rfl | rfl | rfl | rfl <;> decide

theorem locate_of_annotations {keyword : String} (h : keyword ∈ annotations) (path : List String)
    (schema : Json) :
    locate (keyword :: path) schema = none := by
  obtain ⟨hmap, hlist, hschema, hitems⟩ := annotations_not_schema h
  simp [locate, HoldsList, hmap, hlist, hschema, hitems]

theorem locate_distillNode (path : List String) (schema : Json) :
    locate path (distillNode schema) = (locate path schema).map distillNode := by
  -- a step into a map or a list takes two of the names at once
  induction hn : path.length using Nat.strong_induction_on generalizing path schema with
  | _ n ih =>
    subst hn
    cases path with
    | nil => simp [locate]
    | cons keyword path =>
      by_cases hkey : keyword ∈ annotations
      · rw [locate_of_annotations hkey, locate_of_annotations hkey, Option.map_none]
      · rw [locate, locate, field_distillNode schema hkey, Option.bind_map, Option.map_bind]
        congr 1
        funext value
        simp only [Function.comp_apply]
        by_cases hmap : keyword ∈ mapKeywords
        · rw [if_pos hmap, if_pos hmap, distillValue_of_map hmap]
          cases path with
          | nil => rfl
          | cons name path =>
            simp only [field_distillNames, Option.bind_map, Option.map_bind]
            congr 1
            funext inner
            exact ih path.length (by simp only [List.length_cons]; omega) path inner rfl
        · rw [if_neg hmap, if_neg hmap]
          simp only [holdsList_distillValue hmap]
          by_cases hlist : HoldsList keyword value
          · rw [if_pos hlist, if_pos hlist, distillValue_of_list hmap hlist]
            cases path with
            | nil => rfl
            | cons name path =>
              simp only [element_distillSchemas, Option.bind_map, Option.map_bind]
              congr 1
              funext inner
              exact ih path.length (by simp only [List.length_cons]; omega) path inner rfl
          · rw [if_neg hlist, if_neg hlist]
            by_cases hschema : keyword ∈ schemaKeywords
            · rw [if_pos hschema, if_pos hschema, distillValue_of_schema hmap hlist hschema]
              exact ih path.length (by simp) path value rfl
            · rw [if_neg hschema, if_neg hschema, Option.map_none]

/-! ### Nothing is left to take -/

theorem distillValue_distillValue {key : String} {value : Json}
    (hnode : distillNode (distillNode value) = distillNode value)
    (hnames : distillNames (distillNames value) = distillNames value)
    (hschemas : distillSchemas (distillSchemas value) = distillSchemas value) :
    distillValue key (distillValue key value) = distillValue key value := by
  by_cases hmap : key ∈ mapKeywords
  · simp only [distillValue_of_map hmap, hnames]
  · by_cases hlist : HoldsList key value
    · rw [distillValue_of_list hmap ((holdsList_distillValue hmap).2 hlist),
        distillValue_of_list hmap hlist, hschemas]
    · have hlist' : ¬ HoldsList key (distillValue key value) := fun h => hlist ((holdsList_distillValue hmap).1 h)
      by_cases hschema : key ∈ schemaKeywords
      · rw [distillValue_of_schema hmap hlist' hschema, distillValue_of_schema hmap hlist hschema, hnode]
      · rw [distillValue, if_neg hmap, if_neg hlist', if_neg hschema]

mutual

theorem distillNode_distillNode : ∀ node : Json, distillNode (distillNode node) = distillNode node
  | .object fields => by rw [distillNode, distillNode, distillFields_distillFields fields]
  | .null | .bool _ | .number _ | .string _ | .array _ => by simp [distillNode]

theorem distillFields_distillFields : ∀ fields : JsonFields, distillFields (distillFields fields) = distillFields fields
  | .nil => by simp [distillFields]
  | .cons key value fields => by
    have ih := distillFields_distillFields fields
    rw [distillFields_cons]
    split_ifs with hkey
    · exact ih
    · rw [distillFields_cons, if_neg hkey, ih,
        distillValue_distillValue (distillNode_distillNode value) (distillNames_distillNames value) (distillSchemas_distillSchemas value)]

theorem distillNames_distillNames : ∀ value : Json, distillNames (distillNames value) = distillNames value
  | .object names => by rw [distillNames, distillNames, distillNamed_distillNamed names]
  | .null | .bool _ | .number _ | .string _ | .array _ => by simp [distillNames]

theorem distillNamed_distillNamed : ∀ names : JsonFields, distillNamed (distillNamed names) = distillNamed names
  | .nil => by simp [distillNamed]
  | .cons name schema names => by
    rw [distillNamed, distillNamed, distillNode_distillNode schema, distillNamed_distillNamed names]

theorem distillSchemas_distillSchemas : ∀ value : Json, distillSchemas (distillSchemas value) = distillSchemas value
  | .array items => by rw [distillSchemas, distillSchemas, distillItems_distillItems items]
  | .null | .bool _ | .number _ | .string _ | .object _ => by simp [distillSchemas]

theorem distillItems_distillItems : ∀ items : JsonItems, distillItems (distillItems items) = distillItems items
  | .nil => by simp [distillItems]
  | .cons schema items => by rw [distillItems, distillItems, distillNode_distillNode schema, distillItems_distillItems items]

end

def strippedValue (key : String) (value : Json) : List String :=
  if key ∈ mapKeywords then strippedNames value
  else if HoldsList key value then strippedSchemas value
  else if key ∈ schemaKeywords then strippedNode value
  else []

theorem strippedFields_cons (key : String) (value : Json) (fields : JsonFields) :
    strippedFields (.cons key value fields) =
      (if key ∈ annotations then ["stripped:" ++ key] else strippedValue key value) ++ strippedFields fields := by
  simp only [strippedFields, strippedValue, HoldsList, mem_stripKeys, mem_nameMapKeys, mem_schemaKeys, isArray_eq]
  rfl

theorem strippedValue_distillValue {key : String} {value : Json}
    (hnode : strippedNode (distillNode value) = [])
    (hnames : strippedNames (distillNames value) = []) (hschemas : strippedSchemas (distillSchemas value) = []) :
    strippedValue key (distillValue key value) = [] := by
  by_cases hmap : key ∈ mapKeywords
  · rw [strippedValue, if_pos hmap, distillValue_of_map hmap, hnames]
  · rw [strippedValue, if_neg hmap]
    simp only [holdsList_distillValue hmap]
    by_cases hlist : HoldsList key value
    · rw [if_pos hlist, distillValue_of_list hmap hlist, hschemas]
    · rw [if_neg hlist]
      split_ifs with hschema
      · rw [distillValue_of_schema hmap hlist hschema, hnode]
      · rfl

mutual

theorem strippedNode_distillNode : ∀ node : Json, strippedNode (distillNode node) = []
  | .object fields => by rw [distillNode, strippedNode, strippedFields_distillFields fields]
  | .null | .bool _ | .number _ | .string _ | .array _ => by simp [distillNode, strippedNode]

theorem strippedFields_distillFields : ∀ fields : JsonFields, strippedFields (distillFields fields) = []
  | .nil => by rw [distillFields, strippedFields]
  | .cons key value fields => by
    have ih := strippedFields_distillFields fields
    rw [distillFields_cons]
    split_ifs with hkey
    · exact ih
    · rw [strippedFields_cons, if_neg hkey, ih, List.append_nil,
        strippedValue_distillValue (strippedNode_distillNode value) (strippedNames_distillNames value)
          (strippedSchemas_distillSchemas value)]

theorem strippedNames_distillNames : ∀ value : Json, strippedNames (distillNames value) = []
  | .object names => by rw [distillNames, strippedNames, strippedNamed_distillNamed names]
  | .null | .bool _ | .number _ | .string _ | .array _ => by simp [distillNames, strippedNames]

theorem strippedNamed_distillNamed : ∀ names : JsonFields, strippedNamed (distillNamed names) = []
  | .nil => by rw [distillNamed, strippedNamed]
  | .cons name schema names => by
    rw [distillNamed, strippedNamed, strippedNode_distillNode schema,
      strippedNamed_distillNamed names, List.append_nil]

theorem strippedSchemas_distillSchemas : ∀ value : Json, strippedSchemas (distillSchemas value) = []
  | .array items => by rw [distillSchemas, strippedSchemas, strippedItems_distillItems items]
  | .null | .bool _ | .number _ | .string _ | .object _ => by simp [distillSchemas, strippedSchemas]

theorem strippedItems_distillItems : ∀ items : JsonItems, strippedItems (distillItems items) = []
  | .nil => by rw [distillItems, strippedItems]
  | .cons schema items => by
    rw [distillItems, strippedItems, strippedNode_distillNode schema,
      strippedItems_distillItems items, List.append_nil]

end

end TokenProxy.Compression
