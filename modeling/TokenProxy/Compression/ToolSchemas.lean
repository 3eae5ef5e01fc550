import TokenProxy.Compression.SchemaDistillation

/-!
# Distilling the schemas of tools

A tool has its parameter schema at one of several `homes`. Distilling the tool distills what is
there and moves at most the schemas that come back behind the other keys (`distillTool_eq`); a tool
that was distilled stays as it is (`distillTool_distillTool`).
-/

namespace TokenProxy.Compression

open Lib (Json JsonItems JsonFields)

universe u

theorem distillNode_of_not_isObject {node : Json}
    (h : isObject node = false) : distillNode node = node := by
  cases node with
  | object fields => cases h
  | _ => simp [distillNode]

theorem spread_of_not_isObject {value : Json}
    (h : isObject value = false) : spread value = .nil := by
  cases value with
  | array items => cases h
  | object fields => cases h
  | _ => rfl

theorem field_of_not_isObject {value : Json} (h : isObject value = false)
    (key : String) : value.field key = none := by
  cases value with
  | object fields => cases h
  | _ => rfl

/-! ### One key -/

theorem returnKey_eq (tool out : JsonFields) (key : String) :
    returnKey tool out key = out.assign key ((tool.get key).map distillNode) := by
  rw [returnKey]
  cases tool.get key with
  | none => rfl
  | some schema =>
    cases hobject : isObject schema with
    | true => simp [JsonFields.assign, hobject]
    | false => simp [JsonFields.assign, hobject, distillNode_of_not_isObject hobject]

theorem distillKey_eq {source out : JsonFields} {key : String} (h : out.get key = source.get key) :
    distillKey source out key = out.assign key ((source.get key).map distillNode) := by
  rw [distillKey]
  cases hkey : source.get key with
  | none => rfl
  | some schema =>
    cases hobject : isObject schema with
    | true => simp [JsonFields.assign, hobject]
    | false =>
      rw [Option.map_some, distillNode_of_not_isObject hobject, JsonFields.assign_of_get (h.trans hkey)]
      simp [hobject]

theorem get_assign_map {source out : JsonFields} {key : String} (h : out.get key = source.get key)
    (f : Json → Json) :
    (out.assign key ((source.get key).map f)).get key = (source.get key).map f := by
  rw [JsonFields.get_assign, if_pos rfl, h]
  cases source.get key <;> rfl

def fnHomes (fn : JsonFields) : JsonFields :=
  (fn.assign "parameters" ((fn.get "parameters").map distillNode)).assign "schema" ((fn.get "schema").map distillNode)

def distillFn (function : Json) : Json := if isObject function then .object (fnHomes (spread function)) else function

theorem distillFunction_eq {tool out : JsonFields} (h : out.get "function" = tool.get "function") :
    distillFunction tool out = out.assign "function" ((tool.get "function").map distillFn) := by
  rw [distillFunction]
  cases hfunction : tool.get "function" with
  | none => rfl
  | some function =>
    cases hobject : isObject function with
    | true =>
      have hschema : ((spread function).assign "parameters" (((spread function).get "parameters").map distillNode)).get "schema" =
          (spread function).get "schema" := by
        rw [JsonFields.get_assign, if_neg (by decide)]
      simp only [if_true, Option.map_some, JsonFields.assign, distillFn, fnHomes, hobject]
      rw [distillKey_eq rfl, distillKey_eq rfl, hschema]
      rfl
    | false =>
      rw [Option.map_some, distillFn, hobject, JsonFields.assign_of_get]
      · simp [hobject]
      · rw [h, hfunction]
        rfl

/-! ### A tool -/

def body (fields : JsonFields) : JsonFields := (fields.erase "input_schema").erase "inputSchema"

def atHomes (fields out : JsonFields) : JsonFields :=
  ((out.assign "parameters" ((fields.get "parameters").map distillNode)).assign "schema" ((fields.get "schema").map distillNode)).assign
    "function" ((fields.get "function").map distillFn)

def atEnd (fields out : JsonFields) : JsonFields :=
  (out.assign "input_schema" ((fields.get "input_schema").map distillNode)).assign "inputSchema"
    ((fields.get "inputSchema").map distillNode)

theorem get_body (fields : JsonFields) {key : String} (h : key ≠ "input_schema") (h' : key ≠ "inputSchema") :
    (body fields).get key = fields.get key := by
  rw [body, JsonFields.get_erase, if_neg h'.symm, JsonFields.get_erase, if_neg h.symm]

theorem get_atEnd (fields out : JsonFields) {key : String} (h : key ≠ "input_schema") (h' : key ≠ "inputSchema") :
    (atEnd fields out).get key = out.get key := by
  rw [atEnd, JsonFields.get_assign, if_neg h'.symm, JsonFields.get_assign, if_neg h.symm]

theorem get_atHomes (fields out : JsonFields) {key : String} (h : key ≠ "parameters") (h' : key ≠ "schema") (h'' : key ≠ "function") :
    (atHomes fields out).get key = out.get key := by
  rw [atHomes, JsonFields.get_assign, if_neg h''.symm, JsonFields.get_assign, if_neg h'.symm, JsonFields.get_assign, if_neg h.symm]

theorem distillTool_eq {tool : Json} (h : isObject tool = true) :
    distillTool tool = .object (atHomes (spread tool) (atEnd (spread tool) (body (spread tool)))) := by
  have hget : ∀ key, key ≠ "input_schema" → key ≠ "inputSchema" →
      (atEnd (spread tool) (body (spread tool))).get key = (spread tool).get key := by
    intro key hkey hkey'
    rw [get_atEnd _ _ hkey hkey', get_body _ hkey hkey']
  rw [distillTool, if_pos h]
  simp only [returnKey_eq]
  change Json.object (distillFunction (spread tool) (distillKey (spread tool) (distillKey (spread tool)
    (atEnd (spread tool) (body (spread tool))) "parameters") "schema")) = _
  rw [distillKey_eq (hget "parameters" (by decide) (by decide)), distillKey_eq, distillFunction_eq]
  · rfl
  · rw [JsonFields.get_assign, if_neg (by decide), JsonFields.get_assign, if_neg (by decide), hget "function" (by decide) (by decide)]
  · rw [JsonFields.get_assign, if_neg (by decide), hget "schema" (by decide) (by decide)]

/-! ### Again -/

theorem map_distillNode (o : Option Json) :
    (o.map distillNode).map distillNode = o.map distillNode := by
  cases o with
  | none => rfl
  | some node => simp [distillNode_distillNode]

theorem get_fnHomes_parameters (fn : JsonFields) : (fnHomes fn).get "parameters" = (fn.get "parameters").map distillNode := by
  rw [fnHomes, JsonFields.get_assign, if_neg (by decide), get_assign_map rfl]

theorem get_fnHomes_schema (fn : JsonFields) : (fnHomes fn).get "schema" = (fn.get "schema").map distillNode := by
  refine get_assign_map ?_ distillNode
  rw [JsonFields.get_assign, if_neg (by decide)]

theorem fnHomes_fnHomes (fn : JsonFields) : fnHomes (fnHomes fn) = fnHomes fn := by
  rw [fnHomes, get_fnHomes_parameters, get_fnHomes_schema, map_distillNode, map_distillNode,
    JsonFields.assign_of_get (get_fnHomes_parameters fn), JsonFields.assign_of_get (get_fnHomes_schema fn)]

theorem distillFn_distillFn (function : Json) :
    distillFn (distillFn function) = distillFn function := by
  cases hobject : isObject function with
  | false => simp [distillFn, hobject]
  | true =>
    have hfn : distillFn function = .object (fnHomes (spread function)) := if_pos hobject
    rw [hfn]
    exact congrArg Json.object (fnHomes_fnHomes _)

theorem map_distillFn (o : Option Json) : (o.map distillFn).map distillFn = o.map distillFn := by
  cases o with
  | none => rfl
  | some function => simp [distillFn_distillFn]

def arranged (fields : JsonFields) : JsonFields := atHomes fields (atEnd fields (body fields))

theorem get_arranged_homes {fields : JsonFields} {key : String} (h : key ≠ "input_schema") (h' : key ≠ "inputSchema") :
    (atEnd fields (body fields)).get key = fields.get key := by
  rw [get_atEnd _ _ h h', get_body _ h h']

theorem get_arranged_function (fields : JsonFields) : (arranged fields).get "function" = (fields.get "function").map distillFn := by
  refine get_assign_map ?_ distillFn
  rw [JsonFields.get_assign, if_neg (by decide), JsonFields.get_assign, if_neg (by decide), get_arranged_homes (by decide) (by decide)]

theorem get_arranged_schema (fields : JsonFields) : (arranged fields).get "schema" = (fields.get "schema").map distillNode := by
  rw [arranged, atHomes, JsonFields.get_assign, if_neg (by decide)]
  refine get_assign_map ?_ distillNode
  rw [JsonFields.get_assign, if_neg (by decide), get_arranged_homes (by decide) (by decide)]

theorem get_arranged_parameters (fields : JsonFields) : (arranged fields).get "parameters" = (fields.get "parameters").map distillNode := by
  rw [arranged, atHomes, JsonFields.get_assign, if_neg (by decide), JsonFields.get_assign, if_neg (by decide)]
  exact get_assign_map (get_arranged_homes (by decide) (by decide)) distillNode

theorem get_arranged_inputSchema (fields : JsonFields) :
    (arranged fields).get "inputSchema" = (fields.get "inputSchema").map distillNode := by
  rw [arranged, get_atHomes _ _ (by decide) (by decide) (by decide), atEnd, JsonFields.get_assign, if_pos rfl, JsonFields.get_assign,
    if_neg (by decide), body, JsonFields.get_erase, if_pos rfl]
  cases fields.get "inputSchema" <;> rfl

theorem get_arranged_input_schema (fields : JsonFields) :
    (arranged fields).get "input_schema" = (fields.get "input_schema").map distillNode := by
  rw [arranged, get_atHomes _ _ (by decide) (by decide) (by decide), atEnd, JsonFields.get_assign, if_neg (by decide),
    JsonFields.get_assign, if_pos rfl, body, JsonFields.get_erase, if_neg (by decide), JsonFields.get_erase, if_pos rfl]
  cases fields.get "input_schema" <;> rfl

theorem atEnd_assign {source out : JsonFields} {key : String} {value : Option Json} (hkey : key ≠ "input_schema")
    (hkey' : key ≠ "inputSchema") (hvalue : value.isSome → (out.get key).isSome) :
    atEnd source (out.assign key value) = (atEnd source out).assign key value := by
  have hother : value.isSome → ((out.assign "input_schema" ((source.get "input_schema").map distillNode)).get key).isSome := by
    intro hsome
    rw [JsonFields.get_assign, if_neg hkey.symm]
    exact hvalue hsome
  rw [atEnd, atEnd, JsonFields.assign_comm hkey hvalue |>.symm, JsonFields.assign_comm hkey' hother |>.symm]

theorem atEnd_atHomes (fields : JsonFields) :
    atEnd fields (atHomes fields (body fields)) = arranged fields := by
  have hbody : ∀ key, key ≠ "input_schema" → key ≠ "inputSchema" → ∀ f : Json → Json, ((fields.get key).map f).isSome →
      ((body fields).get key).isSome := by
    intro key hkey hkey' f hsome
    rw [get_body fields hkey hkey']
    simpa using hsome
  have hassign : ∀ (out : JsonFields) key key' value, key ≠ key' → (out.get key').isSome → ((out.assign key value).get key').isSome := by
    intro out key key' value hne hsome
    rw [JsonFields.get_assign, if_neg hne]
    exact hsome
  rw [atHomes, atEnd_assign (by decide) (by decide), atEnd_assign (by decide) (by decide), atEnd_assign (by decide) (by decide)]
  · rfl
  · exact hbody "parameters" (by decide) (by decide) distillNode
  · intro hsome
    exact hassign _ _ _ _ (by decide) (hbody "schema" (by decide) (by decide) distillNode hsome)
  · intro hsome
    exact hassign _ _ _ _ (by decide) (hassign _ _ _ _ (by decide) (hbody "function" (by decide) (by decide) distillFn hsome))

theorem body_arranged (fields : JsonFields) :
    body (arranged fields) = atHomes fields (body fields) := by
  have hbody : body (atEnd fields (body fields)) = body fields := by
    have herase : ∀ (key : String) (out : JsonFields), (out.erase key).erase key = out.erase key := by
      intro key out
      refine JsonFields.erase_of_get ?_
      rw [JsonFields.get_erase, if_pos rfl]
    rw [body, atEnd, JsonFields.erase_assign_of_ne (by decide), JsonFields.erase_assign_self, JsonFields.erase_assign_self, body]
    rw [@JsonFields.erase_of_get "input_schema", herase]
    rw [JsonFields.get_erase, if_neg (by decide), JsonFields.get_erase, if_pos rfl]
  have hcomm : ∀ (out : JsonFields) key value, key ≠ "input_schema" → key ≠ "inputSchema" →
      body (out.assign key value) = (body out).assign key value := by
    intro out key value hkey hkey'
    rw [body, JsonFields.erase_assign_of_ne hkey, JsonFields.erase_assign_of_ne hkey', body]
  rw [arranged, atHomes, hcomm _ _ _ (by decide) (by decide), hcomm _ _ _ (by decide) (by decide), hcomm _ _ _ (by decide) (by decide),
    hbody, atHomes]

theorem arranged_arranged (fields : JsonFields) : arranged (arranged fields) = arranged fields := by
  have hend : ∀ out, atEnd (arranged fields) out = atEnd fields out := by
    intro out
    rw [atEnd, get_arranged_input_schema, get_arranged_inputSchema, map_distillNode, map_distillNode, atEnd]
  have hagain : atHomes (arranged fields) (arranged fields) = arranged fields := by
    rw [atHomes, get_arranged_parameters, get_arranged_schema, get_arranged_function, map_distillNode, map_distillNode, map_distillFn,
      JsonFields.assign_of_get (get_arranged_parameters fields), JsonFields.assign_of_get (get_arranged_schema fields),
      JsonFields.assign_of_get (get_arranged_function fields)]
  rw [arranged, body_arranged, hend, atEnd_atHomes, hagain]

theorem distillTool_distillTool (tool : Json) :
    distillTool (distillTool tool) = distillTool tool := by
  cases hobject : isObject tool with
  | false => simp [distillTool, hobject]
  | true =>
    rw [distillTool_eq hobject, distillTool_eq rfl]
    exact congrArg Json.object (arranged_arranged _)

theorem strippedKey_of_get {fields : JsonFields} {key : String} {schema : Option Json}
    (h : fields.get key = schema.map distillNode) :
    strippedKey fields key = [] := by
  rw [strippedKey, h]
  cases schema with
  | none => rfl
  | some schema => exact strippedNode_distillNode schema

theorem functionFields_arranged (fields : JsonFields) :
    functionFields (arranged fields) = fnHomes (functionFields fields) := by
  rw [functionFields, get_arranged_function, functionFields]
  cases fields.get "function" with
  | none => rfl
  | some function =>
    cases hobject : isObject function with
    | true => simp [distillFn, hobject, spread]
    | false =>
      have hnil : fnHomes .nil = .nil := rfl
      simp [distillFn, hobject, spread_of_not_isObject hobject, hnil]

theorem strippedTool_distillTool (tool : Json) : strippedTool (distillTool tool) = [] := by
  cases hobject : isObject tool with
  | false => simp [distillTool, strippedTool, hobject]
  | true =>
    rw [distillTool_eq hobject]
    change strippedTool (.object (arranged (spread tool))) = []
    simp only [strippedTool, isObject, spread, if_true, functionFields_arranged]
    rw [strippedKey_of_get (get_arranged_input_schema _), strippedKey_of_get (get_arranged_inputSchema _),
      strippedKey_of_get (get_arranged_parameters _), strippedKey_of_get (get_arranged_schema _),
      strippedKey_of_get (get_fnHomes_parameters _), strippedKey_of_get (get_fnHomes_schema _)]
    rfl

/-! ### The schemas of a tool -/

def homes : List (List String) :=
  [["input_schema"], ["inputSchema"], ["parameters"], ["schema"], ["function", "parameters"], ["function", "schema"]]

def schemaAt (home : List String) (tool : Json) : Option Json := home.foldlM Json.field tool

theorem get_spread {value : Json} {key : String}
    (h : key.toList.all Char.isDigit = false) : (spread value).get key = value.field key := by
  cases value with
  | array items => exact JsonFields.get_ofItems h items 0
  | _ => rfl

theorem field_distillTool (tool : Json) {key : String} {f : Json → Json}
    (hkey : key.toList.all Char.isDigit = false)
    (h : (arranged (spread tool)).get key = ((spread tool).get key).map f) :
    (distillTool tool).field key = (tool.field key).map f := by
  cases hobject : isObject tool with
  | true =>
    rw [get_spread hkey] at h
    rw [distillTool_eq hobject]
    exact h
  | false => simp [distillTool, hobject, field_of_not_isObject hobject]

theorem field_distillFn (function : Json) {key : String}
    (hkey : key.toList.all Char.isDigit = false)
    (h : (fnHomes (spread function)).get key = ((spread function).get key).map distillNode) :
    (distillFn function).field key = (function.field key).map distillNode := by
  cases hobject : isObject function with
  | true =>
    rw [get_spread hkey] at h
    rw [distillFn, if_pos hobject]
    exact h
  | false => simp [distillFn, hobject, field_of_not_isObject hobject]

theorem schemaAt_single (key : String) (tool : Json) : schemaAt [key] tool = tool.field key := by
  simp [schemaAt]

theorem schemaAt_pair (key key' : String) (tool : Json) :
    schemaAt [key, key'] tool = (tool.field key).bind fun value => value.field key' := by
  simp [schemaAt]

theorem schemaAt_distillTool {home : List String} (h : home ∈ homes) (tool : Json) :
    schemaAt home (distillTool tool) = (schemaAt home tool).map distillNode := by
  have hfunction : ∀ key : String, key.toList.all Char.isDigit = false → (∀ fn, (fnHomes fn).get key = (fn.get key).map distillNode) →
      schemaAt ["function", key] (distillTool tool) = (schemaAt ["function", key] tool).map distillNode := by
    intro key hkey hget
    rw [schemaAt_pair, schemaAt_pair, field_distillTool tool (by decide) (get_arranged_function _), Option.bind_map,
      Option.map_bind]
    congr 1
    funext function
    exact field_distillFn function hkey (hget _)
  simp only [homes, List.mem_cons, List.not_mem_nil, or_false] at h
  rcases h with rfl | rfl | rfl | rfl | rfl | rfl
  · simpa only [schemaAt_single] using field_distillTool tool (by decide) (get_arranged_input_schema _)
  · simpa only [schemaAt_single] using field_distillTool tool (by decide) (get_arranged_inputSchema _)
  · simpa only [schemaAt_single] using field_distillTool tool (by decide) (get_arranged_parameters _)
  · simpa only [schemaAt_single] using field_distillTool tool (by decide) (get_arranged_schema _)
  · exact hfunction "parameters" (by decide) get_fnHomes_parameters
  · exact hfunction "schema" (by decide) get_fnHomes_schema

/-! ### What a distilled schema says -/

section Meaning

variable {μ : Type u} (V : Validator μ)

theorem meaning_distillNode (root : Json) (n : ℕ) (schema : Json) :
    V.meaning (distillNode root) n (distillNode schema) = V.meaning root n schema := by
  induction n generalizing schema with
  | zero => exact mean_distillNode V V.unresolved schema
  | succ n ih =>
    rw [Validator.meaning, Validator.meaning, mean_distillNode]
    congr 1
    funext ref
    cases hpath : V.pointer ref with
    | none => rfl
    | some path =>
      rw [Option.bind_some, Option.bind_some, locate_distillNode]
      cases locate path root with
      | none => rfl
      | some target => exact ih target

theorem validates_distillNode (schema value : Json) :
    V.Validates (distillNode schema) value ↔ V.Validates schema value := by
  simp only [Validator.Validates, meaning_distillNode]

end Meaning

/-- Wherever a pointer leads to a schema in the one it leads to a schema in the other, with the same
names under each keyword that maps names to schemas and with the same data. -/
def KeepsWords (schema schema' : Json) : Prop :=
  ∀ path, (locate path schema').isSome = (locate path schema).isSome ∧
    ∀ node node', locate path schema = some node → locate path schema' = some node' →
      (∀ keyword ∈ mapKeywords, ∀ names, node.field keyword = some (.object names) →
        ∃ names', node'.field keyword = some (.object names') ∧ names'.keys = names.keys) ∧
      ∀ keyword, IsData keyword → node'.field keyword = node.field keyword

theorem KeepsWords.refl (schema : Json) : KeepsWords schema schema := by
  refine fun path => ⟨rfl, fun node node' hnode hnode' => ?_⟩
  obtain rfl : node = node' := Option.some.inj (hnode.symm.trans hnode')
  exact ⟨fun keyword _ names hnames => ⟨names, hnames, rfl⟩, fun keyword _ => rfl⟩

theorem mapKeywords_not_annotations : ∀ keyword ∈ mapKeywords, keyword ∉ annotations := by decide

theorem keepsWords_distillNode (schema : Json) : KeepsWords schema (distillNode schema) := by
  refine fun path => ⟨by rw [locate_distillNode, Option.isSome_map], fun node node' hnode hnode' => ?_⟩
  rw [locate_distillNode, hnode, Option.map_some] at hnode'
  obtain rfl : distillNode node = node' := Option.some.inj hnode'
  refine ⟨fun keyword hkeyword names hnames => ⟨distillNamed names, ?_, keys_distillNamed names⟩, fun keyword hkeyword => ?_⟩
  · rw [field_distillNode node (mapKeywords_not_annotations keyword hkeyword), hnames, Option.map_some, distillValue_of_map hkeyword,
      distillNames]
  · rw [field_distillNode node hkeyword.1]
    cases node.field keyword with
    | none => rfl
    | some value => rw [Option.map_some, distillValue_of_isData hkeyword]

/-! ### The tools of a request -/

def parameterSchema (tools : Json) (i : ℕ) (home : List String) : Option Json := ((items tools)[i]?).bind (schemaAt home)

theorem distillToolSchemas_cases (tools : Json) (allowLossy : Bool) :
    ((distillToolSchemas tools allowLossy).tools = tools ∧ (distillToolSchemas tools allowLossy).savedBytes = 0) ∨
    ∃ tools', tools = .array tools' ∧
      (distillToolSchemas tools allowLossy).tools = .array (.ofList (tools'.toList.map distillTool)) := by
  rw [distillToolSchemas]
  split_ifs with hlossy
  · cases tools with
    | array tools' =>
      rw [distillLossy]
      split_ifs with hsmall
      · exact Or.inl ⟨rfl, rfl⟩
      · by_cases hsaved : (Json.array tools').byteLength - (Json.array (.ofList (tools'.toList.map distillTool))).byteLength > 0
        · exact Or.inr ⟨tools', rfl, if_pos hsaved⟩
        · exact Or.inl ⟨if_neg hsaved, Nat.eq_zero_of_not_pos hsaved⟩
    | _ => exact Or.inl ⟨rfl, rfl⟩
  · exact Or.inl ⟨rfl, rfl⟩

theorem map_distillTool_map (tools : List Json) :
    (tools.map distillTool).map distillTool = tools.map distillTool := by
  rw [List.map_map]
  congr 1
  funext tool
  exact distillTool_distillTool tool

theorem distillToolSchemas_of_distilled (tools : List Json) (allowLossy : Bool) :
    let again := distillToolSchemas (.array (.ofList (tools.map distillTool))) allowLossy
    again.tools = .array (.ofList (tools.map distillTool)) ∧ again.savedBytes = 0 ∧ again.notes = [] := by
  intro again
  have hnotes : (tools.map distillTool).flatMap strippedTool = [] := by
    simp [List.flatMap_map, strippedTool_distillTool]
  cases allowLossy with
  | false => exact ⟨rfl, rfl, rfl⟩
  | true =>
    simp only [again, distillToolSchemas, distillLossy, if_true, JsonItems.toList_ofList, map_distillTool_map, hnotes]
    split_ifs with hsmall hsaved
    · exact ⟨rfl, rfl, rfl⟩
    · exact ⟨rfl, Nat.sub_self _, rfl⟩
    · exact ⟨rfl, Nat.sub_self _, rfl⟩

/-- Distilling the schemas of tools keeps what each of them accepts, its names and its data, and
leaves nothing to distill. -/
theorem distillToolSchemas_keeps {μ : Type u} (V : Validator μ) (tools : Json) (allowLossy : Bool) :
    let result := distillToolSchemas tools allowLossy
    (∀ i, ∀ home ∈ homes, (parameterSchema result.tools i home).isSome = (parameterSchema tools i home).isSome ∧
      ∀ schema schema', parameterSchema tools i home = some schema → parameterSchema result.tools i home = some schema' →
        (∀ value, V.Validates schema' value ↔ V.Validates schema value) ∧ KeepsWords schema schema') ∧
    (items result.tools).length = (items tools).length ∧
    let again := distillToolSchemas result.tools allowLossy
    again.tools = result.tools ∧ again.savedBytes = 0 ∧ (0 < result.savedBytes → again.notes = []) := by
  intro result
  obtain ⟨htools, hsaved⟩ | ⟨tools', rfl, htools⟩ := distillToolSchemas_cases tools allowLossy
  · have hresult : result.tools = tools := htools
    refine ⟨fun i home hhome => ⟨by rw [hresult], fun schema schema' h h' => ?_⟩, by rw [hresult], ?_⟩
    · rw [hresult] at h'
      obtain rfl : schema = schema' := Option.some.inj (h.symm.trans h')
      exact ⟨fun value => Iff.rfl, KeepsWords.refl schema⟩
    · rw [hresult]
      refine ⟨htools, hsaved, fun hpos => ?_⟩
      have : result.savedBytes = 0 := hsaved
      omega
  · have hresult : result.tools = .array (.ofList (tools'.toList.map distillTool)) := htools
    have hschema : ∀ i, ∀ home ∈ homes, parameterSchema result.tools i home = (parameterSchema (.array tools') i home).map distillNode := by
      intro i home hhome
      rw [hresult, parameterSchema, parameterSchema, items, items, JsonItems.toList_ofList, List.getElem?_map, Option.bind_map,
        Option.map_bind]
      congr 1
      funext tool
      exact schemaAt_distillTool hhome tool
    refine ⟨fun i home hhome => ⟨by rw [hschema i home hhome, Option.isSome_map], fun schema schema' h h' => ?_⟩, ?_, ?_⟩
    · rw [hschema i home hhome, h, Option.map_some] at h'
      obtain rfl : distillNode schema = schema' := Option.some.inj h'
      exact ⟨validates_distillNode V schema, keepsWords_distillNode schema⟩
    · rw [hresult, items, items, JsonItems.toList_ofList, List.length_map]
    · rw [hresult]
      obtain ⟨hagain, hsaved, hnotes⟩ := distillToolSchemas_of_distilled tools'.toList allowLossy
      exact ⟨hagain, hsaved, fun _ => hnotes⟩

end TokenProxy.Compression
