import TokenProxy.Lib.JsonPrint

/-!
# The distiller of tool schemas

`schemaDistiller.js`: under an explicit option the annotations of the parameter schemas of tools are
dropped. `distillNode` is at a schema, `distillNames` at a map from names to schemas and
`distillSchemas` at a list of them; what stands under any other keyword is data. All that the source
writes to are objects that it has just made, so that documents in and documents out are all there is
to it.
-/

namespace TokenProxy.Compression

open Lib (Json JsonItems JsonFields)

def minBytes : ℕ := 8192

def stripKeys : List String := ["default", "examples", "example", "title"]

def nameMapKeys : List String := ["properties", "patternProperties", "$defs", "definitions", "dependentSchemas"]

def schemaKeys : List String :=
  ["items", "additionalItems", "additionalProperties", "unevaluatedItems", "unevaluatedProperties", "contains", "not", "if", "then", "else",
    "propertyNames", "contentSchema"]

def schemaArrayKeys : List String := ["allOf", "anyOf", "oneOf", "prefixItems"]

def isArray : Json → Bool
  | .array _ => true
  | _ => false

mutual

def distillNode : Json → Json
  | .object fields => .object (distillFields fields)
  | node => node

def distillFields : JsonFields → JsonFields
  | .nil => .nil
  | .cons key value fields =>
    if key ∈ stripKeys then distillFields fields
    else
      .cons key
        (if key ∈ nameMapKeys ∨ key = "dependencies" then distillNames value
        else if key ∈ schemaArrayKeys ∨ (key = "items" ∧ isArray value) then distillSchemas value
        else if key ∈ schemaKeys then distillNode value
        else value)
        (distillFields fields)

def distillNames : Json → Json
  | .object names => .object (distillNamed names)
  | value => value

def distillNamed : JsonFields → JsonFields
  | .nil => .nil
  | .cons name schema names => .cons name (distillNode schema) (distillNamed names)

def distillSchemas : Json → Json
  | .array items => .array (distillItems items)
  | value => value

def distillItems : JsonItems → JsonItems
  | .nil => .nil
  | .cons schema items => .cons (distillNode schema) (distillItems items)

end

mutual

def strippedNode : Json → List String
  | .object fields => strippedFields fields
  | _ => []

def strippedFields : JsonFields → List String
  | .nil => []
  | .cons key value fields =>
    (if key ∈ stripKeys then ["stripped:" ++ key]
    else if key ∈ nameMapKeys ∨ key = "dependencies" then strippedNames value
    else if key ∈ schemaArrayKeys ∨ (key = "items" ∧ isArray value) then strippedSchemas value
    else if key ∈ schemaKeys then strippedNode value
    else []) ++ strippedFields fields

def strippedNames : Json → List String
  | .object names => strippedNamed names
  | _ => []

def strippedNamed : JsonFields → List String
  | .nil => []
  | .cons _ schema names => strippedNode schema ++ strippedNamed names

def strippedSchemas : Json → List String
  | .array items => strippedItems items
  | _ => []

def strippedItems : JsonItems → List String
  | .nil => []
  | .cons schema items => strippedNode schema ++ strippedItems items

end

/-! ### Tools -/

/-- `value && typeof value === "object"` -/
def isObject : Json → Bool
  | .array _ => true
  | .object _ => true
  | _ => false

/-- `{ ...value }` -/
def spread : Json → JsonFields
  | .object fields => fields
  | .array items => .ofItems 0 items
  | _ => .nil

/-- A key that was taken out of the tool comes back behind the others. -/
def returnKey (tool out : JsonFields) (key : String) : JsonFields :=
  match tool.get key with
  | some schema => out.put key (if isObject schema then distillNode schema else schema)
  | none => out

def distillKey (source out : JsonFields) (key : String) : JsonFields :=
  match source.get key with
  | some schema => if isObject schema then out.put key (distillNode schema) else out
  | none => out

def distillFunction (tool out : JsonFields) : JsonFields :=
  match tool.get "function" with
  | some function =>
    if isObject function then
      let fn := spread function
      let fn := distillKey fn fn "parameters"
      let fn := distillKey fn fn "schema"
      out.put "function" (.object fn)
    else out
  | none => out

def distillTool (tool : Json) : Json :=
  if isObject tool then
    let fields := spread tool
    let out := (fields.erase "input_schema").erase "inputSchema"
    let out := returnKey fields out "input_schema"
    let out := returnKey fields out "inputSchema"
    let out := distillKey fields out "parameters"
    let out := distillKey fields out "schema"
    .object (distillFunction fields out)
  else tool

def strippedKey (fields : JsonFields) (key : String) : List String :=
  match fields.get key with
  | some schema => strippedNode schema
  | none => []

def functionFields (tool : JsonFields) : JsonFields :=
  match tool.get "function" with
  | some function => spread function
  | none => .nil

def strippedTool (tool : Json) : List String :=
  if isObject tool then
    let fields := spread tool
    let fn := functionFields fields
    strippedKey fields "input_schema" ++ strippedKey fields "inputSchema" ++ strippedKey fields "parameters" ++
      strippedKey fields "schema" ++ strippedKey fn "parameters" ++ strippedKey fn "schema"
  else []

structure Distilled where
  tools : Json
  savedBytes : ℕ
  notes : List String
  semanticPreserving : Option Bool

def distillLossy : Json → Distilled
  | .array items =>
    let tools := Json.array items
    let before := tools.byteLength
    if items.toList.isEmpty ∨ before < minBytes then { tools, savedBytes := 0, notes := [], semanticPreserving := none }
    else
      let copy := Json.array (.ofList (items.toList.map distillTool))
      let savedBytes := before - copy.byteLength
      { tools := if savedBytes > 0 then copy else tools, savedBytes, notes := (items.toList.flatMap strippedTool).eraseDups,
        semanticPreserving := some (savedBytes == 0) }
  | tools => { tools, savedBytes := 0, notes := [], semanticPreserving := none }

def distillToolSchemas (tools : Json) (allowLossy : Bool) : Distilled :=
  if allowLossy then distillLossy tools else { tools, savedBytes := 0, notes := [], semanticPreserving := some true }

end TokenProxy.Compression
