import TokenProxy.Lib.Json
import TokenProxy.Lib.JsonString
import Mathlib.Algebra.Ring.Nat

/-!
# Documents as text
-/

namespace TokenProxy.Lib

mutual

/-- `JSON.stringify(value)` -/
def Json.print : Json → List Char
  | .null => "null".toList
  | .bool b => (if b then "true" else "false").toList
  | .number text => text.toList
  | .string s => '"' :: Json.escape s.toList ++ ['"']
  | .array items => '[' :: items.print ++ [']']
  | .object fields => '{' :: fields.print ++ ['}']

def JsonItems.print : JsonItems → List Char
  | .nil => []
  | .cons item .nil => item.print
  | .cons item items => item.print ++ ',' :: items.print

def JsonFields.print : JsonFields → List Char
  | .nil => []
  | .cons key value .nil => '"' :: Json.escape key.toList ++ '"' :: ':' :: value.print
  | .cons key value fields => '"' :: Json.escape key.toList ++ '"' :: ':' :: value.print ++ ',' :: fields.print

end

/-- `Buffer.byteLength(JSON.stringify(value), "utf8")` -/
def Json.byteLength (value : Json) : Nat := (value.print.map Char.utf8Size).sum

end TokenProxy.Lib
