import TokenProxy.Credentials.Connections
import TokenProxy.Lib.Arena
import TokenProxy.Lib.Compare
import TokenProxy.Lib.JsonRow

/-!
# The cache of decrypted rows

`connectionsRepo.js`: a read of a connection decrypts its row, and keeps the object under the text
of the whole row. A hit hands out a clone; a miss hands out the object that it keeps. What callers
hold are objects of one heap, by their place in it, and a caller may change an object that it was
handed in place.
-/

namespace TokenProxy.RowCache

open Credentials (Connection)
open Lib
open Lib.Json (Cell rowText rowText_inj)

/-- A row of `providerConnections` as it is stored. -/
structure Row where
  id : List Char
  provider : List Char
  authType : List Char
  name : Option (List Char) := none
  email : Option (List Char) := none
  accountId : Option (List Char) := none
  plan : Option (List Char) := none
  organizationId : Option (List Char) := none
  priority : Option ℤ := none
  isActive : Option ℤ := some 1
  data : List Char
  createdAt : List Char
  updatedAt : List Char
  deriving DecidableEq

def textCell : Option (List Char) → Cell
  | none => .null
  | some s => .text s

def integerCell : Option ℤ → Cell
  | none => .null
  | some n => .integer n

/-- `SELECT *`: the columns with what they hold. -/
def Row.cells (row : Row) : List (List Char × Cell) :=
  [("id".toList, .text row.id), ("provider".toList, .text row.provider), ("authType".toList, .text row.authType),
    ("name".toList, textCell row.name), ("email".toList, textCell row.email), ("accountId".toList, textCell row.accountId),
    ("plan".toList, textCell row.plan), ("organizationId".toList, textCell row.organizationId), ("priority".toList, integerCell row.priority),
    ("isActive".toList, integerCell row.isActive), ("data".toList, .text row.data), ("createdAt".toList, .text row.createdAt),
    ("updatedAt".toList, .text row.updatedAt)]

/-- `JSON.stringify(row)` -/
def fingerprintOf (row : Row) : List Char := rowText row.cells

theorem fingerprintOf_injective {row row' : Row}
    (h : fingerprintOf row = fingerprintOf row') : row = row' := by
  have htext : ∀ {a b : Option (List Char)}, textCell a = textCell b → a = b := by
    intro a b hab
    cases a <;> cases b <;> simp_all [textCell]
  have hinteger : ∀ {a b : Option ℤ}, integerCell a = integerCell b → a = b := by
    intro a b hab
    cases a <;> cases b <;> simp_all [integerCell]
  have hcells : row.cells = row'.cells := rowText_inj rfl h
  cases row
  cases row'
  simp only [Row.cells, List.cons.injEq, Prod.mk.injEq, Cell.text.injEq, true_and, and_true] at hcells
  obtain ⟨rfl, rfl, rfl, hname, hemail, haccount, hplan, horganization, hpriority, hactive, rfl, rfl, rfl⟩ := hcells
  obtain rfl := htext hname
  obtain rfl := htext hemail
  obtain rfl := htext haccount
  obtain rfl := htext hplan
  obtain rfl := htext horganization
  obtain rfl := hinteger hpriority
  obtain rfl := hinteger hactive
  rfl

section Reads

variable (decryptSecretJson : List Char → Connection)

def textValue (s : List Char) : JsValue := .string (String.ofList s)

def rowToConn (row : Row) : Connection := fun k =>
  if k = "id" then textValue row.id
  else if k = "provider" then textValue row.provider
  else if k = "authType" then textValue row.authType
  else if k = "name" then row.name.elim .null textValue
  else if k = "email" then row.email.elim .null textValue
  else if k = "priority" then row.priority.elim .null .number
  else if k = "isActive" then .bool (row.isActive = some 1)
  else if k = "createdAt" then textValue row.createdAt
  else if k = "updatedAt" then textValue row.updatedAt
  else decryptSecretJson row.data k

/-- What the cache keeps of a row: its text, and the place of the object. -/
structure Entry where
  id : List Char
  fingerprint : List Char
  conn : ℕ

/-- An object that was handed out: what it is now, and what it was then. -/
structure Handed where
  value : Connection
  given : Connection

structure State where
  rows : Table Row.id := .empty
  decryptedRowCache : Table Entry.id := .empty
  heap : List Handed := []

def State.hand (s : State) (value : Connection) : State := { s with heap := s.heap ++ [{ value, given := value }] }

def State.value (s : State) (conn : ℕ) : Connection := (s.heap[conn]?.map Handed.value).getD fun _ => .undefined

def cachedRowToConn (s : State) (row : Row) : State × ℕ :=
  let fingerprint := fingerprintOf row
  let miss := ({ s.hand (rowToConn decryptSecretJson row) with
    decryptedRowCache := s.decryptedRowCache.put { id := row.id, fingerprint, conn := s.heap.length } }, s.heap.length)
  match s.decryptedRowCache.get? row.id with
  | some hit => if hit.fingerprint = fingerprint then (s.hand (s.value hit.conn), s.heap.length) else miss
  | none => miss

/-- `rows.map(cachedRowToConn)`: each row with the place of its object. -/
def mapRows (s : State) : List Row → State × List (Row × ℕ)
  | [] => (s, [])
  | row :: rows =>
    let r := cachedRowToConn decryptSecretJson s row
    let rest := mapRows r.1 rows
    (rest.1, (row, r.2) :: rest.2)

structure Filter where
  provider : Option (List Char) := none
  isActive : Option Bool := none

def State.select (s : State) (filter : Filter) : List Row :=
  s.rows.rows.filter fun row =>
    (filter.provider.all fun provider => provider = [] || row.provider = provider) &&
      filter.isActive.all fun isActive => row.isActive = some (if isActive then 1 else 0)

/-- `conn.priority || 999`, for a priority that is a number. -/
def sortKey (c : Connection) : ℤ :=
  match (c "priority").orElse (.number 999) with
  | .number n => n
  | _ => 999

def getProviderConnections (s : State) (filter : Filter) : State × List (Row × ℕ) :=
  let r := mapRows decryptSecretJson s (s.select filter)
  (r.1, sortBy (compareOn fun e => sortKey (r.1.value e.2)) r.2)

def getProviderConnectionById (s : State) (id : List Char) : State × List (Row × ℕ) :=
  mapRows decryptSecretJson s (s.rows.get? id).toList

/-! ### Runs -/

inductive Op where
  /-- Any writer leaves any rows. -/
  | write (rows : Table Row.id)
  | readAll (filter : Filter)
  | readById (id : List Char)
  /-- A caller changes an object that it was handed. -/
  | mutate (conn : ℕ) (value : Connection)

def State.mutate (s : State) (conn : ℕ) (value : Connection) : State :=
  match s.heap[conn]? with
  | some o => { s with heap := s.heap.set conn { o with value } }
  | none => s

def Op.reads (s : State) : Op → List Row
  | .readAll filter => s.select filter
  | .readById id => (s.rows.get? id).toList
  | _ => []

/-- What an operation returns: the places of the objects, with the rows that they are of. -/
def Op.run (s : State) : Op → State × List (Row × ℕ)
  | .write rows => ({ s with rows }, [])
  | .readAll filter => getProviderConnections decryptSecretJson s filter
  | .readById id => getProviderConnectionById decryptSecretJson s id
  | .mutate conn value => (s.mutate conn value, [])

def step (s : State) (op : Op) : State := (op.run decryptSecretJson s).1

end Reads

end TokenProxy.RowCache
