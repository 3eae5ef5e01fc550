import Mathlib.Algebra.Ring.Nat
import Mathlib.Data.List.Basic

/-!
# Trimming a history for a smaller context window

A fallback model with a smaller window gets the system messages, the first few older messages and
the current turn: everything after the last message of the assistant. The text of a message is what
its string or its blocks say; `rest` is what is carried along unread.
-/

namespace TokenProxy.Capacity

/-- A content block: its text, the call that it makes, the call whose result it is. -/
structure Block where
  text : Option String := none
  call : Option String := none
  result : Option String := none
  rest : String := ""
  deriving DecidableEq

inductive Content where
  | text (text : String)
  | blocks (blocks : List Block)
  | other
  deriving DecidableEq

/-- A message, or an item of an input: `content` and `parts` are none if they are missing. Calls and
results stand in blocks, in the message itself or are items of their own. -/
structure Message where
  role : Option String := none
  content : Option Content := none
  parts : Option Content := none
  toolCalls : List String := []
  toolCallId : Option String := none
  functionCall : Option String := none
  functionCallOutput : Option String := none
  rest : String := ""
  deriving DecidableEq

structure Body where
  messages : Option (List Message) := none
  input : Option (List Message) := none
  contents : Option (List Message) := none
  rest : String := ""
  deriving DecidableEq

def charsPerToken : Nat := 4

def headKeep : Nat := 6

def jsLength (s : String) : Nat := (s.toList.map fun c => if c.toNat < 0x10000 then 1 else 2).sum

def blockLength : Option Content → Nat
  | some (.text text) => jsLength text
  | some (.blocks blocks) => (blocks.map fun b => (b.text.map jsLength).getD 50).sum
  | _ => 0

def contentOf (m : Message) : Option Content := m.content.or m.parts

def Message.size (m : Message) : Nat := blockLength (contentOf m)

def Message.isSystem (m : Message) : Bool := m.role = some "system" || m.role = some "developer"

def Message.isAssistant (m : Message) : Bool := m.role = some "assistant" || m.role = some "model"

section Selection

variable {α : Type} (view : α → Message)

def sizeOf (l : List α) : Nat := (l.map fun m => (view m).size).sum

def systemMsgs (arr : List α) : List α := arr.filter fun m => (view m).isSystem

def restOf (arr : List α) : List α := arr.filter fun m => !(view m).isSystem

def turnStart (rest : List α) : Nat := rest.length - (rest.reverse.takeWhile fun m => !(view m).isAssistant).length

def tailOf (arr : List α) : List α := (restOf view arr).drop (turnStart view (restOf view arr))

/-- Everything before the current turn but the system messages. -/
def olderOf (arr : List α) : List α := (restOf view arr).take (turnStart view (restOf view arr))

def overBudget (contextWindow : Nat) (total : Nat) : Bool :=
  (if contextWindow = 0 then 200000 else contextWindow) * 8 * charsPerToken < total * 10

/-- Drop messages, the last one first, while the total is over the budget: the list is reversed. -/
def dropWhileOver (tooLarge : Nat → Bool) : List α → Nat → List α
  | [], _ => []
  | m :: ms, total => if tooLarge total then dropWhileOver tooLarge ms (total - (view m).size) else m :: ms

def keptHead (contextWindow : Nat) (arr : List α) : List α :=
  let headKept := (olderOf view arr).take headKeep
  (dropWhileOver view (overBudget contextWindow) headKept.reverse
    (sizeOf view (systemMsgs view arr ++ headKept ++ tailOf view arr))).reverse

def stripMessages (contextWindow : Nat) (arr : List α) : List α :=
  if restOf view arr = [] then arr
  else if olderOf view arr = [] then arr
  else if (keptHead view contextWindow arr).length = (olderOf view arr).length then arr
  else systemMsgs view arr ++ keptHead view contextWindow arr ++ tailOf view arr

end Selection

def stripHistoryForContext (body : Body) (contextWindow : Nat) : Body :=
  match body.messages, body.input, body.contents with
  | some messages, _, _ => { body with messages := some (stripMessages id contextWindow messages) }
  | none, some input, _ => { body with input := some (stripMessages id contextWindow input) }
  | none, none, some contents => { body with contents := some (stripMessages id contextWindow contents) }
  | none, none, none => body

end TokenProxy.Capacity
