import Mathlib.Data.List.Basic

/-!
# Event streams

A stream of server-sent events is read line by line, and a line ends with a carriage return, a
newline, or both. Fields add to the event under construction and an empty line dispatches it. The
reader takes one character after another, so what it reads does not depend on how the text is cut
into pieces (`feed_append`).
-/

namespace TokenProxy.Lib

structure ServerEvent where
  event : List Char := []
  data : List Char := []
  id : List Char := []
  deriving DecidableEq

namespace EventStream

/-- What a reader of an event stream keeps: the line it is in, whether the last character was a
carriage return, and the event under construction. -/
structure Reading where
  line : List Char := []
  afterReturn : Bool := false
  event : List Char := []
  data : List Char := []
  id : List Char := []
  deriving DecidableEq

/-- The name and the value of a field; a space in front of the value is not part of it. -/
def splitField (line : List Char) : List Char × List Char :=
  let value := (line.dropWhile (· ≠ ':')).drop 1
  (line.takeWhile (· ≠ ':'), if value.head? = some ' ' then value.drop 1 else value)

/-- A line that is not empty; one that begins with a colon has no name, and is a comment. -/
def field (r : Reading) (line : List Char) : Reading :=
  let (name, value) := splitField line
  if name = "event".toList then { r with event := value }
  else if name = "data".toList then { r with data := r.data ++ value ++ ['\n'] }
  else if name = "id".toList ∧ '\x00' ∉ value then { r with id := value }
  else r

def dispatch (r : Reading) : Reading × List ServerEvent :=
  ({ r with event := [], data := [] },
    if r.data = [] then [] else [{ event := r.event, data := r.data.dropLast, id := r.id }])

def endLine (r : Reading) : Reading × List ServerEvent :=
  if r.line = [] then dispatch r else (field { r with line := [] } r.line, [])

def step (r : Reading) (c : Char) : Reading × List ServerEvent :=
  if c = '\n' then if r.afterReturn then ({ r with afterReturn := false }, []) else endLine r
  else if c = '\r' then endLine { r with afterReturn := true }
  else ({ r with line := r.line ++ [c], afterReturn := false }, [])

def feed (r : Reading) : List Char → Reading × List ServerEvent
  | [] => (r, [])
  | c :: cs => ((feed (step r c).1 cs).1, (step r c).2 ++ (feed (step r c).1 cs).2)

/-- **Pieces do not matter.** -/
theorem feed_append (r : Reading) (xs ys : List Char) :
    feed r (xs ++ ys) = ((feed (feed r xs).1 ys).1, (feed r xs).2 ++ (feed (feed r xs).1 ys).2) := by
  induction xs generalizing r with
  | nil => rfl
  | cons c xs ih => simp only [List.cons_append, feed, ih, List.append_assoc]

end EventStream

end TokenProxy.Lib
