import Mathlib.Data.List.Infix

/-!
# Text as a runtime of JavaScript reads it

Characters of a string one by one; the patterns modelled with it are all ASCII and ignore case, so
the lower case of a character is the ASCII one.
-/

namespace TokenProxy.Lib

/-- What `String.prototype.trim` removes, and what `\s` matches. -/
def isBlank (c : Char) : Bool :=
  c.val ∈ ([9, 10, 11, 12, 13, 32, 0xa0, 0x1680, 0x2028, 0x2029, 0x202f, 0x205f, 0x3000, 0xfeff] : List UInt32) ∨
    (0x2000 ≤ c.val ∧ c.val ≤ 0x200a)

/-- `String.prototype.trim` -/
def trim (cs : List Char) : List Char := ((cs.dropWhile isBlank).reverse.dropWhile isBlank).reverse

/-- Lower case, as far as ASCII is concerned: two other letters have an ASCII letter in theirs. -/
def lowerCase (c : Char) : List Char :=
  if c = '\u0130' then ['i', '\u0307'] else if c = '\u212a' then ['k'] else [c.toLower]

/-- What stands before and after the first occurrence of `w`. -/
def splitFirst (w : List Char) : List Char → Option (List Char × List Char)
  | [] => if w = [] then some ([], []) else none
  | c :: cs =>
    if w <+: c :: cs then some ([], (c :: cs).drop w.length)
    else (splitFirst w cs).map fun r => (c :: r.1, r.2)

/-- `text.replace(w, "")` -/
def removeFirst (w text : List Char) : List Char :=
  match splitFirst w text with
  | some (before, after) => before ++ after
  | none => text

/-- The words of a text: its runs of letters and digits, in lower case. -/
def wordsOf : List Char → List (List Char)
  | [] => []
  | c :: cs =>
    if c.isAlphanum then
      match cs, wordsOf cs with
      | d :: _, w :: ws => if d.isAlphanum then (c.toLower :: w) :: ws else [c.toLower] :: w :: ws
      | _, ws => [c.toLower] :: ws
    else wordsOf cs

/-- The first name that the text begins with, without regard to case, and what follows it. -/
def beginsWith (names : List String) (cs : List Char) : Option (List Char × List Char) :=
  names.findSome? fun name =>
    if name.toList.isPrefixOf (cs.map Char.toLower) then some (cs.splitAt name.length) else none

structure Found where
  before : List Char
  name : List Char
  after : List Char

/-- The leftmost name that stands between characters that are not `inWord`; `before`
is what was passed, reversed. -/
def findName (inWord : Char → Bool) (names : List String)
    (before : List Char) : List Char → Option Found
  | [] => none
  | c :: cs =>
    match if before.head?.any inWord then none else beginsWith names (c :: cs) with
    | some (name, after) =>
      if after.head?.any inWord then findName inWord names (c :: before) cs else some ⟨before.reverse, name, after⟩
    | none => findName inWord names (c :: before) cs

end TokenProxy.Lib
