import Mathlib.Algebra.Order.Field.Rat
import Mathlib.Order.WithBot
import TokenProxy.Lib.Text

/-!
# The scope of a quota window

What the name of a window says: whether it is the account's whole entitlement or a part of it, how
long its period is, and whether a part concerns a model. The regular expressions are spelt out; none
of them needs backtracking.
-/

namespace TokenProxy.Ranking

open TokenProxy.Lib

/-- The names of `GENERAL_NAMES`. -/
def generalNames : List String :=
  ["session", "rate-limit", "rate_limit", "rate limit", "ratelimit", "hourly", "daily", "weekly", "monthly", "annual",
    "yearly"]

/-- The names of `SCOPED_MARKERS`. -/
def scopedMarkers : List String :=
  ["per-model", "per_model", "per model", "permodel", "per-feature", "per_feature", "per feature", "perfeature", "model",
    "feature", "tool", "agent"]

/-- `GENERAL_NAMES.exec(name)` -/
def findGeneral (name : List Char) : Option Found := findName Char.isAlphanum generalNames [] name

/-- `SCOPED_MARKERS.test(name)`: here `_` belongs to a word. -/
def hasScopedMarker (name : List Char) : Bool :=
  (findName (fun c => c.isAlphanum || c = '_') scopedMarkers [] name).isSome

/-- A duration in parentheses: its number, its unit in lower case, and the text around it. -/
structure Duration where
  before : List Char
  amount : ℚ
  unit : List Char
  after : List Char

def digits (cs : List Char) : ℚ := cs.foldl (fun n c => 10 * n + (c.toNat - '0'.toNat : Nat)) 0

/-- `\d+(?:\.\d+)?`: the number and what follows it. -/
def parseNumber (cs : List Char) : Option (ℚ × List Char) :=
  match cs.span Char.isDigit with
  | ([], _) => none
  | (whole, '.' :: rest) =>
    match rest.span Char.isDigit with
    | ([], _) => some (digits whole, '.' :: rest)
    | (frac, rest) => some (digits whole + digits frac / 10 ^ frac.length, rest)
  | (whole, rest) => some (digits whole, rest)

/-- `\(\s*(\d+(?:\.\d+)?)\s*([a-z]+)\s*\)` at the beginning of a text. -/
def parseDuration (before : List Char) : List Char → Option Duration
  | '(' :: cs =>
    match parseNumber (cs.dropWhile isBlank) with
    | none => none
    | some (amount, cs) =>
      match (cs.dropWhile isBlank).span Char.isAlpha with
      | ([], _) => none
      | (unit, cs) =>
        match cs.dropWhile isBlank with
        | ')' :: after => some ⟨before.reverse, amount, unit.map Char.toLower, after⟩
        | _ => none
  | _ => none

/-- `PARENTHETICAL_DURATION.exec(name)`; `before` is what was passed, reversed. -/
def findDuration (before : List Char) : List Char → Option Duration
  | [] => none
  | c :: cs =>
    match parseDuration before (c :: cs) with
    | some d => some d
    | none => findDuration (c :: before) cs

/-- `UNIT_MS[unit]`; what every object inherits is found too, and is no number. -/
def UNIT_MS (unit : List Char) : Option (WithBot ℚ) :=
  match String.ofList unit with
  | "m" => some 60000
  | "min" => some 60000
  | "h" => some 3600000
  | "d" => some 86400000
  | "w" => some 604800000
  | "mo" => some 2592000000
  | "month" => some 2592000000
  | "y" => some 31536000000
  | "year" => some 31536000000
  | "constructor" => some ⊥
  | _ => none

/-- `BARE_NAME_MS` -/
def BARE_NAME_MS (name : List Char) : Option ℚ :=
  match String.ofList name with
  | "hourly" => some 3600000
  | "daily" => some 86400000
  | "weekly" => some 604800000
  | "monthly" => some 2592000000
  | "annual" => some 31536000000
  | "yearly" => some 31536000000
  | _ => none

def bareHorizonMs (name : List Char) : ℚ :=
  ((findGeneral name).bind fun found => BARE_NAME_MS (found.name.map Char.toLower)).getD 1

/-- `windowHorizonMs(scope)`; `⊥` is `NaN`. -/
def windowHorizonMs (scope : String) : WithBot ℚ :=
  match findDuration [] scope.toList with
  | some d => ((UNIT_MS d.unit).map (WithBot.map (d.amount * ·))).getD (bareHorizonMs scope.toList)
  | none => bareHorizonMs scope.toList

/-- `isQualifiedPeriod(name)`: anything but the name of the period and its duration is left. -/
def isQualifiedPeriod (name : List Char) : Bool :=
  let bare := match findDuration [] name with
    | some d => d.before ++ d.after
    | none => name
  match findGeneral bare with
  | none => false
  | some found => (found.before ++ found.after).any Char.isAlphanum

inductive Kind
  | general
  | scoped
  deriving DecidableEq

/-- `classifyWindow(scope)` -/
def classifyWindow (scope : String) : Option Kind :=
  let name := trim scope.toList
  if name.isEmpty then none
  else if hasScopedMarker name ∧ (findGeneral name).isNone then some .scoped
  else if isQualifiedPeriod name then some .scoped
  else if (findGeneral name).isSome then some .general
  else if (findDuration [] name).isSome then some .general
  else none

/-- `.replace(/\([^)]*\)/g, '')` -/
def dropParentheses : List Char → List Char
  | [] => []
  | '(' :: cs =>
    match h : cs.dropWhile (· ≠ ')') with
    | [] => '(' :: dropParentheses cs
    | _ :: rest =>
      have : rest.length < cs.length := by
        have := (List.dropWhile_suffix (· ≠ ')') (l := cs)).length_le
        rw [h, List.length_cons] at this
        omega
      dropParentheses rest
  | c :: cs => c :: dropParentheses cs
termination_by cs => cs.length

def periodWords : List String :=
  ["permodel", "model", "session", "ratelimit", "hourly", "daily", "weekly", "monthly", "annual", "yearly"]

def dropPeriodWords : List (List Char) → List (List Char)
  | [] => []
  | [w] => if String.ofList w ∈ periodWords then [] else [w]
  | w :: w' :: ws =>
    if (String.ofList w = "per" ∧ String.ofList w' = "model") ∨ (String.ofList w = "rate" ∧ String.ofList w' = "limit") then
      dropPeriodWords ws
    else if String.ofList w ∈ periodWords then dropPeriodWords (w' :: ws)
    else w :: dropPeriodWords (w' :: ws)

/-- `scopeAppliesToModel(scope, model)`; no model is the empty one. -/
def scopeAppliesToModel (scope model : String) : Bool :=
  let qualifier := dropPeriodWords (wordsOf (dropParentheses scope.toList))
  model ≠ "" ∧ qualifier ≠ [] ∧ qualifier <:+: wordsOf (model.toList.flatMap lowerCase)

end TokenProxy.Ranking
