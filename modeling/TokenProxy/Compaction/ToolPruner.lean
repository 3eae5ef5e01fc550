import TokenProxy.Compression.Elide
import TokenProxy.Lib.AppendCons
import TokenProxy.Lib.Double
import TokenProxy.Lib.Substitute

/-!
# Pruning the results of tools

A result that is longer than a cap keeps its head and its tail, with a notice in between. Under
pressure the oldest results are cut first, each to the gentlest cap that covers what is still owed.

Texts are lists of UTF-16 code units. A message is what the pruner reads of it; `response` is the
JSON text of an object in a `functionResponse`, and a content that is neither a string nor a list is
`other`.
-/

namespace TokenProxy.ToolPruner

open Lib Lib.JsonText Compression

def defaultMaxChars : ℕ := 800

def defaultKeepTurns : ℕ := 2

def pressureTiers : List ℕ := [20000, 8000, 3000, 1200, 400]

def defaultPressureKeepTurns : ℕ := 20

/-! ### Messages -/

structure Flags where
  is_error : Bool := false
  isError : Bool := false
  error : Bool := false
  status : Option String := none
  deriving DecidableEq

def isErrorFlagged (node : Flags) : Bool :=
  node.is_error || node.isError || node.error || node.status == some "error" || node.status == some "failed"

inductive Content (α : Type) where
  | text (text : Text)
  | list (parts : List α)
  | other
  deriving DecidableEq

structure TextPart where
  type : Option String := none
  text : Option Text := none
  flags : Flags := {}
  deriving DecidableEq

/-- A part of a content; `content` is what a `tool_result` has. -/
structure Block where
  type : Option String := none
  text : Option Text := none
  flags : Flags := {}
  content : Content TextPart := .other
  deriving DecidableEq

/-- The object in a `functionResponse`: the client's, or `{ output }`. -/
inductive Response where
  | sent (json : Text)
  | output (text : Text)
  deriving DecidableEq

/-- `functionResponse` is there, and what its `response` is if that is an object. -/
structure Part where
  flags : Flags := {}
  functionResponse : Option (Option Response) := none
  deriving DecidableEq

structure Message where
  role : Option String := none
  type : Option String := none
  flags : Flags := {}
  content : Content Block := .other
  output : Content TextPart := .other
  parts : Option (List Part) := none
  deriving DecidableEq

/-! ### JSON texts -/

/-- A unit of a string in `JSON.stringify`; `paired` says that it is half of a pair. -/
def quoteUnit (paired : Bool) (c : CodeUnit) : Text :=
  if c = 34 then units "\\\"" else if c = 92 then units "\\\\" else if c = 8 then units "\\b" else if c = 9 then units "\\t"
  else if c = 10 then units "\\n" else if c = 12 then units "\\f" else if c = 13 then units "\\r"
  else if c < 32 || ((isHighSurrogate c || isLowSurrogate c) && !paired) then
    units "\\u" ++ [c / 4096, c / 256 % 16, c / 16 % 16, c % 16].map fun d => if d < 10 then 48 + d else 87 + d
  else [c]

/-- `JSON.stringify` of a string, without its quotes. -/
def quoteUnits : Text → Text
  | [] => []
  | [c] => quoteUnit false c
  | c :: next :: text =>
    if isHighSurrogate c && isLowSurrogate next then quoteUnit true c ++ quoteUnit true next ++ quoteUnits text
    else quoteUnit false c ++ quoteUnits (next :: text)

def Response.stringify : Response → Text
  | .sent json => json
  | .output text => units "\x7b\"output\":\"" ++ quoteUnits text ++ units "\"\x7d"

/-! ### Markers of elided texts -/

def stripPrefix (w : String) (text : Text) : Option Text :=
  if (units w).isPrefixOf text then some (text.drop w.length) else none

def isLowerHex (c : CodeUnit) : Bool := isDigit c || (97 ≤ c && c ≤ 102)

/-- `text` after so many digits of a hexadecimal number. -/
def hexDigits (n : ℕ) (text : Text) : Option Text :=
  if n ≤ text.length && (text.take n).all isLowerHex then some (text.drop n) else none

/-- What follows a match of `ELIDE_MARKER_RE` at the beginning of a text. -/
def afterMarker (text : Text) : Option Text := do
  let text ← stripPrefix "[elided " text
  let text ← digits text
  let text ← stripPrefix " chars · " text
  let text ← (stripPrefix "sha " text).or (stripPrefix "hmac " text)
  let text ← hexDigits 8 text
  stripPrefix " · head+tail preserved by tokenproxy]" text

def hasElideMarker : Text → Bool
  | [] => false
  | c :: text => (afterMarker (c :: text)).isSome || hasElideMarker text

/-! ### Cutting a text -/

/-- A value after pruning, what it saved and how many texts of it were cut. -/
structure Pruned (α : Type) where
  value : α
  savedChars : ℕ := 0
  count : ℕ := 0
  deriving DecidableEq

def headChars (maxChars : ℕ) : ℕ := floorTimes maxChars (7 / 10)

def tailChars (maxChars : ℕ) : ℕ := floorTimes maxChars (3 / 10)

/-- `text.slice(-n)`, which is the whole text for 0. -/
def sliceTail (n : ℕ) (text : Text) : Text := if n = 0 then text else text.drop (text.length - n)

def omittedChars (length maxChars : ℕ) : ℕ := length - (headChars maxChars + tailChars maxChars)

def omittedLines (lineCount omittedChars originalLength : ℕ) : ℕ :=
  max 1 ⌊toDouble (lineCount * toDouble (omittedChars / originalLength))⌋₊

def noticeLine (omittedLines omittedChars : ℕ) : Text :=
  units "[... Tool output truncated by tokenproxy memory optimizer: " ++ (units (Nat.repr omittedLines) ++ (units " lines / " ++
    (units (Nat.repr omittedChars) ++ units " chars omitted ...]")))

def notice (omittedLines omittedChars : ℕ) : Text := Compression.newline :: (noticeLine omittedLines omittedChars ++ [Compression.newline])

def noticeFor (text : Text) (maxChars : ℕ) : Text :=
  let omitted := omittedChars text.length maxChars
  notice (omittedLines (text.count Compression.newline) omitted text.length) omitted

def cutText (text : Text) (maxChars : ℕ) : Text :=
  text.take (headChars maxChars) ++ noticeFor text maxChars ++ sliceTail (tailChars maxChars) text

def truncateText (text : Text) (maxChars : ℕ) : Pruned Text :=
  if text.length ≤ maxChars then { value := text }
  else if hasElideMarker text then { value := text }
  else
    let truncatedText := cutText text maxChars
    { value := truncatedText, savedChars := text.length - truncatedText.length, count := 1 }

/-! ### Cutting a message -/

namespace Pruned

variable {α β : Type}

def map (f : α → β) (p : Pruned α) : Pruned β := ⟨f p.value, p.savedChars, p.count⟩

def each (f : α → Pruned α) : List α → Pruned (List α)
  | [] => { value := [] }
  | a :: as =>
    let first := f a
    let rest := each f as
    ⟨first.value :: rest.value, first.savedChars + rest.savedChars, first.count + rest.count⟩

end Pruned

/-- The text of a part of the type `wanted`. -/
def truncatePart (maxChars : ℕ) (wanted : String) (part : TextPart) : Pruned TextPart :=
  match part.text with
  | some text =>
    if !isErrorFlagged part.flags && part.type == some wanted then
      (truncateText text maxChars).map fun text => { part with text := some text }
    else { value := part }
  | none => { value := part }

/-- A part of the content of a message with the role `tool`. -/
def truncateBlockText (maxChars : ℕ) (block : Block) : Pruned Block :=
  match block.text with
  | some text =>
    if !isErrorFlagged block.flags && block.type == some "text" then
      (truncateText text maxChars).map fun text => { block with text := some text }
    else { value := block }
  | none => { value := block }

def truncateContent (maxChars : ℕ) (wanted : String) : Content TextPart → Pruned (Content TextPart)
  | .text text => (truncateText text maxChars).map .text
  | .list parts => (Pruned.each (truncatePart maxChars wanted) parts).map .list
  | .other => { value := .other }

def truncateToolResult (maxChars : ℕ) (block : Block) : Pruned Block :=
  if block.type != some "tool_result" || isErrorFlagged block.flags then { value := block }
  else (truncateContent maxChars "text" block.content).map fun content => { block with content }

def truncateResponse (maxChars : ℕ) (part : Part) : Pruned Part :=
  if isErrorFlagged part.flags then { value := part }
  else
    match part.functionResponse with
    | some (some response) =>
      let res := truncateText response.stringify maxChars
      if res.count = 0 then { value := part }
      else res.map fun text => { part with functionResponse := some (some (.output text)) }
    | _ => { value := part }

/-- Every tool output of one message, in the dialect that the message is in. -/
def truncateMessageTools (msg : Message) (maxChars : ℕ) : Pruned Message :=
  if isErrorFlagged msg.flags then { value := msg }
  else
    let isTool := msg.role == some "tool"
    match isTool || msg.role == some "function", msg.content with
    | true, .text text => (truncateText text maxChars).map fun text => { msg with content := .text text }
    | _, content =>
      match isTool, content with
      | true, .list blocks => (Pruned.each (truncateBlockText maxChars) blocks).map fun blocks => { msg with content := .list blocks }
      | _, content =>
        if msg.type == some "function_call_output" then
          (truncateContent maxChars "input_text" msg.output).map fun output => { msg with output }
        else
          match content, msg.parts with
          | .list blocks, _ => (Pruned.each (truncateToolResult maxChars) blocks).map fun blocks => { msg with content := .list blocks }
          | _, some parts => (Pruned.each (truncateResponse maxChars) parts).map fun parts => { msg with parts := some parts }
          | _, none => { value := msg }

/-! ### Pruning a history -/

/-- `findToolResultIndices`, for one message. -/
def isToolResult (msg : Message) : Bool :=
  msg.role == some "tool" || msg.role == some "function" || msg.type == some "function_call_output" ||
    (match msg.content with
      | .list blocks => blocks.any fun b => b.type == some "tool_result"
      | _ => false) ||
    (msg.parts.getD []).any fun p => p.functionResponse.isSome

structure Options where
  enabled : Bool := true
  keepRecentTurns : Option ℚ := none
  maxHistoricalChars : ℕ := defaultMaxChars
  deficitChars : ℤ := 0
  budgetAware : Bool := false
  tiers : List ℕ := pressureTiers

def Options.protectTurns (o : Options) : ℕ :=
  match o.keepRecentTurns with
  | some n => ⌊n⌋₊
  | none => if o.budgetAware then defaultPressureKeepTurns else defaultKeepTurns

/-- How many of the oldest results may be cut; under a budget they are taken in steps
of half the protected window. -/
def Options.historicalCount (o : Options) (toolCount : ℕ) : ℕ :=
  let historicalCount := toolCount - o.protectTurns
  if o.budgetAware then
    let step := max 1 (o.protectTurns / 2)
    historicalCount / step * step
  else historicalCount

/-- What has become of a message, and which of the caps it was cut to. -/
structure Visit where
  message : Message
  tier : Option ℕ := none
  savedChars : ℕ := 0
  count : ℕ := 0
  deriving DecidableEq

def cutTo (msg : Message) (tier maxChars : ℕ) : Visit :=
  let res := truncateMessageTools msg maxChars
  ⟨res.value, some tier, res.savedChars, res.count⟩

def untouched (msg : Message) : Visit := { message := msg }

/-- One cap for the first `left` results. -/
def pruneFlat (maxChars : ℕ) : ℕ → List Message → List Visit
  | _, [] => []
  | left, msg :: items =>
    if isToolResult msg && 0 < left then cutTo msg 0 maxChars :: pruneFlat maxChars (left - 1) items
    else untouched msg :: pruneFlat maxChars left items

def chooseTier (caps : List ℕ) (msg : Message) (remaining : ℤ) : ℕ :=
  (caps.findIdx? fun cap => decide (remaining ≤ (truncateMessageTools msg cap).savedChars)).getD (caps.length - 1)

/-- The first `left` results, until nothing remains to be saved. -/
def pruneTiers (caps : List ℕ) : ℕ → ℤ → List Message → List Visit
  | _, _, [] => []
  | left, remaining, msg :: items =>
    if isToolResult msg && 0 < left && 0 < remaining then
      let chosen := chooseTier caps msg remaining
      let visit := cutTo msg chosen (caps.getD chosen 0)
      visit :: pruneTiers caps (left - 1) (remaining - visit.savedChars) items
    else untouched msg :: pruneTiers caps left remaining items

def visits (items : List Message) (o : Options) : List Visit :=
  let historical := o.historicalCount (items.countP isToolResult)
  if !o.enabled || (o.budgetAware && o.deficitChars ≤ 0) then items.map untouched
  else if o.budgetAware then pruneTiers (if o.tiers.isEmpty then pressureTiers else o.tiers) historical o.deficitChars items
  else pruneFlat o.maxHistoricalChars historical items

structure PruneResult where
  items : List Message
  savedChars : ℕ
  count : ℕ
  tiersUsed : ℕ
  remainingChars : ℤ

def pruneHistoricalTools (items : List Message) (o : Options) : PruneResult :=
  let visits := visits items o
  let savedChars := (visits.map (·.savedChars)).sum
  let historical := o.historicalCount (items.countP isToolResult)
  { items := visits.map (·.message)
    savedChars
    count := (visits.map (·.count)).sum
    tiersUsed := (visits.map fun v => if 0 < v.savedChars then v.tier.getD 0 + 1 else 0).foldl max 0
    remainingChars := if o.enabled && o.budgetAware && 0 < historical then max 0 (o.deficitChars - savedChars) else 0 }

/-! ### Markers -/

/-- What `ELIDE_MARKER_RE` matches. -/
def IsMarker (m : Text) : Prop :=
  ∃ ds kind hex, ds ≠ [] ∧ (∀ d ∈ ds, isDigit d) ∧ (kind = "sha " ∨ kind = "hmac ") ∧ hex.length = 8 ∧ hex.all isLowerHex ∧
    m = units "[elided " ++ (ds ++ (units " chars · " ++ (units kind ++ (hex ++ units " · head+tail preserved by tokenproxy]"))))

theorem stripPrefix_eq_some {w : String} {text rest : Text} :
    stripPrefix w text = some rest ↔ text = units w ++ rest := by
  have hlen : (units w).length = w.length := length_units w
  unfold stripPrefix
  constructor
  · intro h
    split at h
    · rename_i hprefix
      obtain ⟨after, hafter⟩ := List.isPrefixOf_iff_prefix.1 hprefix
      rw [← Option.some.inj h, ← hafter, List.drop_left' hlen]
    · cases h
  · rintro rfl
    rw [if_pos (by simp), List.drop_left' hlen]

theorem digits_eq_some {ds rest : Text} (hne : ds ≠ []) (hds : ∀ d ∈ ds, isDigit d)
    (hrest : (rest.head?.any isDigit) = false) :
    digits (ds ++ rest) = some rest := by
  obtain ⟨d, ds, rfl⟩ := List.exists_cons_of_ne_nil hne
  have hdrop : (d :: ds ++ rest).dropWhile isDigit = rest := by
    rw [List.dropWhile_append_of_pos hds]
    cases rest with
    | nil => rfl
    | cons c rest => exact List.dropWhile_cons_of_neg (by simpa using hrest)
  rw [digits, if_pos (by simpa using hds d List.mem_cons_self), hdrop]

theorem of_digits {text rest : Text} (h : digits text = some rest) :
    ∃ ds, ds ≠ [] ∧ (∀ d ∈ ds, isDigit d) ∧ text = ds ++ rest := by
  unfold digits at h
  split at h
  · rename_i hhead
    rw [← Option.some.inj h]
    refine ⟨text.takeWhile isDigit, ?_, fun d => List.mem_takeWhile_imp, List.takeWhile_append_dropWhile.symm⟩
    cases text with
    | nil => simp at hhead
    | cons c text =>
      have hc : isDigit c = true := by simpa using hhead
      rw [List.takeWhile_cons_of_pos hc]
      exact List.cons_ne_nil _ _
  · cases h

theorem hexDigits_eq_some {n : ℕ} {text rest : Text} :
    hexDigits n text = some rest ↔ ∃ hex, hex.length = n ∧ hex.all isLowerHex ∧ text = hex ++ rest := by
  unfold hexDigits
  constructor
  · intro h
    split at h
    · rename_i hhex
      rw [Bool.and_eq_true, decide_eq_true_eq] at hhex
      rw [← Option.some.inj h]
      exact ⟨text.take n, List.length_take_of_le hhex.1, hhex.2, (List.take_append_drop n text).symm⟩
    · cases h
  · rintro ⟨hex, rfl, hall, rfl⟩
    rw [if_pos (by simpa using hall), List.drop_left]

theorem afterMarker_eq_some {text rest : Text} :
    afterMarker text = some rest ↔ ∃ m, IsMarker m ∧ text = m ++ rest := by
  simp only [afterMarker, bind, Option.bind_eq_some_iff, stripPrefix_eq_some, hexDigits_eq_some,
    Option.or_eq_some_iff]
  constructor
  · rintro ⟨_, rfl, number, hdigits, _, rfl, _, hkind, _, ⟨hex, hlen, hall, rfl⟩, rfl⟩
    obtain ⟨ds, hne, hds, rfl⟩ := of_digits hdigits
    rcases hkind with rfl | ⟨-, rfl⟩
    · exact ⟨_, ⟨ds, "sha ", hex, hne, hds, .inl rfl, hlen, hall, rfl⟩, by simp only [List.append_assoc]⟩
    · exact ⟨_, ⟨ds, "hmac ", hex, hne, hds, .inr rfl, hlen, hall, rfl⟩, by simp only [List.append_assoc]⟩
  · rintro ⟨_, ⟨ds, kind, hex, hne, hds, hkind, hlen, hall, rfl⟩, rfl⟩
    simp only [List.append_assoc]
    refine ⟨_, rfl, _, digits_eq_some hne hds rfl, _, rfl, _, ?_, _, ⟨hex, hlen, hall, rfl⟩, rfl⟩
    rcases hkind with rfl | rfl
    · exact .inl rfl
    · refine .inr ⟨?_, rfl⟩
      rw [Option.eq_none_iff_forall_ne_some]
      intro other hother
      have hfirst := congrArg List.head? (stripPrefix_eq_some.1 hother)
      exact absurd (show (some 104 : Option ℕ) = some 115 from hfirst) (by decide)

theorem hasElideMarker_iff {text : Text} :
    hasElideMarker text = true ↔ ∃ m, IsMarker m ∧ m <:+: text := by
  induction text with
  | nil =>
    simp only [hasElideMarker, Bool.false_eq_true, List.infix_nil, false_iff, not_exists, not_and]
    rintro m ⟨ds, kind, hex, -, -, -, -, -, rfl⟩ h
    simp [units] at h
  | cons c text ih =>
    rw [hasElideMarker, Bool.or_eq_true, ih, Option.isSome_iff_exists]
    simp only [afterMarker_eq_some, List.infix_cons_iff]
    constructor
    · rintro (⟨rest, m, hm, hrest⟩ | ⟨m, hm, hinfix⟩)
      · exact ⟨m, hm, .inl ⟨rest, hrest.symm⟩⟩
      · exact ⟨m, hm, .inr hinfix⟩
    · rintro ⟨m, hm, ⟨rest, hrest⟩ | hinfix⟩
      · exact .inl ⟨rest, m, hm, hrest.symm⟩
      · exact .inr ⟨m, hm, hinfix⟩

theorem IsMarker.notMem {m : Text} (h : IsMarker m) {c : CodeUnit}
    (hc : c = Compression.newline ∨ c = 34 ∨ c = 92) : c ∉ m := by
  obtain ⟨ds, kind, hex, -, hds, hkind, -, hhex, rfl⟩ := h
  have hdigit : c ∉ ds := fun hmem => by
    have := hds c hmem
    rcases hc with rfl | rfl | rfl <;> exact absurd this (by decide)
  have hhexDigit : c ∉ hex := fun hmem => by
    have := List.all_eq_true.1 hhex c hmem
    rcases hc with rfl | rfl | rfl <;> exact absurd this (by decide)
  have hkindUnits : c ∉ units kind := by rcases hkind with rfl | rfl <;> rcases hc with rfl | rfl | rfl <;> decide
  simp only [List.mem_append, not_or]
  refine ⟨?_, hdigit, ?_, hkindUnits, hhexDigit, ?_⟩ <;> rcases hc with rfl | rfl | rfl <;> decide

theorem IsMarker.newline_notMem {m : Text} (h : IsMarker m) : Compression.newline ∉ m := h.notMem (.inl rfl)

theorem IsMarker.head {m : Text} (h : IsMarker m) : ∃ rest, m = 91 :: 101 :: rest := by
  obtain ⟨ds, kind, hex, -, -, -, -, -, rfl⟩ := h
  exact ⟨_, rfl⟩

/-! ### The notice -/

theorem units_repr (n : ℕ) : units (Nat.repr n) = (Nat.toDigits 10 n).map Char.toNat := by
  rw [units, Nat.toList_repr]

theorem digit_of_mem {n d : ℕ} (h : d ∈ units (Nat.repr n)) : 48 ≤ d ∧ d ≤ 57 := by
  rw [units_repr] at h
  obtain ⟨c, hc, rfl⟩ := List.mem_map.1 h
  have hdigit := Nat.isDigit_of_mem_toDigits (by decide) (by decide) hc
  have hrange : 48 ≤ c.val ∧ c.val ≤ 57 := by simpa [Char.isDigit] using hdigit
  exact hrange

/-- The opening of a notice: a bracket that is no marker's, and neither a
bracket nor a newline behind it. -/
theorem noticeOpening :
    let opening := units "[... Tool output truncated by tokenproxy memory optimizer: "
    opening = 91 :: opening.tail ∧ opening.tail.head? = some 46 ∧
      (opening.tail.all fun c => c != 91 && c != Compression.newline) = true ∧ opening.length = 59 := by
  have htext := (String.toList_ofList : "[... Tool output truncated by tokenproxy memory optimizer: ".toList = _)
  rw [units, htext]
  decide

theorem noticeMiddle :
    let middle := units " lines / "
    middle = 32 :: middle.tail ∧ (middle.all fun c => c != 91 && c != Compression.newline) = true ∧ middle.length = 9 := by
  have htext := (String.toList_ofList : " lines / ".toList = _)
  rw [units, htext]
  decide

theorem noticeClosing :
    let closing := units " chars omitted ...]"
    closing = 32 :: closing.tail ∧ (closing.all fun c => c != 91 && c != Compression.newline) = true ∧ closing.length = 19 := by
  have htext := (String.toList_ofList : " chars omitted ...]".toList = _)
  rw [units, htext]
  decide

theorem notMem_of_all {c : ℕ} {text : Text} (hc : c = 91 ∨ c = Compression.newline)
    (h : (text.all fun c => c != 91 && c != Compression.newline) = true) : c ∉ text := by
  intro hmem
  have := List.all_eq_true.1 h c hmem
  rcases hc with rfl | rfl <;> simp at this

theorem notMem_digits {c : ℕ} (hc : c = 91 ∨ c = Compression.newline)
    (n : ℕ) : c ∉ units (Nat.repr n) := by
  intro hmem
  obtain ⟨hlow, hhigh⟩ := digit_of_mem hmem
  rcases hc with rfl | rfl
  · omega
  · exact absurd hlow (by decide)

theorem noticeLine_eq (lines chars : ℕ) :
    ∃ rest, noticeLine lines chars = 91 :: rest ∧ rest.head? = some 46 ∧ 91 ∉ rest ∧ Compression.newline ∉ rest ∧ 87 ≤ rest.length + 1 := by
  obtain ⟨hopening, hdot, hopeningAll, hopeningLength⟩ := noticeOpening
  obtain ⟨-, hmiddleAll, hmiddleLength⟩ := noticeMiddle
  obtain ⟨-, hclosingAll, hclosingLength⟩ := noticeClosing
  refine ⟨_, by rw [noticeLine, hopening, List.cons_append], ?_, ?_, ?_, ?_⟩
  · rw [List.head?_append, hdot, Option.some_or]
  · simp only [List.mem_append, not_or]
    exact ⟨notMem_of_all (.inl rfl) hopeningAll, notMem_digits (.inl rfl) _, notMem_of_all (.inl rfl) hmiddleAll,
      notMem_digits (.inl rfl) _, notMem_of_all (.inl rfl) hclosingAll⟩
  · simp only [List.mem_append, not_or]
    exact ⟨notMem_of_all (.inr rfl) hopeningAll, notMem_digits (.inr rfl) _, notMem_of_all (.inr rfl) hmiddleAll,
      notMem_digits (.inr rfl) _, notMem_of_all (.inr rfl) hclosingAll⟩
  · simp only [List.length_append, List.length_tail, hopeningLength, hmiddleLength, hclosingLength]
    omega

theorem newline_notMem_noticeLine (lines chars : ℕ) :
    Compression.newline ∉ noticeLine lines chars := by
  obtain ⟨rest, hrest, -, -, hnewline, -⟩ := noticeLine_eq lines chars
  rw [hrest, List.mem_cons, not_or]
  exact ⟨by decide, hnewline⟩

theorem marker_notInfix_noticeLine {m : Text} (hm : IsMarker m)
    (lines chars : ℕ) : ¬ m <:+: noticeLine lines chars := by
  rintro ⟨s, t, h⟩
  obtain ⟨rest, hrest, hdot, hbracket, -, -⟩ := noticeLine_eq lines chars
  obtain ⟨after, rfl⟩ := hm.head
  rw [hrest] at h
  cases s with
  | nil =>
    rw [List.nil_append, List.cons_append, List.cons.injEq] at h
    rw [← h.2] at hdot
    exact absurd hdot (by simp)
  | cons c s =>
    rw [List.cons_append, List.cons_append, List.cons.injEq] at h
    exact hbracket (by rw [← h.2]; simp)

theorem marker_of_notice {m before after : Text} (hm : IsMarker m) {lines chars : ℕ}
    (h : m <:+: before ++ notice lines chars ++ after) : m <:+: before ∨ m <:+: after := by
  rw [notice, List.append_assoc, List.cons_append, List.append_assoc, List.singleton_append] at h
  rcases isInfix_append_cons hm.newline_notMem h with h | h
  · exact .inl h
  · rcases isInfix_append_cons hm.newline_notMem h with h | h
    · exact absurd h (marker_notInfix_noticeLine hm lines chars)
    · exact .inr h

theorem eighty_le_length_notice (lines chars : ℕ) : 80 ≤ (notice lines chars).length := by
  obtain ⟨rest, hrest, -, -, -, hlength⟩ := noticeLine_eq lines chars
  rw [notice, hrest, List.length_cons, List.length_append, List.length_cons]
  omega

theorem count_notice (lines chars : ℕ) : (notice lines chars).count Compression.newline = 2 := by
  rw [notice, List.count_cons_self, List.count_append, List.count_eq_zero.2 (newline_notMem_noticeLine lines chars)]
  rfl

theorem units_repr_inj {m n : ℕ} (h : units (Nat.repr m) = units (Nat.repr n)) : m = n := by
  have hchars : (Nat.repr m).toList = (Nat.repr n).toList :=
    List.map_injective_iff.2 (fun a b hab => Char.toNat_inj.1 hab) h
  rw [Nat.toList_repr, Nat.toList_repr] at hchars
  rw [← Nat.ofDigitChars_ten_toDigits (n := m), hchars, Nat.ofDigitChars_ten_toDigits]

theorem notice_inj {lines chars lines' chars' : ℕ} :
    notice lines chars = notice lines' chars' ↔ lines = lines' ∧ chars = chars' := by
  refine ⟨fun h => ?_, fun h => by rw [h.1, h.2]⟩
  have hspace (n : ℕ) : 32 ∉ units (Nat.repr n) := by
    intro hmem
    have := digit_of_mem hmem
    omega
  have hline := List.append_cancel_right (List.cons.inj h).2
  rw [noticeLine, noticeLine, List.append_cancel_left_eq, noticeMiddle.1, noticeClosing.1] at hline
  obtain ⟨hlines, hrest⟩ := eq_of_append_cons_eq (hspace _) (hspace _) hline
  obtain ⟨hchars, -⟩ := eq_of_append_cons_eq (hspace _) (hspace _) (List.append_cancel_left hrest)
  exact ⟨units_repr_inj hlines, units_repr_inj hchars⟩

/-! ### The shares of the head and the tail -/

theorem floorTimes_bounds {fraction value : ℚ} (hvalue : toDouble fraction = value)
    (hpos : 0 ≤ value) (n : ℕ) :
    (floorTimes n fraction : ℚ) ≤ n * value + n * value / 2 ^ 53 ∧
      n * value - n * value / 2 ^ 53 < (floorTimes n fraction : ℚ) + 1 := by
  have hx : 0 ≤ (n : ℚ) * value := mul_nonneg (Nat.cast_nonneg n) hpos
  have hupper := toDouble_le hx
  have hlower := le_toDouble hx
  have hnonneg : 0 ≤ toDouble (n * value) := by
    have : (n * value : ℚ) / 2 ^ 53 ≤ n * value := div_le_self hx (by norm_num)
    linarith
  unfold floorTimes
  rw [hvalue]
  exact ⟨(Nat.floor_le hnonneg).trans hupper, hlower.trans_lt (Nat.lt_floor_add_one _)⟩

theorem toDouble_shares :
    toDouble (7 / 10) = 6305039478318694 / 2 ^ 53 ∧ toDouble (3 / 10) = 5404319552844595 / 2 ^ 54 := by
  decide +kernel

theorem headChars_bounds (maxChars : ℕ) :
    (headChars maxChars : ℚ) ≤ maxChars * (6305039478318694 / 2 ^ 53) + maxChars * (6305039478318694 / 2 ^ 53) / 2 ^ 53 ∧
      maxChars * (6305039478318694 / 2 ^ 53) - maxChars * (6305039478318694 / 2 ^ 53) / 2 ^ 53 < (headChars maxChars : ℚ) + 1 :=
  floorTimes_bounds toDouble_shares.1 (by norm_num) maxChars

theorem tailChars_bounds (maxChars : ℕ) :
    (tailChars maxChars : ℚ) ≤ maxChars * (5404319552844595 / 2 ^ 54) + maxChars * (5404319552844595 / 2 ^ 54) / 2 ^ 53 ∧
      maxChars * (5404319552844595 / 2 ^ 54) - maxChars * (5404319552844595 / 2 ^ 54) / 2 ^ 53 < (tailChars maxChars : ℚ) + 1 :=
  floorTimes_bounds toDouble_shares.2 (by norm_num) maxChars

theorem shares {maxChars : ℕ} (h : maxChars < 2 ^ 53) :
    headChars maxChars + tailChars maxChars ≤ maxChars ∧ maxChars < headChars maxChars + tailChars maxChars + 4 := by
  have hcap : (maxChars : ℚ) < 2 ^ 53 := by exact_mod_cast h
  obtain ⟨hhead, hhead'⟩ := headChars_bounds maxChars
  obtain ⟨htail, htail'⟩ := tailChars_bounds maxChars
  constructor
  · have : ((headChars maxChars + tailChars maxChars : ℕ) : ℚ) < (maxChars + 1 : ℕ) := by
      push_cast
      linarith
    exact Nat.lt_succ_iff.1 (by exact_mod_cast this)
  · have : (maxChars : ℚ) < (headChars maxChars + tailChars maxChars + 4 : ℕ) := by
      push_cast
      linarith
    exact_mod_cast this

theorem tailChars_eq_zero_iff {maxChars : ℕ} : tailChars maxChars = 0 ↔ maxChars < 4 := by
  obtain ⟨htail, htail'⟩ := tailChars_bounds maxChars
  constructor
  · intro hzero
    rw [hzero] at htail'
    by_contra hlarge
    have : (4 : ℚ) ≤ maxChars := by exact_mod_cast not_lt.1 hlarge
    push_cast at htail'
    linarith
  · intro hsmall
    have hle : (maxChars : ℚ) ≤ 3 := by exact_mod_cast Nat.lt_succ_iff.1 hsmall
    have : (tailChars maxChars : ℚ) < (1 : ℕ) := by
      push_cast
      linarith
    exact Nat.lt_one_iff.1 (by exact_mod_cast this)

/-! ### Cutting a text twice -/

section Cut

variable {text : Text} {maxChars : ℕ} (hlong : maxChars < text.length) (hcap : maxChars < 2 ^ 53)
include hlong hcap

theorem length_head : (text.take (headChars maxChars)).length = headChars maxChars := by
  have := (shares hcap).1
  exact List.length_take_of_le (by omega)

theorem length_tail (ht : tailChars maxChars ≠ 0) :
    (sliceTail (tailChars maxChars) text).length = tailChars maxChars := by
  have := (shares hcap).1
  rw [sliceTail, if_neg ht, List.length_drop]
  omega

theorem length_cutText (ht : tailChars maxChars ≠ 0) :
    (cutText text maxChars).length = headChars maxChars + (noticeFor text maxChars).length + tailChars maxChars := by
  rw [cutText, List.length_append, List.length_append, length_head hlong hcap, length_tail hlong hcap ht]

theorem lt_length_cutText : maxChars < (cutText text maxChars).length := by
  have hnotice := eighty_le_length_notice
    (omittedLines (text.count Compression.newline) (omittedChars text.length maxChars) text.length) (omittedChars text.length maxChars)
  by_cases ht : tailChars maxChars = 0
  · rw [cutText, List.length_append, sliceTail, if_pos ht]
    omega
  · have hshares := (shares hcap).2
    rw [length_cutText hlong hcap ht, noticeFor]
    omega

theorem cutText_head : (cutText text maxChars).take (headChars maxChars) = text.take (headChars maxChars) := by
  rw [cutText, List.append_assoc, List.take_append_of_le_length (length_head hlong hcap).ge,
    List.take_take, min_self]

theorem cutText_tail (ht : tailChars maxChars ≠ 0) :
    sliceTail (tailChars maxChars) (cutText text maxChars) = sliceTail (tailChars maxChars) text := by
  have htail := length_tail hlong hcap ht
  conv_lhs => rw [sliceTail, if_neg ht]
  have hlen : (cutText text maxChars).length - tailChars maxChars =
      (text.take (headChars maxChars) ++ noticeFor text maxChars).length := by
    rw [length_cutText hlong hcap ht, List.length_append, length_head hlong hcap, Nat.add_sub_cancel]
  rw [hlen, cutText, List.drop_left]

end Cut

theorem hasElideMarker_cutText {text : Text} {maxChars : ℕ} (h : hasElideMarker text = false) :
    hasElideMarker (cutText text maxChars) = false := by
  rw [← Bool.not_eq_true, hasElideMarker_iff] at h ⊢
  rintro ⟨m, hm, hinfix⟩
  have hhead : text.take (headChars maxChars) <:+: text := (List.take_prefix _ _).isInfix
  have htail : sliceTail (tailChars maxChars) text <:+: text := by
    unfold sliceTail
    split
    · exact List.infix_rfl
    · exact (List.drop_suffix _ _).isInfix
  rcases marker_of_notice hm hinfix with hinfix | hinfix
  · exact h ⟨m, hm, hinfix.trans hhead⟩
  · exact h ⟨m, hm, hinfix.trans htail⟩

/-- **When a second cut changes nothing**, and the first made nothing longer: as many characters are
left out as the notice has, and it counts the lines as before. -/
def SelfCut (text : Text) (maxChars : ℕ) : Prop :=
  let omitted := omittedChars text.length maxChars
  let kept := text.take (headChars maxChars) ++ sliceTail (tailChars maxChars) text
  4 ≤ maxChars ∧ (noticeFor text maxChars).length = omitted ∧
    omittedLines (kept.count Compression.newline + 2) omitted text.length = omittedLines (text.count Compression.newline) omitted text.length

/-- `slice(-0)` keeps the whole text as its tail. -/
theorem length_lt_cutText (text : Text) {maxChars : ℕ} (ht : tailChars maxChars = 0) :
    text.length < (cutText text maxChars).length := by
  have hnotice := eighty_le_length_notice
    (omittedLines (text.count Compression.newline) (omittedChars text.length maxChars) text.length) (omittedChars text.length maxChars)
  rw [cutText, List.length_append, List.length_append, sliceTail, if_pos ht, noticeFor]
  omega

theorem count_cutText (text : Text) (maxChars : ℕ) :
    (cutText text maxChars).count Compression.newline =
      (text.take (headChars maxChars) ++ sliceTail (tailChars maxChars) text).count Compression.newline + 2 := by
  rw [cutText, List.count_append, List.count_append, List.count_append, noticeFor, count_notice]
  omega

/-- Two texts are cut alike if they have the same ends, the same length and
as many lines in the notice. -/
theorem cutText_inj {a b : Text} {maxChars : ℕ} (ha : maxChars < a.length)
    (hb : maxChars < b.length) (hcap : maxChars < 2 ^ 53) (ht : tailChars maxChars ≠ 0) :
    cutText a maxChars = cutText b maxChars ↔
      a.take (headChars maxChars) = b.take (headChars maxChars) ∧
        sliceTail (tailChars maxChars) a = sliceTail (tailChars maxChars) b ∧ a.length = b.length ∧
        omittedLines (a.count Compression.newline) (omittedChars b.length maxChars) b.length =
          omittedLines (b.count Compression.newline) (omittedChars b.length maxChars) b.length := by
  have hshares := (shares hcap).1
  constructor
  · intro h
    have hheads := (length_head ha hcap).trans (length_head hb hcap).symm
    have htails := (length_tail ha hcap ht).trans (length_tail hb hcap ht).symm
    rw [cutText, cutText, List.append_assoc, List.append_assoc] at h
    obtain ⟨hhead, hrest⟩ := List.append_inj h hheads
    obtain ⟨hnotice, htail⟩ := List.append_inj' hrest htails
    rw [noticeFor, noticeFor, notice_inj, omittedChars, omittedChars] at hnotice
    have hlength : a.length = b.length := by omega
    rw [hlength] at hnotice
    exact ⟨hhead, htail, hlength, hnotice.1⟩
  · rintro ⟨hhead, htail, hlength, hlines⟩
    rw [cutText, cutText, hhead, htail, noticeFor, noticeFor, hlength, hlines]

theorem selfCut_iff {text : Text} {maxChars : ℕ} (hlong : maxChars < text.length)
    (hcap : maxChars < 2 ^ 53) :
    (cutText text maxChars).length ≤ text.length ∧ cutText (cutText text maxChars) maxChars = cutText text maxChars ↔
      SelfCut text maxChars := by
  by_cases ht : tailChars maxChars = 0
  · have hlonger := length_lt_cutText text ht
    exact ⟨fun h => absurd h.1 (not_le.2 hlonger), fun h => absurd h.1 (not_le.2 (tailChars_eq_zero_iff.1 ht))⟩
  · have hfour : 4 ≤ maxChars := not_lt.1 fun h => ht (tailChars_eq_zero_iff.2 h)
    have hlength := length_cutText hlong hcap ht
    have hshares := (shares hcap).1
    have hchars : (cutText text maxChars).length = text.length ↔
        (noticeFor text maxChars).length = omittedChars text.length maxChars := by
      rw [hlength, omittedChars]
      omega
    rw [cutText_inj (lt_length_cutText hlong hcap) hlong hcap ht, SelfCut, ← hchars, count_cutText]
    constructor
    · rintro ⟨-, -, -, hsame, hlines⟩
      exact ⟨hfour, hsame, hlines⟩
    · rintro ⟨-, hsame, hlines⟩
      exact ⟨hsame.le, cutText_head hlong hcap, cutText_tail hlong hcap ht, hsame, hlines⟩

/-! ### What is left alone -/

theorem truncateText_of_elided {text : Text} (h : hasElideMarker text = true) (maxChars : ℕ) :
    truncateText text maxChars = { value := text } := by
  unfold truncateText
  split
  · rfl
  · rfl

theorem truncateText_of_le {text : Text} {maxChars : ℕ} (h : text.length ≤ maxChars) :
    truncateText text maxChars = { value := text } := if_pos h

theorem truncateText_of_lt {text : Text} {maxChars : ℕ} (hlong : maxChars < text.length)
    (h : hasElideMarker text = false) :
    truncateText text maxChars =
      { value := cutText text maxChars, savedChars := text.length - (cutText text maxChars).length, count := 1 } := by
  rw [truncateText, if_neg (not_le.2 hlong), if_neg (by simp [h])]

theorem truncateMessageTools_of_flagged {msg : Message} (h : isErrorFlagged msg.flags = true)
    (maxChars : ℕ) :
    truncateMessageTools msg maxChars = { value := msg } := if_pos h

theorem truncatePart_of_flagged {part : TextPart} (h : isErrorFlagged part.flags = true)
    (maxChars : ℕ) (wanted : String) :
    truncatePart maxChars wanted part = { value := part } := by
  unfold truncatePart
  cases part.text with
  | none => rfl
  | some text => simp only [h, Bool.not_true, Bool.false_and, Bool.false_eq_true, if_false]

theorem truncateBlockText_of_flagged {block : Block} (h : isErrorFlagged block.flags = true)
    (maxChars : ℕ) :
    truncateBlockText maxChars block = { value := block } := by
  unfold truncateBlockText
  cases block.text with
  | none => rfl
  | some text => simp only [h, Bool.not_true, Bool.false_and, Bool.false_eq_true, if_false]

theorem truncateToolResult_of_flagged {block : Block} (h : isErrorFlagged block.flags = true)
    (maxChars : ℕ) :
    truncateToolResult maxChars block = { value := block } :=
  if_pos (by rw [h, Bool.or_true])

theorem truncateResponse_of_flagged {part : Part} (h : isErrorFlagged part.flags = true)
    (maxChars : ℕ) :
    truncateResponse maxChars part = { value := part } := if_pos h

theorem pruneTiers_untouched {caps : List ℕ} {items : List Message} {left : ℕ} {remaining : ℤ}
    {i : ℕ} {msg : Message} (hmsg : items[i]? = some msg)
    (hi : isToolResult msg = false ∨ left ≤ (items.take i).countP isToolResult ∨ remaining ≤ 0) :
    (pruneTiers caps left remaining items)[i]? = some (untouched msg) := by
  induction items generalizing left remaining i with
  | nil => simp at hmsg
  | cons first items ih =>
    rw [pruneTiers]
    cases i with
    | zero =>
      rw [List.getElem?_cons_zero, Option.some.injEq] at hmsg
      rw [if_neg]
      · rw [hmsg, List.getElem?_cons_zero]
      · rw [hmsg]
        rcases hi with hi | hi | hi
        · simp [hi]
        · simp [Nat.le_zero.1 hi]
        · simp [hi]
    | succ i =>
      rw [List.getElem?_cons_succ] at hmsg
      rw [List.take_succ_cons, List.countP_cons] at hi
      split
      · rename_i hcut
        rw [Bool.and_eq_true, Bool.and_eq_true, decide_eq_true_eq, decide_eq_true_eq] at hcut
        rw [if_pos hcut.1.1] at hi
        rw [List.getElem?_cons_succ]
        apply ih hmsg
        rcases hi with hi | hi | hi
        · exact .inl hi
        · exact .inr (.inl (by omega))
        · exact absurd hi (not_le.2 hcut.2)
      · rename_i hcut
        rw [List.getElem?_cons_succ]
        apply ih hmsg
        rcases hi with hi | hi | hi
        · exact .inl hi
        · by_cases hfirst : isToolResult first = true
          · rw [if_pos hfirst] at hi
            by_cases hremaining : remaining ≤ 0
            · exact .inr (.inr hremaining)
            · have hleft : left = 0 := by
                by_contra hne
                exact hcut (by simp [hfirst, Nat.pos_of_ne_zero hne, not_le.1 hremaining])
              exact .inr (.inl (by omega))
          · rw [if_neg hfirst] at hi
            exact .inr (.inl hi)
        · exact .inr (.inr hi)

theorem pruneFlat_untouched {maxChars : ℕ} {items : List Message} {left i : ℕ} {msg : Message}
    (hmsg : items[i]? = some msg)
    (hi : isToolResult msg = false ∨ left ≤ (items.take i).countP isToolResult) :
    (pruneFlat maxChars left items)[i]? = some (untouched msg) := by
  induction items generalizing left i with
  | nil => simp at hmsg
  | cons first items ih =>
    rw [pruneFlat]
    cases i with
    | zero =>
      rw [List.getElem?_cons_zero, Option.some.injEq] at hmsg
      rw [if_neg]
      · rw [hmsg, List.getElem?_cons_zero]
      · rw [hmsg]
        rcases hi with hi | hi
        · simp [hi]
        · simp [Nat.le_zero.1 hi]
    | succ i =>
      rw [List.getElem?_cons_succ] at hmsg
      rw [List.take_succ_cons, List.countP_cons] at hi
      split
      · rename_i hcut
        rw [Bool.and_eq_true, decide_eq_true_eq] at hcut
        rw [if_pos hcut.1] at hi
        rw [List.getElem?_cons_succ]
        exact ih hmsg (hi.imp_right fun hi => by omega)
      · rename_i hcut
        rw [List.getElem?_cons_succ]
        apply ih hmsg
        by_cases hfirst : isToolResult first = true
        · have hleft : left = 0 := by
            by_contra hne
            exact hcut (by simp [hfirst, Nat.pos_of_ne_zero hne])
          exact .inr (by omega)
        · rwa [if_neg hfirst] at hi

theorem historicalCount_le (o : Options) (toolCount : ℕ) :
    o.historicalCount toolCount ≤ toolCount - o.protectTurns := by
  unfold Options.historicalCount
  dsimp only
  split
  · exact Nat.div_mul_le_self _ _
  · exact Nat.le_refl _

/-- **The protected window.** What is no result of a tool, or one of
the newest, is sent as it is. -/
theorem visits_untouched {items : List Message} {o : Options} {i : ℕ} {msg : Message}
    (hmsg : items[i]? = some msg)
    (hi : isToolResult msg = false ∨ (items.drop i).countP isToolResult ≤ o.protectTurns) :
    (visits items o)[i]? = some (untouched msg) := by
  have hcount : isToolResult msg = false ∨
      o.historicalCount (items.countP isToolResult) ≤ (items.take i).countP isToolResult := by
    refine hi.imp_right fun hi => (historicalCount_le o _).trans ?_
    have hsplit : (items.take i).countP isToolResult + (items.drop i).countP isToolResult = items.countP isToolResult := by
      rw [← List.countP_append, List.take_append_drop]
    omega
  unfold visits
  dsimp only
  split
  · rw [List.getElem?_map, hmsg, Option.map_some]
  · split
    · exact pruneTiers_untouched hmsg (hcount.imp_right .inl)
    · exact pruneFlat_untouched hmsg hcount

theorem prune_protected {items : List Message} {o : Options} {i : ℕ} {msg : Message}
    (hmsg : items[i]? = some msg)
    (hi : (items.drop i).countP isToolResult ≤ o.protectTurns) :
    (pruneHistoricalTools items o).items[i]? = some msg := by
  rw [pruneHistoricalTools, List.getElem?_map, visits_untouched hmsg (.inr hi), Option.map_some, untouched]

end TokenProxy.ToolPruner
