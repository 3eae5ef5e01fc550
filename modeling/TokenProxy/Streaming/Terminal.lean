import TokenProxy.Streaming.PeekSafety

/-!
# The terminal observer

`createSseTerminalObserver` reads the bytes that go to a client, and says whether the stream came to
its end. It reads records, one character after the other, and discards a record that is too long;
the discarded text ends at a line on which nothing but carriage returns was seen since the record
became too long.

* `StreamRecord`, `groupLines`: the records of a whole text, split at its blank lines.
* `leak`: the lines of a record that is too long which the observer reads as another record.
* `outcome_eq_iff`: the verdict is that of the records unless a leak fails.
-/

namespace TokenProxy.Streaming.Terminal

open Lib (trim)
open Translator (Json Text)

/-! ### The code -/

inductive Format where
  | openai
  | claude
  | openaiResponses
  deriving DecidableEq

def maxRecordBytes : ℕ := 64 * 1024
def maxDataLines : ℕ := 128

def utf8ByteLength (character : Char) : ℕ :=
  if character.toNat ≤ 0x7f then 1 else if character.toNat ≤ 0x7ff then 2 else if character.toNat ≤ 0xffff then 3 else 4

def dataValue (line : Text) : Text :=
  let value := line.drop 5
  if value.head? = some ' ' then value.drop 1 else value

def terminalTypes : List String := ["response.completed", "response.done", "response.failed", "response.incomplete"]

/-- What `recordHasTerminal` returns, and the flags that it raises. -/
structure Judgement where
  terminal : Bool := false
  failed : Bool := false
  malformed : Bool := false
  deriving DecidableEq

def joinLines (dataLines : List Text) : Text := (dataLines.intersperse ['\n']).flatten

def isDone (dataLines : List Text) : Bool := dataLines.length = 1 && dataLines.all fun line => trim line = "[DONE]".toList

def reportsFailure (payload : Option Json) : Bool :=
  truthy (prop payload "error") || isString (prop payload "type") "error" ||
    ["response.failed", "response.incomplete"].any (isString (prop payload "type")) ||
    ["failed", "incomplete", "cancelled"].any (isString (prop (prop payload "response") "status"))

def hasFinishedChoice : Option Json → Bool
  | some (.array choices) => choices.any fun choice => (nullish (prop (some choice) "finish_reason") none).isSome
  | _ => false

def endsStream (format : Format) (eventName : Option Text) (dataLines : List Text)
    (payload : Option Json) : Bool :=
  match format with
  | .openai => isDone dataLines || hasFinishedChoice (prop payload "choices")
  | .claude =>
    match eventName with
    | none => isString (prop payload "type") "message_stop"
    | some name => name = "message_stop".toList && isString (prop payload "type") "message_stop"
  | .openaiResponses =>
    terminalTypes.any fun kind => isString (prop payload "type") kind && (eventName = none || eventName = some kind.toList)

def recordHasTerminal (js : Builtins) (format : Format) (eventName : Option Text)
    (dataLines : List Text) : Judgement :=
  let payload := js.parse (joinLines dataLines)
  let malformed := payload.isNone && dataLines ≠ [] && !(format ≠ .claude && isDone dataLines)
  if reportsFailure payload then { terminal := true, failed := true, malformed }
  else { terminal := endsStream format eventName dataLines payload, malformed }

/-- What `resetRecord` resets. -/
structure Record where
  recordBytes : ℕ := 0
  dataLineCount : ℕ := 0
  eventName : Option Text := none
  dataLines : List Text := []
  currentLine : Text := []
  deriving DecidableEq

structure Flags where
  terminal : Bool := false
  failed : Bool := false
  overflow : Bool := false
  malformed : Bool := false
  deriving DecidableEq

structure Observer where
  flags : Flags := {}
  discarding : Bool := false
  discardLineHasContent : Bool := false
  record : Record := {}
  deriving DecidableEq

def Flags.judged (flags : Flags) (judgement : Judgement) : Flags :=
  { flags with
    terminal := flags.terminal || judgement.terminal
    failed := flags.failed || judgement.failed
    malformed := flags.malformed || judgement.malformed }

def Flags.overflowed (flags : Flags) : Flags := { flags with overflow := true }

def resetRecord (s : Observer) : Observer := { s with record := {} }

def beginDiscard (s : Observer) : Observer :=
  { flags := s.flags.overflowed, discarding := true, discardLineHasContent := false, record := {} }

def withoutReturn (line : Text) : Text := if line.getLast? = some '\r' then line.dropLast else line

def startsWith (line : Text) (field : String) : Bool := field.toList.isPrefixOf line

def finishLine (js : Builtins) (format : Format) (s : Observer) : Observer :=
  let line := withoutReturn s.record.currentLine
  let s := { s with record := { s.record with currentLine := [] } }
  if line = [] then resetRecord { s with flags := s.flags.judged (recordHasTerminal js format s.record.eventName s.record.dataLines) }
  else if startsWith line "event:" then { s with record := { s.record with eventName := some (trim (line.drop 6)) } }
  else if startsWith line "data:" then
    let s := { s with record := { s.record with dataLineCount := s.record.dataLineCount + 1 } }
    if maxDataLines < s.record.dataLineCount then beginDiscard s
    else { s with record := { s.record with dataLines := s.record.dataLines ++ [dataValue line] } }
  else s

def observeCharacter (js : Builtins) (format : Format) (s : Observer)
    (character : Char) : Observer :=
  if s.discarding then
    if character = '\n' then
      if s.discardLineHasContent then { s with discardLineHasContent := false }
      else resetRecord { s with discarding := false, discardLineHasContent := false }
    else if character ≠ '\r' then { s with discardLineHasContent := true }
    else s
  else
    let s := { s with record := { s.record with recordBytes := s.record.recordBytes + utf8ByteLength character } }
    let isBlankBoundary := character = '\n' && withoutReturn s.record.currentLine = []
    if maxRecordBytes < s.record.recordBytes then
      if isBlankBoundary then resetRecord { s with flags := s.flags.overflowed } else beginDiscard s
    else if character = '\n' then finishLine js format s
    else { s with record := { s.record with currentLine := s.record.currentLine ++ [character] } }

structure ByteObserver where
  decoder : TextDecoder := {}
  observer : Observer := {}

def observeSlice (js : Builtins) (format : Format) (o : ByteObserver)
    (bytes : Chunk) : ByteObserver :=
  { decoder := (o.decoder.decode bytes).1, observer := (o.decoder.decode bytes).2.foldl (observeCharacter js format) o.observer }

/-- `observe(bytes)`: slices of 4096 bytes. -/
def observe (js : Builtins) (format : Format) (o : ByteObserver) (input : Chunk) : ByteObserver :=
  if input = [] then o else observe js format (observeSlice js format o (input.take 4096)) (input.drop 4096)
termination_by input.length
decreasing_by
  rename_i hne
  have := List.length_pos_of_ne_nil hne
  rw [List.length_drop]
  omega

inductive Outcome where
  | upstreamErrorEvent
  | terminalEvidenceOverflow
  | terminalEvidenceMalformed
  | streamComplete
  | missingTerminal
  deriving DecidableEq

def Flags.outcome (flags : Flags) : Outcome :=
  if flags.failed then .upstreamErrorEvent
  else if flags.overflow then .terminalEvidenceOverflow
  else if flags.malformed then .terminalEvidenceMalformed
  else if flags.terminal then .streamComplete
  else .missingTerminal

def outcomeOf (js : Builtins) (format : Format) (chunks : List Chunk) : Outcome :=
  (chunks.foldl (observe js format) {}).observer.flags.outcome

/-! ### Chunks -/

section

variable (js : Builtins) (format : Format)

theorem observeSlice_append (o : ByteObserver) (xs ys : Chunk) :
    observeSlice js format (observeSlice js format o xs) ys = observeSlice js format o (xs ++ ys) := by
  unfold observeSlice
  simp only [TextDecoder.decode_append, List.foldl_append]

theorem observeSlice_nil (o : ByteObserver) : observeSlice js format o [] = o := by
  have hdecode : o.decoder.decode [] = (o.decoder, []) := by
    simp [TextDecoder.decode, TextDecoder.unmarked, Lib.Utf8Decoder.decode]
  simp [observeSlice, hdecode]

theorem observe_eq (o : ByteObserver) (input : Chunk) :
    observe js format o input = observeSlice js format o input := by
  induction hlength : input.length using Nat.strongRecOn generalizing o input with
  | ind length ih =>
    rw [observe]
    split
    · rename_i hnil
      rw [hnil, observeSlice_nil]
    · rename_i hne
      have hpos := List.length_pos_of_ne_nil hne
      rw [ih _ (by rw [List.length_drop]; omega) _ _ rfl, observeSlice_append, List.take_append_drop]

theorem foldl_observe (o : ByteObserver) (chunks : List Chunk) :
    chunks.foldl (observe js format) o = observeSlice js format o chunks.flatten := by
  induction chunks generalizing o with
  | nil => rw [List.foldl_nil, List.flatten_nil, observeSlice_nil]
  | cons chunk chunks ih => rw [List.foldl_cons, ih, observe_eq, observeSlice_append, List.flatten_cons]

end

/-! ### The records of a text -/

abbrev Line := Text

/-- A line on which a record ends: nothing, or a carriage return. -/
def isBlankLine (line : Line) : Bool := withoutReturn line = []

structure StreamRecord where
  lines : List Line
  blank : Line
  deriving DecidableEq

/-- The records of lines, and the lines behind the last one; `before` has been read already. -/
def groupLines (before : List Line) : List Line → List StreamRecord × List Line
  | [] => ([], before)
  | line :: lines =>
    if isBlankLine line then (⟨before, line⟩ :: (groupLines [] lines).1, (groupLines [] lines).2)
    else groupLines (before ++ [line]) lines

def lineBytes (line : Line) : ℕ := (line.map utf8ByteLength).sum

def isDataLine (line : Line) : Bool := !isBlankLine line && !startsWith (withoutReturn line) "event:" && startsWith (withoutReturn line) "data:"

def bytesOfLines (lines : List Line) : ℕ := (lines.map fun line => lineBytes line + 1).sum

/-- So many bytes, or so many data lines, are too much for a record. -/
def TooLong (lines : List Line) (last : ℕ) : Prop := maxRecordBytes < bytesOfLines lines + last ∨ maxDataLines < lines.countP isDataLine

instance (lines : List Line) (last : ℕ) : Decidable (TooLong lines last) := inferInstanceAs (Decidable (_ ∨ _))

def StreamRecord.tooLong (r : StreamRecord) : Bool := TooLong r.lines (lineBytes r.blank + 1)

def eventNameOf (lines : List Line) : Option Text :=
  ((lines.map withoutReturn).filter fun line => startsWith line "event:").getLast?.map fun line => trim (line.drop 6)

def dataLinesOf (lines : List Line) : List Text := (lines.filter isDataLine).map fun line => dataValue (withoutReturn line)

def judgeLines (js : Builtins) (format : Format) (lines : List Line) : Judgement :=
  recordHasTerminal js format (eventNameOf lines) (dataLinesOf lines)

def specFlags (js : Builtins) (format : Format) (text : Text) : Flags :=
  let lines := (text.splitOn '\n').dropLast
  let rest := (text.splitOn '\n').getLastD []
  let records := (groupLines [] lines).1
  let judgements := (records.filter fun r => !r.tooLong).map fun r => judgeLines js format r.lines
  { terminal := judgements.any (·.terminal)
    failed := judgements.any (·.failed)
    malformed := judgements.any (·.malformed)
    overflow := records.any (·.tooLong) || decide (TooLong (groupLines [] lines).2 (lineBytes rest)) }

/-! ### Leaks -/

def behind (room : ℕ) : Line → Line
  | [] => []
  | c :: line => if room < utf8ByteLength c then line else behind (room - utf8ByteLength c) line

def onlyReturns (line : Line) : Bool := line.all (· = '\r')

/-- The lines behind the first one on which there are only carriage returns. -/
def skipToReturns : List Line → Option (List Line)
  | [] => none
  | line :: lines => if onlyReturns line then some lines else skipToReturns lines

/-- The lines of a record that are read as another one, after so many bytes and data lines of it. -/
def leakFrom (bytes count : ℕ) : List Line → Option (List Line)
  | [] => none
  | line :: lines =>
    if maxRecordBytes < bytes + lineBytes line then
      if onlyReturns (behind (maxRecordBytes - bytes) line) then some lines else skipToReturns lines
    else if maxRecordBytes < bytes + lineBytes line + 1 then skipToReturns lines
    else if isDataLine line && count = maxDataLines then skipToReturns lines
    else leakFrom (bytes + (lineBytes line + 1)) (count + (isDataLine line).toNat) lines

theorem skipToReturns_suffix {lines rest : List Line}
    (h : skipToReturns lines = some rest) : ∃ line, line :: rest <:+ lines := by
  induction lines with
  | nil => exact absurd h (by simp [skipToReturns])
  | cons line lines ih =>
    rw [skipToReturns] at h
    split at h
    · obtain rfl := Option.some.inj h
      exact ⟨line, List.suffix_refl _⟩
    · obtain ⟨last, hlast⟩ := ih h
      exact ⟨last, hlast.trans (List.suffix_cons line lines)⟩

theorem leakFrom_suffix {bytes count : ℕ} {lines rest : List Line}
    (h : leakFrom bytes count lines = some rest) :
    ∃ line, line :: rest <:+ lines := by
  induction lines generalizing bytes count with
  | nil => exact absurd h (by simp [leakFrom])
  | cons line lines ih =>
    have hskip : skipToReturns lines = some rest → ∃ last, last :: rest <:+ line :: lines := by
      intro hrest
      obtain ⟨last, hlast⟩ := skipToReturns_suffix hrest
      exact ⟨last, hlast.trans (List.suffix_cons line lines)⟩
    rw [leakFrom] at h
    split_ifs at h
    · obtain rfl := Option.some.inj h
      exact ⟨line, List.suffix_refl _⟩
    · exact hskip h
    · exact hskip h
    · exact hskip h
    · obtain ⟨last, hlast⟩ := ih h
      exact ⟨last, hlast.trans (List.suffix_cons line lines)⟩

/-- The lines that are judged in the end; a leak is shorter than the record. -/
def leakedFor (blank : Line) : ℕ → List Line → Option (List Line)
  | 0, _ => none
  | fuel + 1, lines => if TooLong lines (lineBytes blank + 1) then (leakFrom 0 0 lines).bind (leakedFor blank fuel) else some lines

def StreamRecord.judgedLines (r : StreamRecord) : Option (List Line) := leakedFor r.blank (r.lines.length + 1) r.lines

/-- The leaks of a text: of each record that is too long the lines that are judged all the same. -/
def leaks (text : Text) : List (List Line) :=
  ((groupLines [] (text.splitOn '\n').dropLast).1.filter (·.tooLong)).filterMap (·.judgedLines)

/-! ### One line -/

section

variable {js : Builtins} {format : Format} {flags : Flags} {record : Record} {line : Line}

/-- A text, from the states that the observer has between two lines. -/
def feed (js : Builtins) (format : Format) (s : Observer)
    (text : Text) : Observer := text.foldl (observeCharacter js format) s

def reading (flags : Flags) (record : Record) : Observer := { flags, record }

def discarding (flags : Flags) (discardLineHasContent : Bool) : Observer := { flags, discarding := true, discardLineHasContent }

theorem feed_append (s : Observer) (xs ys : Text) : feed js format s (xs ++ ys) = feed js format (feed js format s xs) ys := List.foldl_append

theorem feed_cons (s : Observer) (c : Char) (text : Text) :
    feed js format s (c :: text) = feed js format (observeCharacter js format s c) text := rfl

theorem lineBytes_cons (c : Char) (line : Line) :
    lineBytes (c :: line) = utf8ByteLength c + lineBytes line := by
  rw [lineBytes, List.map_cons, List.sum_cons, lineBytes]

theorem feed_reading (hline : '\n' ∉ line) (hroom : record.recordBytes + lineBytes line ≤ maxRecordBytes) :
    feed js format (reading flags record) line =
      reading flags { record with recordBytes := record.recordBytes + lineBytes line, currentLine := record.currentLine ++ line } := by
  induction line generalizing record with
  | nil => simp [feed, lineBytes]
  | cons c line ih =>
    rw [List.mem_cons, not_or] at hline
    rw [lineBytes_cons] at hroom
    have hstep : observeCharacter js format (reading flags record) c =
        reading flags { record with recordBytes := record.recordBytes + utf8ByteLength c, currentLine := record.currentLine ++ [c] } := by
      unfold observeCharacter reading
      simp only [Bool.false_eq_true, if_false]
      rw [if_neg (by omega), if_neg (Ne.symm hline.1)]
    rw [feed_cons, hstep, ih hline.2 (by simp only; omega), lineBytes_cons]
    simp only [List.append_assoc, List.singleton_append, Nat.add_assoc]

theorem feed_trip (hline : '\n' ∉ line) (hbytes : record.recordBytes ≤ maxRecordBytes)
    (hlong : maxRecordBytes < record.recordBytes + lineBytes line) :
    feed js format (reading flags record) line =
      feed js format (discarding flags.overflowed false) (behind (maxRecordBytes - record.recordBytes) line) := by
  induction line generalizing record with
  | nil => simp [lineBytes] at hlong; omega
  | cons c line ih =>
    rw [List.mem_cons, not_or] at hline
    rw [lineBytes_cons] at hlong
    rw [feed_cons, behind]
    by_cases hover : maxRecordBytes < record.recordBytes + utf8ByteLength c
    · have hstep : observeCharacter js format (reading flags record) c = discarding flags.overflowed false := by
        unfold observeCharacter reading
        simp only [Bool.false_eq_true, if_false]
        rw [if_pos (by simpa using hover)]
        simp [Ne.symm hline.1, beginDiscard, discarding]
      rw [hstep, if_pos (by omega)]
    · have hstep : observeCharacter js format (reading flags record) c =
          reading flags { record with recordBytes := record.recordBytes + utf8ByteLength c, currentLine := record.currentLine ++ [c] } := by
        unfold observeCharacter reading
        simp only [Bool.false_eq_true, if_false]
        rw [if_neg (by simpa using hover), if_neg (Ne.symm hline.1)]
      rw [hstep, if_neg (by omega), ih hline.2 (by simp only; omega) (by simp only; omega), Nat.sub_sub]

theorem feed_discarding (hline : '\n' ∉ line) (content : Bool) :
    feed js format (discarding flags content) line = discarding flags (content || !onlyReturns line) := by
  induction line generalizing content with
  | nil => simp [feed, onlyReturns]
  | cons c line ih =>
    rw [List.mem_cons, not_or] at hline
    have hstep : observeCharacter js format (discarding flags content) c = discarding flags (content || c ≠ '\r') := by
      unfold observeCharacter discarding
      by_cases hreturn : c = '\r'
      · simp [hreturn]
      · simp [hreturn, Ne.symm hline.1]
    rw [feed_cons, hstep, ih hline.2]
    simp [onlyReturns, Bool.or_assoc]

theorem newline_discarding (content : Bool) :
    observeCharacter js format (discarding flags content) '\n' = if content then discarding flags false else reading flags {} := by
  cases content with
  | false => simp [observeCharacter, discarding, resetRecord, reading]
  | true => simp [observeCharacter, discarding]

end

/-! ### The lines of a record -/

def recordOf (lines : List Line) : Record where
  recordBytes := bytesOfLines lines
  dataLineCount := lines.countP isDataLine
  eventName := eventNameOf lines
  dataLines := dataLinesOf lines
  currentLine := []

structure Fits (lines : List Line) : Prop where
  bytes : bytesOfLines lines ≤ maxRecordBytes
  count : lines.countP isDataLine ≤ maxDataLines

section

variable {js : Builtins} {format : Format} {flags : Flags} {before lines : List Line} {line : Line}

theorem bytesOfLines_append (xs ys : List Line) :
    bytesOfLines (xs ++ ys) = bytesOfLines xs + bytesOfLines ys := by
  simp [bytesOfLines]

theorem bytesOfLines_cons (line : Line) (lines : List Line) :
    bytesOfLines (line :: lines) = lineBytes line + 1 + bytesOfLines lines := by
  simp [bytesOfLines]

theorem withoutReturn_ne_nil (h : isBlankLine line = false) : withoutReturn line ≠ [] := of_decide_eq_false h

theorem recordOf_snoc (before : List Line) (line : Line) :
    recordOf (before ++ [line]) =
      { recordBytes := bytesOfLines before + (lineBytes line + 1)
        dataLineCount := before.countP isDataLine + (isDataLine line).toNat
        eventName := if startsWith (withoutReturn line) "event:" then some (trim ((withoutReturn line).drop 6)) else eventNameOf before
        dataLines := if isDataLine line then dataLinesOf before ++ [dataValue (withoutReturn line)] else dataLinesOf before
        currentLine := [] } := by
  have hbytes : bytesOfLines (before ++ [line]) = bytesOfLines before + (lineBytes line + 1) := by simp [bytesOfLines]
  have hcount : (before ++ [line]).countP isDataLine = before.countP isDataLine + (isDataLine line).toNat := by
    rw [List.countP_append, List.countP_singleton]
    cases isDataLine line <;> rfl
  have hname : eventNameOf (before ++ [line]) =
      if startsWith (withoutReturn line) "event:" then some (trim ((withoutReturn line).drop 6)) else eventNameOf before := by
    unfold eventNameOf
    rw [List.map_append, List.filter_append, List.map_singleton, List.filter_singleton]
    by_cases hevent : startsWith (withoutReturn line) "event:" = true
    · simp [hevent]
    · simp [hevent]
  have hdata : dataLinesOf (before ++ [line]) =
      if isDataLine line then dataLinesOf before ++ [dataValue (withoutReturn line)] else dataLinesOf before := by
    unfold dataLinesOf
    rw [List.filter_append, List.filter_singleton]
    by_cases hline : isDataLine line = true
    · simp [hline]
    · simp [hline]
  rw [recordOf, hbytes, hcount, hname, hdata]

theorem behind_suffix (room : ℕ) (line : Line) : behind room line <:+ line := by
  induction line generalizing room with
  | nil => exact List.suffix_refl []
  | cons c line ih =>
    rw [behind]
    split
    · exact List.suffix_cons c line
    · exact (ih _).trans (List.suffix_cons c line)

theorem feed_line_over (hline : '\n' ∉ line) (hbytes : bytesOfLines before ≤ maxRecordBytes)
    (hover : maxRecordBytes < bytesOfLines before + lineBytes line) :
    feed js format (reading flags (recordOf before)) (line ++ ['\n']) =
      if onlyReturns (behind (maxRecordBytes - bytesOfLines before) line) then reading flags.overflowed {} else discarding flags.overflowed false := by
  have hbehind : '\n' ∉ behind (maxRecordBytes - bytesOfLines before) line := fun hmem => hline ((behind_suffix _ line).subset hmem)
  rw [feed_append, feed_trip hline hbytes hover]
  change feed js format (feed js format _ (behind (maxRecordBytes - bytesOfLines before) line)) ['\n'] = _
  rw [feed_discarding hbehind, feed_cons, newline_discarding]
  cases onlyReturns (behind (maxRecordBytes - bytesOfLines before) line) <;> rfl

theorem feed_line_end (hline : '\n' ∉ line) (hroom : bytesOfLines before + lineBytes line ≤ maxRecordBytes)
    (hover : maxRecordBytes < bytesOfLines before + lineBytes line + 1) :
    feed js format (reading flags (recordOf before)) (line ++ ['\n']) =
      if isBlankLine line then reading flags.overflowed {} else discarding flags.overflowed false := by
  rw [feed_append, feed_reading hline hroom, feed_cons, feed, List.foldl_nil]
  have hnewline : utf8ByteLength '\n' = 1 := rfl
  unfold observeCharacter reading
  simp only [Bool.false_eq_true, if_false, recordOf, List.nil_append, hnewline, if_pos hover,
    decide_true, Bool.true_and]
  by_cases hblank : withoutReturn line = []
  · simp [hblank, isBlankLine, resetRecord, Flags.overflowed]
  · simp [hblank, isBlankLine, beginDiscard, discarding]

theorem feed_line_blank (hline : '\n' ∉ line)
    (hroom : bytesOfLines before + (lineBytes line + 1) ≤ maxRecordBytes)
    (hblank : isBlankLine line = true) :
    feed js format (reading flags (recordOf before)) (line ++ ['\n']) = reading (flags.judged (judgeLines js format before)) {} := by
  have hnil : withoutReturn line = [] := of_decide_eq_true hblank
  have hnewline : utf8ByteLength '\n' = 1 := rfl
  have hover : ¬ maxRecordBytes < bytesOfLines before + lineBytes line + 1 := by omega
  rw [feed_append, feed_reading hline (by simp only [recordOf]; omega), feed_cons, feed, List.foldl_nil]
  unfold observeCharacter reading
  simp only [Bool.false_eq_true, if_false, recordOf, List.nil_append, hnewline, if_neg hover,
    if_true, finishLine, hnil, resetRecord, judgeLines]

theorem feed_line_field (hline : '\n' ∉ line)
    (hroom : bytesOfLines before + (lineBytes line + 1) ≤ maxRecordBytes)
    (hblank : isBlankLine line = false) :
    feed js format (reading flags (recordOf before)) (line ++ ['\n']) =
      if isDataLine line && maxDataLines < before.countP isDataLine + 1 then discarding flags.overflowed false
      else reading flags (recordOf (before ++ [line])) := by
  have hne := withoutReturn_ne_nil hblank
  have hnewline : utf8ByteLength '\n' = 1 := rfl
  have hover : ¬ maxRecordBytes < bytesOfLines before + lineBytes line + 1 := by omega
  rw [feed_append, feed_reading hline (by simp only [recordOf]; omega), feed_cons, feed, List.foldl_nil, recordOf_snoc]
  unfold observeCharacter reading
  simp only [Bool.false_eq_true, if_false, recordOf, List.nil_append, hnewline, if_neg hover,
    if_true, finishLine, if_neg hne]
  by_cases hevent : startsWith (withoutReturn line) "event:" = true
  · have hdata : isDataLine line = false := by simp [isDataLine, hevent]
    simp [hevent, hdata, Nat.add_assoc]
  · by_cases hstart : startsWith (withoutReturn line) "data:" = true
    · have hdata : isDataLine line = true := by simp [isDataLine, hblank, hevent, hstart]
      by_cases hmany : maxDataLines < before.countP isDataLine + 1
      · simp [hevent, hstart, hdata, hmany, beginDiscard, discarding]
      · simp [hevent, hstart, hdata, hmany, Nat.add_assoc]
    · have hdata : isDataLine line = false := by simp [isDataLine, hstart]
      simp [hevent, hstart, hdata, Nat.add_assoc]

/-! ### A record -/

def textOf (lines : List Line) : Text := lines.flatMap fun line => line ++ ['\n']

def recordText (lines : List Line) (blank : Line) : Text := textOf lines ++ (blank ++ ['\n'])

def Inside (lines : List Line) : Prop := ∀ line ∈ lines, '\n' ∉ line ∧ isBlankLine line = false

theorem textOf_cons (line : Line) (lines : List Line) : textOf (line :: lines) = line ++ ['\n'] ++ textOf lines := List.flatMap_cons

theorem recordText_cons (line : Line) (lines : List Line) (blank : Line) :
    recordText (line :: lines) blank = line ++ ['\n'] ++ recordText lines blank := by
  rw [recordText, textOf_cons, List.append_assoc, recordText]

theorem Inside.tail (h : Inside (line :: lines)) : Inside lines := fun other hother => h other (List.mem_cons_of_mem line hother)

theorem onlyReturns_of_blank (h : isBlankLine line = true) : onlyReturns line = true := by
  have hnil : withoutReturn line = [] := of_decide_eq_true h
  unfold withoutReturn at hnil
  split at hnil
  · rename_i hlast
    obtain ⟨front, rfl⟩ := List.getLast?_eq_some_iff.mp hlast
    rw [List.dropLast_concat] at hnil
    subst hnil
    rfl
  · rw [hnil]
    rfl

theorem feed_line_discarding (hline : '\n' ∉ line) :
    feed js format (discarding flags false) (line ++ ['\n']) = if onlyReturns line then reading flags {} else discarding flags false := by
  rw [feed_append, feed_discarding hline, feed_cons, newline_discarding]
  cases onlyReturns line <;> rfl

/-- What is discarded ends at a line of carriage returns, at the latest at the end of the record. -/
theorem feed_skip (hlines : Inside lines) {blank : Line} (hmem : '\n' ∉ blank)
    (hblank : isBlankLine blank = true) :
    feed js format (discarding flags false) (recordText lines blank) =
      (skipToReturns lines).elim (reading flags {}) fun rest => feed js format (reading flags {}) (recordText rest blank) := by
  induction lines with
  | nil =>
    change feed js format (discarding flags false) (blank ++ ['\n']) = _
    rw [feed_line_discarding hmem, onlyReturns_of_blank hblank, if_pos rfl]
    rfl
  | cons line lines ih =>
    rw [recordText_cons, feed_append, feed_line_discarding (hlines line List.mem_cons_self).1, skipToReturns]
    by_cases hreturns : onlyReturns line = true
    · rw [if_pos hreturns, if_pos hreturns]
      rfl
    · rw [if_neg hreturns, if_neg hreturns]
      exact ih hlines.tail

theorem tooLong_of_bytes {last : ℕ} (h : maxRecordBytes < bytesOfLines before + lineBytes line) :
    TooLong (before ++ line :: lines) last := by
  left
  rw [bytesOfLines_append, bytesOfLines_cons]
  omega

theorem fits_snoc (hbefore : Fits before) (hroom : bytesOfLines before + (lineBytes line + 1) ≤ maxRecordBytes)
    (hfew : ¬ (isDataLine line && maxDataLines < before.countP isDataLine + 1) = true) :
    Fits (before ++ [line]) := by
  have hcount : (before ++ [line]).countP isDataLine = before.countP isDataLine + (isDataLine line).toNat :=
    congrArg Record.dataLineCount (recordOf_snoc before line)
  have hbytes : bytesOfLines (before ++ [line]) = bytesOfLines before + (lineBytes line + 1) :=
    congrArg Record.recordBytes (recordOf_snoc before line)
  refine ⟨by omega, ?_⟩
  have hbound := hbefore.count
  rw [hcount]
  rw [Bool.and_eq_true, decide_eq_true_eq, not_and] at hfew
  cases hdata : isDataLine line with
  | false => simpa using hbound
  | true =>
    have hless := hfew hdata
    simp only [Bool.toNat_true]
    omega

theorem feed_record (hbefore : Fits before) (hlines : Inside lines) {blank : Line}
    (hmem : '\n' ∉ blank) (hblank : isBlankLine blank = true) :
    feed js format (reading flags (recordOf before)) (recordText lines blank) =
      if TooLong (before ++ lines) (lineBytes blank + 1) then
        (leakFrom (bytesOfLines before) (before.countP isDataLine) lines).elim (reading flags.overflowed {}) fun rest =>
          feed js format (reading flags.overflowed {}) (recordText rest blank)
      else reading (flags.judged (judgeLines js format (before ++ lines))) {} := by
  induction lines generalizing before with
  | nil =>
    change feed js format (reading flags (recordOf before)) (blank ++ ['\n']) = _
    have htooLong : TooLong (before ++ []) (lineBytes blank + 1) ↔ maxRecordBytes < bytesOfLines before + (lineBytes blank + 1) := by
      rw [TooLong, List.append_nil]
      exact or_iff_left (Nat.not_lt.mpr hbefore.count)
    by_cases hover : maxRecordBytes < bytesOfLines before + lineBytes blank
    · have hreturns : onlyReturns (behind (maxRecordBytes - bytesOfLines before) blank) = true := by
        have hall := onlyReturns_of_blank hblank
        rw [onlyReturns, List.all_eq_true] at hall ⊢
        exact fun c hc => hall c ((behind_suffix _ blank).subset hc)
      rw [feed_line_over hmem hbefore.bytes hover, if_pos hreturns, if_pos (htooLong.mpr (by omega))]
      rfl
    · by_cases hend : maxRecordBytes < bytesOfLines before + lineBytes blank + 1
      · rw [feed_line_end hmem (by omega) hend, if_pos hblank, if_pos (htooLong.mpr (by omega))]
        rfl
      · rw [feed_line_blank hmem (by omega) hblank, if_neg (by rw [htooLong]; omega), List.append_nil]
  | cons line lines ih =>
    obtain ⟨hline, hfull⟩ := hlines line List.mem_cons_self
    have hsplit : before ++ line :: lines = before ++ [line] ++ lines := by rw [List.append_assoc, List.singleton_append]
    rw [recordText_cons, feed_append, leakFrom]
    by_cases hover : maxRecordBytes < bytesOfLines before + lineBytes line
    · rw [feed_line_over hline hbefore.bytes hover, if_pos (tooLong_of_bytes hover), if_pos hover]
      by_cases hreturns : onlyReturns (behind (maxRecordBytes - bytesOfLines before) line) = true
      · rw [if_pos hreturns, if_pos hreturns]
        rfl
      · rw [if_neg hreturns, if_neg hreturns]
        exact feed_skip hlines.tail hmem hblank
    · rw [if_neg hover]
      by_cases hend : maxRecordBytes < bytesOfLines before + lineBytes line + 1
      · have htooLong : TooLong (before ++ line :: lines) (lineBytes blank + 1) := by
          left
          rw [bytesOfLines_append, bytesOfLines_cons]
          omega
        rw [feed_line_end hline (by omega) hend, if_neg (by simp [hfull]), if_pos htooLong, if_pos hend]
        exact feed_skip hlines.tail hmem hblank
      · rw [if_neg hend, feed_line_field hline (by omega) hfull]
        have hcount := hbefore.count
        by_cases hmany : (isDataLine line && maxDataLines < before.countP isDataLine + 1) = true
        · rw [Bool.and_eq_true, decide_eq_true_eq] at hmany
          have htooLong : TooLong (before ++ line :: lines) (lineBytes blank + 1) := by
            right
            rw [List.countP_append, List.countP_cons_of_pos hmany.1]
            omega
          have hfull : (isDataLine line && before.countP isDataLine = maxDataLines) = true := by
            rw [Bool.and_eq_true, decide_eq_true_eq]
            exact ⟨hmany.1, by omega⟩
          rw [if_pos (by rw [Bool.and_eq_true, decide_eq_true_eq]; exact hmany), if_pos htooLong, if_pos hfull]
          exact feed_skip hlines.tail hmem hblank
        · have hnotFull : ¬ (isDataLine line && before.countP isDataLine = maxDataLines) = true := by
            intro hfull
            rw [Bool.and_eq_true, decide_eq_true_eq] at hfull
            rw [Bool.and_eq_true, decide_eq_true_eq] at hmany
            exact hmany ⟨hfull.1, by omega⟩
          have hcountNext : (before ++ [line]).countP isDataLine = before.countP isDataLine + (isDataLine line).toNat :=
            congrArg Record.dataLineCount (recordOf_snoc before line)
          have hbytesNext : bytesOfLines (before ++ [line]) = bytesOfLines before + (lineBytes line + 1) :=
            congrArg Record.recordBytes (recordOf_snoc before line)
          have hnext : Fits (before ++ [line]) := fits_snoc hbefore (by omega) hmany
          rw [if_neg hmany, if_neg hnotFull, ih hnext hlines.tail, hbytesNext, hcountNext, hsplit]

theorem feed_whole (fuel : ℕ) (hlines : Inside lines) {blank : Line} (hmem : '\n' ∉ blank)
    (hblank : isBlankLine blank = true) (hfuel : lines.length < fuel) :
    feed js format (reading flags {}) (recordText lines blank) =
      reading ((leakedFor blank fuel lines).elim (if TooLong lines (lineBytes blank + 1) then flags.overflowed else flags) fun judged =>
        (if TooLong lines (lineBytes blank + 1) then flags.overflowed else flags).judged (judgeLines js format judged)) {} := by
  induction fuel generalizing lines flags with
  | zero => omega
  | succ fuel ih =>
    have hempty : Fits [] := ⟨Nat.zero_le _, Nat.zero_le _⟩
    have hrecord := @feed_record js format flags [] lines hempty hlines blank hmem hblank
    rw [List.nil_append] at hrecord
    change feed js format (reading flags (recordOf [])) (recordText lines blank) = _
    rw [hrecord, leakedFor]
    by_cases htooLong : TooLong lines (lineBytes blank + 1)
    · rw [if_pos htooLong, if_pos htooLong, if_pos htooLong]
      change (leakFrom 0 0 lines).elim _ _ = _
      cases hleak : leakFrom 0 0 lines with
      | none => rfl
      | some rest =>
        obtain ⟨last, hsuffix⟩ := leakFrom_suffix hleak
        have hshorter := hsuffix.length_le
        rw [List.length_cons] at hshorter
        have hinside : Inside rest := fun line hline => hlines line (hsuffix.subset (List.mem_cons_of_mem last hline))
        have htwice : (if TooLong rest (lineBytes blank + 1) then flags.overflowed.overflowed else flags.overflowed) = flags.overflowed := by
          split <;> rfl
        rw [Option.elim_some, Option.bind_some, ih hinside (by omega), htwice]
    · rw [if_neg htooLong, if_neg htooLong, if_neg htooLong]
      rfl

/-! ### A whole text -/

theorem overflowed_of_overflow (h : flags.overflow = true) : flags.overflowed = flags := by
  cases flags
  simp only at h
  rw [h]
  rfl

theorem feed_rest_reading (hbefore : Fits before) {rest : Line} (hrest : '\n' ∉ rest) :
    (feed js format (reading flags (recordOf before)) rest).flags =
      if maxRecordBytes < bytesOfLines before + lineBytes rest then flags.overflowed else flags := by
  by_cases hover : maxRecordBytes < bytesOfLines before + lineBytes rest
  · have hbehind : '\n' ∉ behind (maxRecordBytes - bytesOfLines before) rest := fun hmem => hrest ((behind_suffix _ rest).subset hmem)
    rw [feed_trip hrest hbefore.bytes hover, if_pos hover]
    change (feed js format _ (behind (maxRecordBytes - bytesOfLines before) rest)).flags = _
    rw [feed_discarding hbehind]
    rfl
  · rw [feed_reading hrest (Nat.not_lt.mp hover), if_neg hover]
    rfl

theorem feed_unfinished (hlines : Inside lines) {rest : Line} (hrest : '\n' ∉ rest) :
    (∀ flags before, Fits before → (feed js format (reading flags (recordOf before)) (textOf lines ++ rest)).flags =
      if TooLong (before ++ lines) (lineBytes rest) then flags.overflowed else flags) ∧
      ∀ flags : Flags, flags.overflow = true → (feed js format (discarding flags false) (textOf lines ++ rest)).flags = flags := by
  induction lines with
  | nil =>
    refine ⟨fun flags before hbefore => ?_, fun flags _ => ?_⟩
    · change (feed js format (reading flags (recordOf before)) rest).flags = _
      have htooLong : TooLong (before ++ []) (lineBytes rest) ↔ maxRecordBytes < bytesOfLines before + lineBytes rest := by
        rw [TooLong, List.append_nil]
        exact or_iff_left (Nat.not_lt.mpr hbefore.count)
      rw [feed_rest_reading hbefore hrest]
      simp only [htooLong]
    · change (feed js format (discarding flags false) rest).flags = flags
      rw [feed_discarding hrest]
      rfl
  | cons line lines ih =>
    obtain ⟨ihReading, ihDiscarding⟩ := ih hlines.tail
    obtain ⟨hline, hfull⟩ := hlines line List.mem_cons_self
    have hempty : Fits [] := ⟨Nat.zero_le _, Nat.zero_le _⟩
    -- behind a record that is too long nothing changes any more
    have hresumed : ∀ flags : Flags, flags.overflow = true → (feed js format (reading flags {}) (textOf lines ++ rest)).flags = flags := by
      intro flags hoverflow
      have hreading := ihReading flags [] hempty
      rw [overflowed_of_overflow hoverflow, ite_self] at hreading
      exact hreading
    refine ⟨fun flags before hbefore => ?_, fun flags hoverflow => ?_⟩
    · have hsplit : before ++ line :: lines = before ++ [line] ++ lines := by rw [List.append_assoc, List.singleton_append]
      rw [textOf_cons, List.append_assoc, feed_append]
      by_cases hover : maxRecordBytes < bytesOfLines before + lineBytes line
      · rw [feed_line_over hline hbefore.bytes hover, if_pos (tooLong_of_bytes hover)]
        split
        · exact hresumed _ rfl
        · exact ihDiscarding _ rfl
      · by_cases hend : maxRecordBytes < bytesOfLines before + lineBytes line + 1
        · have htooLong : TooLong (before ++ line :: lines) (lineBytes rest) := by
            left
            rw [bytesOfLines_append, bytesOfLines_cons]
            omega
          rw [feed_line_end hline (by omega) hend, if_neg (by simp [hfull]), if_pos htooLong]
          exact ihDiscarding _ rfl
        · rw [feed_line_field hline (by omega) hfull]
          have hcount := hbefore.count
          by_cases hmany : (isDataLine line && maxDataLines < before.countP isDataLine + 1) = true
          · have hmany' := hmany
            rw [Bool.and_eq_true, decide_eq_true_eq] at hmany'
            have htooLong : TooLong (before ++ line :: lines) (lineBytes rest) := by
              right
              rw [List.countP_append, List.countP_cons_of_pos hmany'.1]
              omega
            rw [if_pos hmany, if_pos htooLong]
            exact ihDiscarding _ rfl
          · have hnext : Fits (before ++ [line]) := fits_snoc hbefore (by omega) hmany
            rw [if_neg hmany, ihReading _ _ hnext, hsplit]
    · rw [textOf_cons, List.append_assoc, feed_append, feed_line_discarding hline]
      split
      · exact hresumed flags hoverflow
      · exact ihDiscarding flags hoverflow

/-- What the records of lines, and the lines behind them, add to the flags. -/
def observedFlags (js : Builtins) (format : Format) (flags : Flags)
    (groups : List StreamRecord × List Line) (rest : Line) : Flags :=
  let judgements := (groups.1.filterMap (·.judgedLines)).map (judgeLines js format)
  { terminal := flags.terminal || judgements.any (·.terminal)
    failed := flags.failed || judgements.any (·.failed)
    malformed := flags.malformed || judgements.any (·.malformed)
    overflow := flags.overflow || (groups.1.any (·.tooLong) || decide (TooLong groups.2 (lineBytes rest))) }

theorem observedFlags_cons (r : StreamRecord) (groups : List StreamRecord × List Line)
    (rest : Line) :
    observedFlags js format flags (r :: groups.1, groups.2) rest =
      observedFlags js format
        (r.judgedLines.elim (if r.tooLong then flags.overflowed else flags) fun judged =>
          (if r.tooLong then flags.overflowed else flags).judged (judgeLines js format judged)) groups rest := by
  unfold observedFlags
  cases hjudged : r.judgedLines <;> cases hlong : r.tooLong <;>
    simp [hjudged, hlong, Flags.judged, Flags.overflowed, Bool.or_assoc]

theorem feed_groups (hbefore : Inside before) (hlines : ∀ line ∈ lines, '\n' ∉ line) {rest : Line}
    (hrest : '\n' ∉ rest) :
    (feed js format (reading flags {}) (textOf (before ++ lines) ++ rest)).flags = observedFlags js format flags (groupLines before lines) rest := by
  induction lines generalizing before flags with
  | nil =>
    have hempty : Fits [] := ⟨Nat.zero_le _, Nat.zero_le _⟩
    have hunfinished := (@feed_unfinished js format before hbefore rest hrest).1 flags [] hempty
    rw [List.append_nil, groupLines]
    refine hunfinished.trans ?_
    rw [List.nil_append, observedFlags]
    by_cases htooLong : TooLong before (lineBytes rest)
    · simp [htooLong, Flags.overflowed]
    · simp [htooLong]
  | cons line lines ih =>
    have hline := hlines line List.mem_cons_self
    have htail : ∀ other ∈ lines, '\n' ∉ other := fun other hother => hlines other (List.mem_cons_of_mem line hother)
    have hempty : Inside [] := fun _ hnone => absurd hnone List.not_mem_nil
    rw [groupLines]
    by_cases hblank : isBlankLine line = true
    · have htext : textOf (before ++ line :: lines) ++ rest = recordText before line ++ (textOf lines ++ rest) := by
        simp [textOf, recordText]
      have htooLong : (StreamRecord.mk before line).tooLong = decide (TooLong before (lineBytes line + 1)) := rfl
      rw [if_pos hblank, htext, feed_append, feed_whole (before.length + 1) hbefore hline hblank (Nat.lt_succ_self _), observedFlags_cons, htooLong]
      simp only [decide_eq_true_eq]
      exact ih hempty htail
    · have hinside : Inside (before ++ [line]) := by
        intro other hother
        rw [List.mem_append, List.mem_singleton] at hother
        obtain hold | rfl := hother
        · exact hbefore other hold
        · exact ⟨hline, by simpa using hblank⟩
      rw [if_neg hblank, ← ih hinside htail, List.append_assoc, List.singleton_append]

/-! ### The verdict -/

theorem getLastD_cons_of_ne_nil {α : Type} {a d : α} {as : List α}
    (h : as ≠ []) : (a :: as).getLastD d = as.getLastD d := by
  obtain ⟨b, bs, rfl⟩ := List.exists_cons_of_ne_nil h
  rfl

theorem splitOn_parts (text : Text) :
    text = textOf (text.splitOn '\n').dropLast ++ (text.splitOn '\n').getLastD [] ∧
      (∀ line ∈ (text.splitOn '\n').dropLast, '\n' ∉ line) ∧ '\n' ∉ (text.splitOn '\n').getLastD [] := by
  induction hlength : text.length using Nat.strongRecOn generalizing text with
  | ind length ih =>
    by_cases hmem : '\n' ∈ text
    · obtain ⟨line, more, rfl, hline⟩ := List.eq_append_cons_of_mem hmem
      have hshorter : more.length < length := by
        rw [← hlength, List.length_append, List.length_cons]
        omega
      obtain ⟨htext, hlines, hrest⟩ := ih more.length hshorter more rfl
      have hne : more.splitOn '\n' ≠ [] := List.splitOn_ne_nil _ _
      rw [List.splitOn_append_cons_self_of_not_mem hline, List.dropLast_cons_of_ne_nil hne,
        getLastD_cons_of_ne_nil hne]
      refine ⟨?_, ?_, hrest⟩
      · rw [textOf_cons, List.append_assoc, ← htext, List.append_assoc, List.singleton_append]
      · intro other hother
        obtain rfl | hother := List.mem_cons.mp hother
        · exact hline
        · exact hlines other hother
    · rw [List.splitOn_eq_singleton hmem]
      exact ⟨rfl, fun _ hnone => absurd hnone List.not_mem_nil, hmem⟩

theorem outcomeOf_eq (chunks : List Chunk) :
    (chunks.foldl (observe js format) {}).observer.flags =
      observedFlags js format {} (groupLines [] ((({} : TextDecoder).decode chunks.flatten).2.splitOn '\n').dropLast)
        (((({} : TextDecoder).decode chunks.flatten).2.splitOn '\n').getLastD []) := by
  obtain ⟨htext, hlines, hrest⟩ := splitOn_parts (({} : TextDecoder).decode chunks.flatten).2
  have hempty : Inside [] := fun _ hnone => absurd hnone List.not_mem_nil
  have hgroups := @feed_groups js format {} [] _ hempty hlines _ hrest
  rw [List.nil_append, ← htext] at hgroups
  rw [foldl_observe]
  exact hgroups

theorem any_filterMap_judged (records : List StreamRecord) (p : Judgement → Bool) :
    ((records.filterMap (·.judgedLines)).map (judgeLines js format)).any p =
      (((records.filter fun r => !r.tooLong).map fun r => judgeLines js format r.lines).any p ||
        ((records.filter (·.tooLong)).filterMap (·.judgedLines)).any fun lines => p (judgeLines js format lines)) := by
  induction records with
  | nil => rfl
  | cons r records ih =>
    cases hlong : r.tooLong with
    | false =>
      have hjudged : r.judgedLines = some r.lines := by
        have hfits : ¬ TooLong r.lines (lineBytes r.blank + 1) := of_decide_eq_false hlong
        rw [StreamRecord.judgedLines, leakedFor, if_neg hfits]
      simp [hjudged, hlong, ih, Bool.or_assoc]
    | true =>
      cases hjudged : r.judgedLines with
      | none => simp [hjudged, hlong, ih]
      | some lines => simp [hjudged, hlong, ih, Bool.or_left_comm]

/-- The verdict is that of the records just if a leak fails only where a
record that is kept fails too. -/
theorem outcome_eq_iff (js : Builtins) (format : Format) (chunks : List Chunk) :
    outcomeOf js format chunks = (specFlags js format (({} : TextDecoder).decode chunks.flatten).2).outcome ↔
      ((leaks (({} : TextDecoder).decode chunks.flatten).2).any (fun lines => (judgeLines js format lines).failed) = true →
        (specFlags js format (({} : TextDecoder).decode chunks.flatten).2).failed = true) := by
  rw [outcomeOf, outcomeOf_eq]
  generalize (({} : TextDecoder).decode chunks.flatten).2 = text
  unfold observedFlags specFlags leaks
  simp only [any_filterMap_judged, Bool.false_or]
  generalize (groupLines [] (text.splitOn '\n').dropLast).1 = records
  generalize decide (TooLong _ _) = unfinished
  cases hany : records.any (·.tooLong) with
  | false =>
    have hnone : records.filter (·.tooLong) = [] := by
      rw [List.any_eq_false] at hany
      exact List.filter_eq_nil_iff.mpr hany
    simp [hnone]
  | true =>
    generalize ((records.filter fun r => !r.tooLong).map fun r => judgeLines js format r.lines).any (·.failed) = failed
    generalize ((records.filter (·.tooLong)).filterMap (·.judgedLines)).any (fun lines => (judgeLines js format lines).failed) = leakFailed
    cases failed <;> cases leakFailed <;> simp [Flags.outcome]

end

/-! ### A leak -/

def errorBuiltins : Builtins where
  parse text := if text = "\x7b\"error\":1\x7d".toList then some (.object [("error".toList, .number 1)]) else none
  number _ := .ok none
  text _ := none

def errorLine : Line := "data: \x7b\"error\":1\x7d".toList

def fullLine : Line := List.replicate (maxRecordBytes + 1) 'a'

theorem newline_notMem_fullLine : '\n' ∉ fullLine := by
  intro hmem
  exact absurd (List.eq_of_mem_replicate hmem) (by decide)

theorem lineBytes_fullLine : lineBytes fullLine = maxRecordBytes + 1 := by
  have hbyte : utf8ByteLength 'a' = 1 := rfl
  rw [lineBytes, fullLine, List.map_replicate, List.sum_replicate_nat, hbyte, Nat.mul_one]

theorem behind_replicate (n : ℕ) : behind n (List.replicate (n + 1) 'a') = [] := by
  induction n with
  | zero => rfl
  | succ n ih =>
    have hroom : ¬ n + 1 < utf8ByteLength 'a' := Nat.not_lt.mpr (Nat.succ_le_succ (Nat.zero_le n))
    rw [List.replicate_succ, behind, if_neg hroom]
    exact ih

def leakyText : Text := fullLine ++ '\n' :: (errorLine ++ ['\n', '\n'])

theorem decode_leakyText : (({} : TextDecoder).decode (Lib.Utf8Decoder.encode leakyText)).2 = leakyText := by
  have hhead : leakyText.head? = some 'a' := rfl
  have hunmarked : ¬ ((!false) = true ∧ leakyText.head? = some byteOrderMark) := by
    rw [hhead]
    decide
  simp only [TextDecoder.decode, Lib.Utf8Decoder.decode_encode, TextDecoder.unmarked]
  exact if_neg hunmarked

theorem splitOn_leakyText : leakyText.splitOn '\n' = [fullLine, errorLine, [], []] := by
  rw [leakyText, List.splitOn_append_cons_self_of_not_mem newline_notMem_fullLine]
  rfl

theorem isBlankLine_fullLine : isBlankLine fullLine = false := by
  have hlast : fullLine.getLast? = some 'a' := List.getLast?_replicate
  have hne : fullLine ≠ [] := List.ne_nil_of_length_pos (by rw [fullLine, List.length_replicate]; exact Nat.succ_pos _)
  have hreturn : ¬ fullLine.getLast? = some '\r' := by
    rw [hlast]
    decide
  rw [isBlankLine, withoutReturn, if_neg hreturn]
  exact decide_eq_false hne

theorem groupLines_leakyText : groupLines [] [fullLine, errorLine, []] = ([⟨[fullLine, errorLine], []⟩], []) := by
  have herror : isBlankLine errorLine = false := by decide
  have hempty : isBlankLine [] = true := rfl
  simp [groupLines, isBlankLine_fullLine, herror, hempty]

theorem leakyText_code :
    outcomeOf errorBuiltins .openai [Lib.Utf8Decoder.encode leakyText] = .upstreamErrorEvent := by
  have hfull : maxRecordBytes < bytesOfLines [] + lineBytes fullLine := by
    rw [lineBytes_fullLine]
    decide
  have hline := @feed_line_over errorBuiltins .openai {} [] fullLine newline_notMem_fullLine (Nat.zero_le _) hfull
  rw [if_pos (by rw [fullLine, bytesOfLines, List.map_nil, List.sum_nil, Nat.sub_zero, behind_replicate]; rfl)] at hline
  have htext : leakyText = fullLine ++ ['\n'] ++ (errorLine ++ ['\n', '\n']) := by simp [leakyText]
  rw [outcomeOf, foldl_observe, List.flatten_singleton, observeSlice, decode_leakyText]
  change (feed errorBuiltins .openai (reading {} (recordOf [])) leakyText).flags.outcome = _
  rw [htext, feed_append, hline]
  decide

theorem leakyText_records : (specFlags errorBuiltins .openai leakyText).outcome = .terminalEvidenceOverflow := by
  have hlong : (StreamRecord.mk [fullLine, errorLine] []).tooLong = true := by
    have hbytes : maxRecordBytes < bytesOfLines [fullLine, errorLine] + (lineBytes [] + 1) := by
      rw [bytesOfLines_cons, lineBytes_fullLine]
      omega
    have htooLong : TooLong [fullLine, errorLine] (lineBytes [] + 1) := Or.inl hbytes
    rw [StreamRecord.tooLong, decide_eq_true_eq]
    exact htooLong
  have hgroups := groupLines_leakyText
  unfold specFlags
  simp only [splitOn_leakyText, List.dropLast_cons_cons, List.dropLast_singleton, hgroups]
  simp [hlong, Flags.outcome]

theorem outcome_of_leak :
    ¬ ∀ (js : Builtins) (format : Format) (chunks : List Chunk),
      outcomeOf js format chunks = (specFlags js format (({} : TextDecoder).decode chunks.flatten).2).outcome := by
  intro h
  have hoverflow := h errorBuiltins .openai [Lib.Utf8Decoder.encode leakyText]
  rw [leakyText_code, List.flatten_singleton, decode_leakyText, leakyText_records] at hoverflow
  exact absurd hoverflow (by decide)

end TokenProxy.Streaming.Terminal
