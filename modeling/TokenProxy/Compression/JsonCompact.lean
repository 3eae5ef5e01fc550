import TokenProxy.Lib.JsonText

/-!
# The compaction of JSON texts

`filters/jsonCompact.js`: one pass over a text that parses, which slices it at the spaces outside
its strings. What it keeps is what `strip` keeps (`finish_scan`), and that is the spelling of its
tokens (`strip_spelled`).
-/

namespace TokenProxy.Compression

open Lib.JsonText

/-- `/^[ \t\r\n]*[\[{]/` -/
def opensContainer (input : Text) : Bool := (input.dropWhile isSpace).head?.any fun c => c = Mark.openArray.unit || c = Mark.openObject.unit

/-- The slices that the loop has pushed, the start of the next one, and whether a string is open. -/
structure Scan where
  pieces : List Text := []
  start : ℕ := 0
  quoted : Bool := false

def slice (input : Text) (start stop : ℕ) : Text := (input.drop start).take (stop - start)

/-- The body of the loop, but for the escape that consumes the next code unit. -/
def turn (input : Text) (i : ℕ) (char : CodeUnit) (s : Scan) : Scan :=
  if s.quoted then if char = 34 then { s with quoted := false } else s
  else if char = 34 then { s with quoted := true }
  else if char = 32 ∨ char = 9 ∨ char = 10 ∨ char = 13 then
    { s with pieces := if s.start < i then s.pieces ++ [slice input s.start i] else s.pieces, start := i + 1 }
  else s

/-- The loop from `i` on, where `rest` is left of the input. -/
def scan (input : Text) : ℕ → Text → Scan → Scan
  | _, [], s => s
  | i, [char], s => if s.quoted ∧ char = 92 then s else turn input i char s
  | i, char :: next :: rest, s =>
    if s.quoted ∧ char = 92 then scan input (i + 2) rest s else scan input (i + 1) (next :: rest) (turn input i char s)

def jsonCompact (input : Text) : Option Text :=
  if !opensContainer input then none
  else match parse input with
    | none => none
    | some _ =>
      let s := scan input 0 input {}
      if s.start = 0 then some input
      else some ((if s.start < input.length then s.pieces ++ [slice input s.start input.length] else s.pieces).flatten)

/-! ### What the loop keeps -/

/-- A text without its spaces outside strings; `quoted` where a string is open. -/
def strip : Bool → Text → Text
  | _, [] => []
  | quoted, [c] => if !quoted && isSpace c then [] else [c]
  | quoted, c :: next :: rest =>
    if quoted then if c = backslash then c :: next :: strip true rest else c :: strip (c ≠ quote) (next :: rest)
    else if isSpace c then strip false (next :: rest) else c :: strip (c = quote) (next :: rest)

-- Lean derives the equations of a recursive definition at the first proof that unfolds it.
-- The proofs of a module are elaborated side by side; asked for once, here, the equations
-- are the same for all of them.
section
attribute [local simp] strip scan turn
end

theorem strip_space {c : CodeUnit} (hspace : isSpace c = true)
    (rest : Text) : strip false (c :: rest) = strip false rest := by
  cases rest <;> simp [strip, hspace]

theorem strip_unquoted {c : CodeUnit} (hspace : isSpace c = false) (rest : Text) :
    strip false (c :: rest) = c :: strip (c = quote) rest := by
  cases rest <;> simp [strip, hspace]

theorem strip_quoted {c : CodeUnit} (hbackslash : c ≠ backslash)
    (rest : Text) : strip true (c :: rest) = c :: strip (c ≠ quote) rest := by
  cases rest <;> simp [strip, hbackslash]

theorem strip_escape (next : CodeUnit) (rest : Text) :
    strip true (backslash :: next :: rest) = backslash :: next :: strip true rest := by
  simp [strip]

theorem strip_turn {quoted : Bool} {c : CodeUnit} (h : ¬ (quoted = true ∧ c = backslash))
    (rest : Text) :
    strip quoted (c :: rest) =
      (if !quoted && isSpace c then [] else [c]) ++ strip (if quoted then decide (c ≠ quote) else decide (c = quote)) rest := by
  cases quoted with
  | true =>
    have hbackslash : c ≠ backslash := fun hc => h ⟨rfl, hc⟩
    rw [strip_quoted hbackslash]
    simp
  | false =>
    cases hspace : isSpace c with
    | true =>
      have hquote : c ≠ quote := by
        rintro rfl
        exact absurd hspace (by decide)
      rw [strip_space hspace]
      simp [hquote]
    | false =>
      rw [strip_unquoted hspace]
      simp

theorem isSpace_iff {c : CodeUnit} : isSpace c = true ↔ c = 32 ∨ c = 9 ∨ c = 10 ∨ c = 13 := by
  simp [isSpace, or_assoc]

theorem slice_succ {input : Text} {start i : ℕ} {c : CodeUnit} {rest : Text} (hle : start ≤ i)
    (hrest : input.drop i = c :: rest) :
    slice input start (i + 1) = slice input start i ++ [c] := by
  have hc : (input.drop start)[i - start]? = some c := by
    rw [List.getElem?_drop, show start + (i - start) = i by omega, ← List.head?_drop, hrest, List.head?_cons]
  unfold slice
  rw [show i + 1 - start = i - start + 1 by omega, List.take_add_one, hc, Option.toList_some]

theorem slice_self (input : Text) (i : ℕ) : slice input i i = [] := by
  rw [slice, Nat.sub_self, List.take_zero]

/-- What the loop has kept of the input up to `i`. -/
structure Kept (input : Text) (i : ℕ) (s : Scan) (out : Text) : Prop where
  start_le : s.start ≤ i
  out_eq : s.pieces.flatten ++ slice input s.start i = out
  untouched : s.start = 0 → s.pieces = []

namespace Kept

variable {input rest out : Text} {i : ℕ} {s : Scan} {char : CodeUnit}

theorem next (h : Kept input i s out) (hrest : input.drop i = char :: rest) (quoted : Bool) :
    Kept input (i + 1) { s with quoted } (out ++ [char]) where
  start_le := Nat.le_succ_of_le h.start_le
  out_eq := by
    show s.pieces.flatten ++ slice input s.start (i + 1) = out ++ [char]
    rw [slice_succ h.start_le hrest, ← List.append_assoc, h.out_eq]
  untouched := h.untouched

theorem turn (h : Kept input i s out) (hrest : input.drop i = char :: rest) :
    Kept input (i + 1) (turn input i char s) (out ++ if !s.quoted && isSpace char then [] else [char]) := by
  unfold Compression.turn
  cases hquoted : s.quoted with
  | true =>
    rw [if_pos rfl, Bool.not_true, Bool.false_and, if_neg Bool.false_ne_true]
    split
    · exact h.next hrest false
    · exact h.next hrest s.quoted
  | false =>
    rw [if_neg Bool.false_ne_true, Bool.not_false, Bool.true_and]
    by_cases hquote : char = 34
    · subst hquote
      rw [if_pos rfl, if_neg (by decide)]
      exact h.next hrest true
    rw [if_neg hquote]
    by_cases hspace : isSpace char = true
    · rw [if_pos hspace, if_pos (isSpace_iff.1 hspace), List.append_nil]
      refine ⟨Nat.le_refl _, ?_, fun hzero => absurd hzero (Nat.succ_ne_zero i)⟩
      simp only
      rw [slice_self, List.append_nil, ← h.out_eq]
      split
      · rw [List.flatten_append, List.flatten_singleton]
      · rename_i hstart
        rw [Nat.le_antisymm h.start_le (Nat.not_lt.1 hstart), slice_self, List.append_nil]
    · rw [if_neg hspace, if_neg (mt isSpace_iff.2 hspace)]
      exact h.next hrest s.quoted

theorem turn_quoted (input : Text) (i : ℕ) (char : CodeUnit) (s : Scan) :
    (Compression.turn input i char s).quoted = if s.quoted then decide (char ≠ 34) else decide (char = 34) := by
  unfold Compression.turn
  cases hquoted : s.quoted with
  | true => by_cases hquote : char = 34 <;> simp [hquote, hquoted]
  | false =>
    by_cases hquote : char = 34
    · simp [hquote]
    · rw [if_neg Bool.false_ne_true, if_neg hquote]
      split <;> simp [hquoted, hquote]

theorem length_of_drop (hi : i ≤ input.length)
    (hrest : input.drop i = rest) : i + rest.length = input.length := by
  rw [← hrest, List.length_drop]
  omega

theorem scan (h : Kept input i s out) (hi : i ≤ input.length) (hrest : input.drop i = rest) :
    Kept input input.length (Compression.scan input i rest s) (out ++ strip s.quoted rest) := by
  fun_induction Compression.scan input i rest s generalizing out with
  | case1 i s =>
    rw [Nat.le_antisymm (List.drop_eq_nil_iff.1 hrest) hi, strip, List.append_nil]
    exact h
  | case2 i char s hescape =>
    have hlength : i + 1 = input.length := by
      rw [← length_of_drop hi hrest, List.length_singleton]
    rw [← hlength, hescape.1, strip, Bool.not_true, Bool.false_and, if_neg Bool.false_ne_true]
    exact h.next hrest s.quoted
  | case3 i char s hplain =>
    have hlength : i + 1 = input.length := by
      rw [← length_of_drop hi hrest, List.length_singleton]
    rw [← hlength, strip]
    exact h.turn hrest
  | case4 i char next rest s hescape ih =>
    have hnext : input.drop (i + 1) = next :: rest := by rw [← List.tail_drop, hrest, List.tail_cons]
    have hskip : input.drop (i + 2) = rest := by rw [← List.tail_drop, hnext, List.tail_cons]
    have hlength : i + 2 ≤ input.length := by
      rw [← length_of_drop hi hrest, List.length_cons, List.length_cons]
      omega
    have := ih ((h.next hrest s.quoted).next hnext s.quoted) hlength hskip
    have hbackslash : char = backslash := hescape.2
    rw [hescape.1, hbackslash, strip_escape]
    rw [hescape.1, hbackslash, List.append_assoc, List.append_assoc] at this
    exact this
  | case5 i char next rest s hplain ih =>
    have hnext : input.drop (i + 1) = next :: rest := by rw [← List.tail_drop, hrest, List.tail_cons]
    have hlength : i + 1 ≤ input.length := by
      rw [← length_of_drop hi hrest, List.length_cons]
      omega
    have := ih (h.turn hrest) hlength hnext
    rw [turn_quoted, List.append_assoc] at this
    rw [strip_turn hplain]
    exact this

end Kept

theorem kept_scan (input : Text) :
    Kept input input.length (scan input 0 input {}) (strip false input) := by
  have hstart : Kept input 0 {} [] := ⟨Nat.le_refl _, by simp [slice], fun _ => rfl⟩
  exact hstart.scan (Nat.zero_le _) List.drop_zero

theorem jsonCompact_eq (input : Text) :
    jsonCompact input = if opensContainer input && (parse input).isSome then some (strip false input) else none := by
  have hkept := kept_scan input
  unfold jsonCompact
  cases hopens : opensContainer input with
  | false => rfl
  | true =>
    cases hparse : parse input with
    | none => rfl
    | some value =>
      simp only [Option.isSome_some, Bool.and_self, if_true, Bool.not_true, Bool.false_eq_true, if_false]
      by_cases hzero : (scan input 0 input {}).start = 0
      · have hout := hkept.out_eq
        rw [hkept.untouched hzero, hzero, slice, List.drop_zero, Nat.sub_zero, List.take_length] at hout
        simp only [hzero, if_true]
        exact congrArg some hout
      · simp only [hzero, if_false]
        rw [← hkept.out_eq]
        split
        · rw [List.flatten_append, List.flatten_singleton]
        · rename_i hend
          rw [Nat.le_antisymm hkept.start_le (Nat.not_lt.1 hend), slice_self, List.append_nil]

/-! ### What is kept of a text that is spelled -/

theorem strip_body {body : Text} (h : Body body)
    (rest : Text) : strip true (body ++ quote :: rest) = body ++ quote :: strip false rest := by
  induction h with
  | nil =>
    rw [List.nil_append, strip_quoted (by decide)]
    rfl
  | @cons c body hquote hbackslash _ _ ih =>
    rw [List.cons_append, strip_quoted hbackslash, decide_eq_true hquote, ih, List.cons_append]
  | escape _ _ ih => rw [List.cons_append, List.cons_append, strip_escape, ih, List.cons_append, List.cons_append]

theorem strip_word {w : Text} (h : ∀ c ∈ w, isPlain c = true)
    (rest : Text) : strip false (w ++ rest) = w ++ strip false rest := by
  induction w with
  | nil => rfl
  | cons c w ih =>
    have hc := h c (List.mem_cons_self ..)
    simp only [isPlain, Bool.and_eq_true, Bool.not_eq_true', decide_eq_true_eq] at hc
    rw [List.cons_append, strip_unquoted hc.1.1, decide_eq_false hc.1.2,
      ih fun d hd => h d (List.mem_cons_of_mem c hd), List.cons_append]

theorem strip_spelled {tokens : List Token} {text : Text}
    (h : Spelled tokens text) : strip false text = spelling tokens := by
  induction h with
  | nil => rfl
  | space hspace _ ih => rw [strip_space hspace, ih]
  | mark m _ ih =>
    rw [strip_unquoted (unit_ne m).1, decide_eq_false (unit_ne m).2, ih, spelling_cons]
    rfl
  | string hbody _ ih =>
    rw [List.cons_append, strip_unquoted (by decide), decide_eq_true rfl, strip_body hbody, ih, spelling_cons]
    simp [Token.text]
  | word _ hplain _ _ _ ih => rw [strip_word hplain, ih, spelling_cons, Token.text]

theorem length_strip_le (quoted : Bool) (text : Text) :
    (strip quoted text).length ≤ text.length := by
  fun_induction strip quoted text <;> simp_all; omega

theorem opensContainer_of_spelled {m : Mark} {rest : List Token} {text : Text}
    (h : Spelled (.mark m :: rest) text)
    (hm : m = .openArray ∨ m = .openObject) : opensContainer text = true := by
  generalize htokens : Token.mark m :: rest = tokens at h
  induction h with
  | space hspace _ ih =>
    rw [opensContainer, List.dropWhile_cons, if_pos hspace]
    exact ih htokens
  | mark m' =>
    obtain rfl : m = m' := by simpa using (List.cons.inj htokens).1
    rw [opensContainer, List.dropWhile_cons, (unit_ne m).1, if_neg Bool.false_ne_true, List.head?_cons]
    rcases hm with rfl | rfl <;> rfl
  | nil | string | word => simp at htokens

/-- A text of an array or an object is compacted to its tokens, and that only once. -/
theorem jsonCompact_keeps_tokens (input : Text) (value : Value) (hparse : parse input = some value)
    (hcontainer : value.isContainer = true) :
    ∃ tokens output, jsonCompact input = some output ∧ lex input = some tokens ∧ lex output = some tokens ∧
      output = tokens.flatMap Token.text ∧
      (∀ token ∈ tokens, (∀ body, token ≠ .string body) → ∀ c ∈ token.text, isSpace c = false) ∧
      parse output = some value ∧ output.length ≤ input.length ∧ jsonCompact output = some output := by
  obtain ⟨tokens, hlex, htokens⟩ := Option.bind_eq_some_iff.1 hparse
  have hspelled : Spelled tokens input := lex_eq_some.1 hlex
  have htight : Spelled tokens (spelling tokens) := hspelled.spelling (separated_of_parseTokens htokens)
  have hlex' : lex (spelling tokens) = some tokens := lex_eq_some.2 htight
  have hparse' : parse (spelling tokens) = some value := by rw [parse, hlex', Option.bind_some, htokens]
  have hopens : ∀ text, Spelled tokens text → opensContainer text = true := by
    obtain ⟨m, rest, rfl, hm⟩ := first_of_container htokens hcontainer
    exact fun text h => opensContainer_of_spelled h hm
  have hcompact : ∀ text, Spelled tokens text → parse text = some value → jsonCompact text = some (spelling tokens) := by
    intro text h hvalue
    rw [jsonCompact_eq, hopens text h, hvalue, if_pos (by rfl), strip_spelled h]
  refine ⟨tokens, spelling tokens, hcompact input hspelled hparse, hlex, hlex', rfl,
    hspelled.not_isSpace, hparse', ?_, hcompact _ htight hparse'⟩
  rw [← strip_spelled hspelled]
  exact length_strip_le false input

/-- ` {"a" : 1e2 , "a":[ ]} ` -/
def spacedText : Text := [32, 123, 34, 97, 34, 32, 58, 32, 49, 101, 50, 32, 44, 32, 34, 97, 34, 58, 91, 32, 93, 125, 10]

theorem jsonCompact_keeps_tokens_spacedText :
    ∃ tokens output, jsonCompact spacedText = some output ∧ lex spacedText = some tokens ∧ lex output = some tokens ∧
      output = tokens.flatMap Token.text ∧
      (∀ token ∈ tokens, (∀ body, token ≠ .string body) → ∀ c ∈ token.text, isSpace c = false) ∧
      parse output = some (.object [([97], .word [49, 101, 50]), ([97], .array [])]) ∧ output.length ≤ spacedText.length ∧
      jsonCompact output = some output :=
  jsonCompact_keeps_tokens spacedText (.object [([97], .word [49, 101, 50]), ([97], .array [])]) rfl rfl

end TokenProxy.Compression
