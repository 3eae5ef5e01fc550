import Mathlib.Data.List.Chain
import Mathlib.Data.List.TakeWhile
import Mathlib.Data.Nat.Notation

/-!
# JSON texts

A text is a list of code units. `lex` finds its tokens: marks, strings as they are written, and
words, which are the runs of all other units and have to be numbers or literals. `parseTokens` reads
tokens one at a time, with what is open on a stack; no two words ever stand side by side in what it
accepts (`separated_of_parseTokens`). `Spelled` is the lexical grammar, of which `lex` is the reader
(`lex_eq_some`).
-/

namespace TokenProxy.Lib.JsonText

abbrev CodeUnit := ℕ

abbrev Text := List CodeUnit

def quote : CodeUnit := 34

def backslash : CodeUnit := 92

def isSpace (c : CodeUnit) : Bool := c = 32 || c = 9 || c = 10 || c = 13

def isDigit (c : CodeUnit) : Bool := 48 ≤ c && c ≤ 57

def isHex (c : CodeUnit) : Bool := isDigit c || (65 ≤ c && c ≤ 70) || (97 ≤ c && c ≤ 102)

inductive Mark where
  | openArray
  | closeArray
  | openObject
  | closeObject
  | comma
  | colon
  deriving DecidableEq

def Mark.unit : Mark → CodeUnit
  | .openArray => 91
  | .closeArray => 93
  | .openObject => 123
  | .closeObject => 125
  | .comma => 44
  | .colon => 58

def marks : List Mark := [.openArray, .closeArray, .openObject, .closeObject, .comma, .colon]

def markOf (c : CodeUnit) : Option Mark := marks.find? fun m => m.unit = c

theorem markOf_unit (m : Mark) : markOf m.unit = some m := by
  cases m <;> decide

theorem unit_of_markOf {c : CodeUnit} {m : Mark} (h : markOf c = some m) : m.unit = c := by
  have := List.find?_some h
  simpa using this

def isPlain (c : CodeUnit) : Bool := !isSpace c && c ≠ quote && markOf c = none

/-! ### Strings -/

/-- The letters that may follow a backslash, but for `u`. -/
def escapeLetters : List CodeUnit := [34, 92, 47, 98, 102, 110, 114, 116]

def hexFollow : ℕ → Text → Bool
  | 0, _ => true
  | _ + 1, [] => false
  | n + 1, c :: text => isHex c && hexFollow n text

/-- What stands up to the closing quote, as it is written, and what follows the quote. -/
def readString : Text → Option (Text × Text)
  | [] => none
  | [c] => if c = quote then some ([], []) else none
  | c :: next :: text =>
    if c = quote then some ([], next :: text)
    else if c = backslash then
      if next ∈ escapeLetters ∨ next = 117 ∧ hexFollow 4 text then (readString text).map fun r => (c :: next :: r.1, r.2) else none
    else if c < 32 then none
    else (readString (next :: text)).map fun r => (c :: r.1, r.2)

/-! ### Words -/

/-- `text` after one or more digits. -/
def digits (text : Text) : Option Text := if text.head?.any isDigit then some (text.dropWhile isDigit) else none

def isNumber (text : Text) : Bool :=
  let text := if text.head? = some 45 then text.drop 1 else text
  let int := if text.head? = some 48 then some (text.drop 1) else digits text
  let frac := int.bind fun text => if text.head? = some 46 then digits (text.drop 1) else some text
  let exp := frac.bind fun text =>
    if text.head? = some 101 ∨ text.head? = some 69 then
      digits (if (text.drop 1).head? = some 43 ∨ (text.drop 1).head? = some 45 then text.drop 2 else text.drop 1)
    else some text
  exp = some []

def trueWord : Text := [116, 114, 117, 101]

def falseWord : Text := [102, 97, 108, 115, 101]

def nullWord : Text := [110, 117, 108, 108]

def isWord (text : Text) : Bool := text = trueWord || text = falseWord || text = nullWord || isNumber text

/-! ### Tokens -/

inductive Token where
  | mark (m : Mark)
  | string (body : Text)
  | word (text : Text)
  deriving DecidableEq

def Token.text : Token → Text
  | .mark m => [m.unit]
  | .string body => quote :: body ++ [quote]
  | .word text => text

def lexUpTo : ℕ → Text → Option (List Token)
  | _, [] => some []
  | 0, _ :: _ => none
  | n + 1, c :: text =>
    if isSpace c then lexUpTo n text
    else if c = quote then do
      let (body, after) ← readString text
      return .string body :: (← lexUpTo n after)
    else match markOf c with
      | some m => do return .mark m :: (← lexUpTo n text)
      | none =>
        let word := c :: text.takeWhile isPlain
        if isWord word then do return .word word :: (← lexUpTo n (text.dropWhile isPlain)) else none

def lex (text : Text) : Option (List Token) := lexUpTo text.length text

/-! ### Values -/

/-- A value, with its strings and numbers as they are written and all its fields in their order. -/
inductive Value where
  | string (body : Text)
  | word (text : Text)
  | array (items : List Value)
  | object (fields : List (Text × Value))

/-- What is open: an array with the items read, an object with the fields read and the
key that waits for its value. -/
inductive Frame where
  | array (items : List Value)
  | object (fields : List (Text × Value)) (key : Text)

inductive Mode where
  | value
  | firstItem
  | firstKey
  | key (fields : List (Text × Value))
  | colon (fields : List (Text × Value)) (key : Text)
  | after (value : Value)

structure Reader where
  stack : List Frame
  mode : Mode

def Reader.valueToken (r : Reader) : Token → Option Reader
  | .string body => some { r with mode := .after (.string body) }
  | .word text => some { r with mode := .after (.word text) }
  | .mark .openArray => some { stack := .array [] :: r.stack, mode := .firstItem }
  | .mark .openObject => some { r with mode := .firstKey }
  | .mark _ => none

def Reader.keyToken (r : Reader) (fields : List (Text × Value)) : Token → Option Reader
  | .string key => some { r with mode := .colon fields key }
  | _ => none

/-- A value was read; the frame that it is in says what may follow. -/
def Reader.afterToken (value : Value) : List Frame → Token → Option Reader
  | .array items :: stack, .mark .comma => some { stack := .array (items ++ [value]) :: stack, mode := .value }
  | .array items :: stack, .mark .closeArray => some { stack, mode := .after (.array (items ++ [value])) }
  | .object fields key :: stack, .mark .comma => some { stack, mode := .key (fields ++ [(key, value)]) }
  | .object fields key :: stack, .mark .closeObject => some { stack, mode := .after (.object (fields ++ [(key, value)])) }
  | _, _ => none

def Reader.read (r : Reader) (token : Token) : Option Reader :=
  match r.mode with
  | .value => r.valueToken token
  | .firstItem => if token = .mark .closeArray then some { stack := r.stack.tail, mode := .after (.array []) } else r.valueToken token
  | .firstKey => if token = .mark .closeObject then some { r with mode := .after (.object []) } else r.keyToken [] token
  | .key fields => r.keyToken fields token
  | .colon fields key => if token = .mark .colon then some { stack := .object fields key :: r.stack, mode := .value } else none
  | .after value => Reader.afterToken value r.stack token

def Reader.finish (r : Reader) : Option Value :=
  match r.stack, r.mode with
  | [], .after value => some value
  | _, _ => none

def parseTokens (tokens : List Token) : Option Value :=
  (tokens.foldlM Reader.read { stack := [], mode := .value }).bind Reader.finish

/-- `JSON.parse` -/
def parse (text : Text) : Option Value := (lex text).bind parseTokens

/-! ### The strings of a text -/

theorem hexFollow_quote (n : ℕ) (body after after' : Text)
    (h : hexFollow n (body ++ quote :: after) = true) :
    hexFollow n (body ++ quote :: after') = true := by
  induction body generalizing n with
  | nil =>
    cases n with
    | zero => rfl
    | succ n => simp [hexFollow, isHex, isDigit, quote] at h
  | cons c body ih =>
    cases n with
    | zero => rfl
    | succ n =>
      rw [List.cons_append, hexFollow, Bool.and_eq_true] at h ⊢
      exact ⟨h.1, ih n h.2⟩

theorem readString_cons {c : CodeUnit} {text : Text} (hquote : c ≠ quote)
    (hbackslash : c ≠ backslash) (hprintable : ¬ c < 32) :
    readString (c :: text) = (readString text).map fun r => (c :: r.1, r.2) := by
  cases text with
  | nil => simp [readString, hquote]
  | cons next text => rw [readString, if_neg hquote, if_neg hbackslash, if_neg hprintable]

theorem readString_quote (text : Text) : readString (quote :: text) = some ([], text) := by
  cases text with
  | nil => rw [readString, if_pos rfl]
  | cons next text => rw [readString, if_pos rfl]

theorem readString_escape {next : CodeUnit} {text : Text}
    (h : next ∈ escapeLetters ∨ next = 117 ∧ hexFollow 4 text = true) :
    readString (backslash :: next :: text) = (readString text).map fun r => (backslash :: next :: r.1, r.2) := by
  rw [readString, if_neg (by decide), if_pos rfl, if_pos h]

inductive Body : Text → Prop where
  | nil : Body []
  | cons {c : CodeUnit} {body : Text} (hquote : c ≠ quote) (hbackslash : c ≠ backslash) (hprintable : ¬ c < 32) : Body body → Body (c :: body)
  | escape {next : CodeUnit} {body : Text} (h : next ∈ escapeLetters ∨ next = 117 ∧ hexFollow 4 (body ++ [quote]) = true) :
    Body body → Body (backslash :: next :: body)

theorem readString_of_body {body : Text} (h : Body body)
    (after : Text) : readString (body ++ quote :: after) = some (body, after) := by
  induction h with
  | nil => exact readString_quote after
  | cons hquote hbackslash hprintable _ ih => rw [List.cons_append, readString_cons hquote hbackslash hprintable, ih, Option.map_some]
  | escape hletter _ ih =>
    rw [List.cons_append, List.cons_append, readString_escape (hletter.imp id (And.imp id (hexFollow_quote 4 _ [] after))), ih, Option.map_some]

theorem body_of_readString {text body after : Text} (h : readString text = some (body, after)) :
    Body body ∧ text = body ++ quote :: after := by
  induction text using readString.induct generalizing body with
  | case1 => simp [readString] at h
  | case2 =>
    rw [readString_quote, Option.some.injEq, Prod.mk.injEq] at h
    obtain ⟨rfl, rfl⟩ := h
    exact ⟨Body.nil, rfl⟩
  | case3 c hc => simp [readString, hc] at h
  | case4 next text =>
    rw [readString_quote, Option.some.injEq, Prod.mk.injEq] at h
    obtain ⟨rfl, rfl⟩ := h
    exact ⟨Body.nil, rfl⟩
  | case5 next text hletter _ ih =>
    rw [readString_escape hletter, Option.map_eq_some_iff] at h
    obtain ⟨⟨body', after'⟩, hread, heq⟩ := h
    obtain ⟨rfl, rfl⟩ := Prod.mk.inj heq
    obtain ⟨hbody, rfl⟩ := ih hread
    refine ⟨Body.escape (hletter.imp id (And.imp id ?_)) hbody, rfl⟩
    exact hexFollow_quote 4 body' after' []
  | case6 next text hquote hletter =>
    simp [readString, hquote, hletter] at h
  | case7 c next text hquote hbackslash hcontrol =>
    simp [readString, hquote, hbackslash, hcontrol] at h
  | case8 c next text hquote hbackslash hcontrol ih =>
    rw [readString_cons hquote hbackslash hcontrol, Option.map_eq_some_iff] at h
    obtain ⟨⟨body', after'⟩, hread, heq⟩ := h
    obtain ⟨rfl, rfl⟩ := Prod.mk.inj heq
    obtain ⟨hbody, hrest⟩ := ih hread
    exact ⟨Body.cons hquote hbackslash hcontrol hbody, by rw [hrest, List.cons_append]⟩

/-! ### The lexical grammar -/

/-- How tokens may be written, with spaces between them. A word goes on as far as it can. -/
inductive Spelled : List Token → Text → Prop where
  | nil : Spelled [] []
  | space {c : CodeUnit} {tokens : List Token} {text : Text} (hspace : isSpace c = true) : Spelled tokens text → Spelled tokens (c :: text)
  | mark (m : Mark) {tokens : List Token} {text : Text} : Spelled tokens text → Spelled (.mark m :: tokens) (m.unit :: text)
  | string {body : Text} {tokens : List Token} {text : Text} (hbody : Body body) :
    Spelled tokens text → Spelled (.string body :: tokens) (quote :: body ++ quote :: text)
  | word {w : Text} {tokens : List Token} {text : Text} (hne : w ≠ []) (hplain : ∀ c ∈ w, isPlain c = true) (hword : isWord w = true)
    (hend : ∀ c ∈ text.head?, isPlain c = false) : Spelled tokens text → Spelled (.word w :: tokens) (w ++ text)

theorem lexUpTo_spelled {n : ℕ} {text : Text} {tokens : List Token}
    (h : lexUpTo n text = some tokens) : Spelled tokens text := by
  induction n generalizing text tokens with
  | zero =>
    cases text with
    | nil =>
      rw [lexUpTo, Option.some.injEq] at h
      exact h ▸ Spelled.nil
    | cons c text => simp [lexUpTo] at h
  | succ n ih =>
    cases text with
    | nil =>
      rw [lexUpTo, Option.some.injEq] at h
      exact h ▸ Spelled.nil
    | cons c text =>
      rw [lexUpTo] at h
      by_cases hspace : isSpace c = true
      · rw [if_pos hspace] at h
        exact Spelled.space hspace (ih h)
      rw [if_neg hspace] at h
      by_cases hquote : c = quote
      · rw [if_pos hquote] at h
        obtain ⟨⟨body, after⟩, hread, h⟩ := Option.bind_eq_some_iff.1 h
        obtain ⟨rest, hrest, heq⟩ := Option.bind_eq_some_iff.1 h
        obtain ⟨hbody, rfl⟩ := body_of_readString hread
        subst hquote
        exact (Option.some.inj heq) ▸ Spelled.string hbody (ih hrest)
      rw [if_neg hquote] at h
      cases hmark : markOf c with
      | some m =>
        simp only [hmark] at h
        obtain ⟨rest, hrest, heq⟩ := Option.bind_eq_some_iff.1 h
        rw [← unit_of_markOf hmark]
        exact (Option.some.inj heq) ▸ Spelled.mark m (ih hrest)
      | none =>
        simp only [hmark] at h
        by_cases hword : isWord (c :: text.takeWhile isPlain) = true
        · rw [if_pos hword] at h
          obtain ⟨rest, hrest, heq⟩ := Option.bind_eq_some_iff.1 h
          have hplain : ∀ d ∈ c :: text.takeWhile isPlain, isPlain d = true := by
            intro d hd
            rcases List.mem_cons.1 hd with rfl | hd
            · simp [isPlain, hspace, hquote, hmark]
            · exact List.mem_takeWhile_imp hd
          have hend : ∀ d ∈ (text.dropWhile isPlain).head?, isPlain d = false := by
            intro d hd
            have hnot := List.head?_dropWhile_not isPlain text
            rw [Option.mem_def.1 hd] at hnot
            exact hnot
          have hspelled := Spelled.word (List.cons_ne_nil _ _) hplain hword hend (ih hrest)
          rw [List.cons_append, List.takeWhile_append_dropWhile] at hspelled
          exact (Option.some.inj heq) ▸ hspelled
        · simp [hword] at h

theorem lexUpTo_nil (n : ℕ) : lexUpTo n [] = some [] := by
  cases n <;> rfl

theorem isPlain_quote : isPlain quote = false := by decide

theorem isPlain_unit (m : Mark) : isPlain m.unit = false := by
  cases m <;> decide

theorem unit_ne (m : Mark) : isSpace m.unit = false ∧ m.unit ≠ quote := by
  cases m <;> decide

theorem lexUpTo_of_spelled {tokens : List Token} {text : Text} (h : Spelled tokens text) {n : ℕ}
    (hn : text.length ≤ n) :
    lexUpTo n text = some tokens := by
  induction h generalizing n with
  | nil => exact lexUpTo_nil n
  | @space c tokens text hspace _ ih =>
    cases n with
    | zero => simp at hn
    | succ n =>
      rw [lexUpTo, if_pos hspace]
      apply ih
      simpa using hn
  | @mark m tokens text _ ih =>
    cases n with
    | zero => simp at hn
    | succ n =>
      obtain ⟨hspace, hquote⟩ := unit_ne m
      rw [lexUpTo, if_neg (Bool.eq_false_iff.1 hspace), if_neg hquote, markOf_unit]
      rw [ih (by simpa using hn)]
      rfl
  | @string body tokens text hbody _ ih =>
    cases n with
    | zero => simp at hn
    | succ n =>
      have hlength : text.length ≤ n := by
        simp only [List.cons_append, List.length_cons, List.length_append] at hn
        omega
      rw [List.cons_append, lexUpTo, if_neg (by decide), if_pos rfl, readString_of_body hbody text, Option.bind_eq_bind, Option.bind_some]
      simp only [ih hlength]
      rfl
  | @word w tokens text hne hplain hword hend _ ih =>
    cases n with
    | zero =>
      rw [Nat.le_zero, List.length_append, Nat.add_eq_zero_iff, List.length_eq_zero_iff] at hn
      exact absurd hn.1 hne
    | succ n =>
      cases w with
      | nil => exact absurd rfl hne
      | cons c w =>
        have hc := hplain c (List.mem_cons_self ..)
        simp only [isPlain, Bool.and_eq_true, Bool.not_eq_true', decide_eq_true_eq] at hc
        have hw : ∀ d ∈ w, isPlain d = true := fun d hd => hplain d (List.mem_cons_of_mem c hd)
        have hafter : text.takeWhile isPlain = [] ∧ text.dropWhile isPlain = text := by
          cases text with
          | nil => exact ⟨rfl, rfl⟩
          | cons d text =>
            have hd := hend d rfl
            rw [List.takeWhile_cons, List.dropWhile_cons, hd]
            exact ⟨rfl, rfl⟩
        have htake : (w ++ text).takeWhile isPlain = w := by
          rw [List.takeWhile_append_of_pos hw, hafter.1, List.append_nil]
        have hdrop : (w ++ text).dropWhile isPlain = text := by
          rw [List.dropWhile_append_of_pos hw, hafter.2]
        rw [List.cons_append, lexUpTo, if_neg (Bool.eq_false_iff.1 hc.1.1), if_neg hc.1.2, hc.2]
        simp only [htake, hdrop, hword, if_true]
        rw [ih (by simp at hn; omega)]
        rfl

/-- **What is read is what is written.** -/
theorem lex_eq_some {text : Text} {tokens : List Token} :
    lex text = some tokens ↔ Spelled tokens text :=
  ⟨lexUpTo_spelled, fun h => lexUpTo_of_spelled h (Nat.le_refl _)⟩

/-! ### Words side by side -/

def Token.isWord : Token → Bool
  | .word _ => true
  | _ => false

def Separated (tokens : List Token) : Prop := tokens.IsChain fun a b => ¬ (a.isWord = true ∧ b.isWord = true)

theorem Reader.read_word {r r' : Reader} {token : Token} (hword : token.isWord = true)
    (h : r.read token = some r') :
    (∃ value, r'.mode = .after value) ∧ ∀ value, r.mode ≠ .after value := by
  obtain ⟨text, rfl⟩ : ∃ text, token = .word text := by
    cases token with
    | word text => exact ⟨text, rfl⟩
    | mark m => simp [Token.isWord] at hword
    | string body => simp [Token.isWord] at hword
  cases hmode : r.mode with
  | after value =>
    simp only [Reader.read, hmode] at h
    cases hstack : r.stack with
    | nil => simp [Reader.afterToken, hstack] at h
    | cons frame stack => cases frame <;> simp [Reader.afterToken, hstack] at h
  | value | firstItem =>
    simp only [Reader.read, hmode, Reader.valueToken, reduceCtorEq, if_false, Option.some.injEq] at h
    exact ⟨⟨.word text, by rw [← h]⟩, by simp⟩
  | firstKey | key | colon => simp [Reader.read, hmode, Reader.keyToken] at h

theorem separated_of_foldlM {tokens : List Token} {r r' : Reader}
    (h : tokens.foldlM Reader.read r = some r') : Separated tokens := by
  induction tokens generalizing r with
  | nil => exact List.isChain_nil
  | cons token tokens ih =>
    rw [List.foldlM_cons, Option.bind_eq_bind, Option.bind_eq_some_iff] at h
    obtain ⟨r₁, hread, hrest⟩ := h
    cases tokens with
    | nil => exact List.isChain_singleton token
    | cons next tokens =>
      refine List.isChain_cons_cons.2 ⟨?_, ih hrest⟩
      rintro ⟨hword, hnext⟩
      rw [List.foldlM_cons, Option.bind_eq_bind, Option.bind_eq_some_iff] at hrest
      obtain ⟨r₂, hread', -⟩ := hrest
      obtain ⟨⟨value, hafter⟩, -⟩ := Reader.read_word hword hread
      exact (Reader.read_word hnext hread').2 value hafter

theorem separated_of_parseTokens {tokens : List Token} {value : Value}
    (h : parseTokens tokens = some value) : Separated tokens := by
  obtain ⟨r, hread, -⟩ := Option.bind_eq_some_iff.1 h
  exact separated_of_foldlM hread

/-! ### Texts without spaces -/

def spelling (tokens : List Token) : Text := tokens.flatMap Token.text

@[simp] theorem spelling_nil : spelling [] = [] := rfl

@[simp] theorem spelling_cons (token : Token)
    (tokens : List Token) : spelling (token :: tokens) = token.text ++ spelling tokens :=
  List.flatMap_cons

theorem Spelled.spelling {tokens : List Token} {text : Text} (h : Spelled tokens text)
    (hseparated : Separated tokens) :
    Spelled tokens (spelling tokens) := by
  induction h with
  | nil => exact Spelled.nil
  | space _ _ ih => exact ih hseparated
  | mark m _ ih =>
    rw [spelling_cons]
    exact Spelled.mark m (ih hseparated.tail)
  | string hbody _ ih =>
    have hspelled := Spelled.string hbody (ih hseparated.tail)
    rw [spelling_cons, Token.text, List.append_assoc, List.singleton_append]
    exact hspelled
  | @word w tokens text hne hplain hword _ _ ih =>
    rw [spelling_cons, Token.text]
    refine Spelled.word hne hplain hword (fun c hc => ?_) (ih hseparated.tail)
    cases tokens with
    | nil => simp at hc
    | cons next tokens =>
      have hnext := (List.isChain_cons_cons.1 hseparated).1
      cases next with
      | word => exact absurd ⟨rfl, rfl⟩ hnext
      | mark m =>
        obtain rfl : m.unit = c := by simpa [Token.text] using hc
        exact isPlain_unit m
      | string body =>
        obtain rfl : quote = c := by simpa [Token.text] using hc
        exact isPlain_quote

theorem Spelled.not_isSpace {tokens : List Token} {text : Text} (h : Spelled tokens text) :
    ∀ token ∈ tokens, (∀ body, token ≠ .string body) → ∀ c ∈ token.text, isSpace c = false := by
  induction h with
  | nil => simp
  | space _ _ ih => exact ih
  | mark m _ ih =>
    intro token htoken hstring c hc
    rcases List.mem_cons.1 htoken with rfl | htoken
    · rw [List.mem_singleton.1 hc]
      exact (unit_ne m).1
    · exact ih token htoken hstring c hc
  | @string body tokens text _ _ ih =>
    intro token htoken hstring c hc
    rcases List.mem_cons.1 htoken with rfl | htoken
    · exact absurd rfl (hstring body)
    · exact ih token htoken hstring c hc
  | word _ hplain _ _ _ ih =>
    intro token htoken hstring c hc
    rcases List.mem_cons.1 htoken with rfl | htoken
    · have := hplain c hc
      simp only [isPlain, Bool.and_eq_true, Bool.not_eq_true'] at this
      exact this.1.1
    · exact ih token htoken hstring c hc

/-! ### Arrays and objects -/

def Value.isContainer : Value → Bool
  | .array _ => true
  | .object _ => true
  | _ => false

theorem first_of_container {tokens : List Token} {value : Value}
    (h : parseTokens tokens = some value) (hcontainer : value.isContainer = true) :
    ∃ m rest, tokens = .mark m :: rest ∧ (m = .openArray ∨ m = .openObject) := by
  have hatom : ∀ (v : Value) (rest : List Token) (r : Reader), rest.foldlM Reader.read { stack := [], mode := .after v } = some r →
      r = { stack := [], mode := .after v } := by
    intro v rest r hr
    cases rest with
    | nil => exact (Option.some.inj hr).symm
    | cons token rest =>
      rw [List.foldlM_cons] at hr
      simp [Reader.read, Reader.afterToken] at hr
  obtain ⟨r, hread, hfinish⟩ := Option.bind_eq_some_iff.1 h
  cases tokens with
  | nil =>
    rw [← Option.some.inj hread] at hfinish
    simp [Reader.finish] at hfinish
  | cons token rest =>
    rw [List.foldlM_cons, Option.bind_eq_bind, Option.bind_eq_some_iff] at hread
    obtain ⟨r₁, hfirst, hrest⟩ := hread
    cases token with
    | mark m =>
      refine ⟨m, rest, rfl, ?_⟩
      cases m <;> simp [Reader.read, Reader.valueToken] at hfirst ⊢
    | string body =>
      obtain rfl : { stack := [], mode := .after (.string body) } = r₁ := Option.some.inj hfirst
      rw [hatom _ _ _ hrest] at hfinish
      rw [← Option.some.inj hfinish] at hcontainer
      exact absurd hcontainer Bool.false_ne_true
    | word text =>
      obtain rfl : { stack := [], mode := .after (.word text) } = r₁ := Option.some.inj hfirst
      rw [hatom _ _ _ hrest] at hfinish
      rw [← Option.some.inj hfinish] at hcontainer
      exact absurd hcontainer Bool.false_ne_true

end TokenProxy.Lib.JsonText
