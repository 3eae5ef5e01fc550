import TokenProxy.Lib.Substitute

/-!
# Strings as JSON writes them

`escape` is what `JSON.stringify` puts between the quotes, `readString` what a reader finds up to
the closing quote. A text is read back (`readString_escape`). Words of plain characters may be
replaced behind the escapes as well as before them (`substitute_escape`).
-/

namespace TokenProxy.Lib.Json

def hexDigit (n : Nat) : Char := ("0123456789abcdef".toList)[n]?.getD '0'

def hexValue (c : Char) : Option Nat :=
  if '0' ≤ c ∧ c ≤ '9' then some (c.toNat - 48)
  else if 'a' ≤ c ∧ c ≤ 'f' then some (c.toNat - 87)
  else if 'A' ≤ c ∧ c ≤ 'F' then some (c.toNat - 55)
  else none

def shortEscapes : List (Char × Char) :=
  [('"', '"'), ('\\', '\\'), ('\x08', 'b'), ('\x0c', 'f'), ('\n', 'n'), ('\r', 'r'), ('\t', 't')]

def escapeChar (c : Char) : List Char :=
  match shortEscapes.find? fun e => e.1 = c with
  | some (_, letter) => ['\\', letter]
  | none => if c.toNat < 0x20 then ['\\', 'u', '0', '0', hexDigit (c.toNat / 16), hexDigit (c.toNat % 16)] else [c]

/-- `JSON.stringify(text).slice(1, -1)` -/
def escape (text : List Char) : List Char := text.flatMap escapeChar

/-- The character that a letter behind a backslash stands for; a slash may stand there too. -/
def unescapeLetter (letter : Char) : Option Char :=
  if letter = '/' then some '/' else (shortEscapes.find? fun e => e.2 = letter).map (·.1)

def readHex (a b c d : Char) : Option Char := do
  let value := (← hexValue a) * 4096 + (← hexValue b) * 256 + (← hexValue c) * 16 + (← hexValue d)
  if value.isValidChar then some (Char.ofNat value) else none

/-- The string up to its closing quote, and what follows the quote. -/
def readString : List Char → Option (List Char × List Char)
  | [] => none
  | '"' :: rest => some ([], rest)
  | '\\' :: 'u' :: a :: b :: c :: d :: rest => do
    let ch ← readHex a b c d
    let (text, after) ← readString rest
    return (ch :: text, after)
  | '\\' :: letter :: rest => do
    let ch ← unescapeLetter letter
    let (text, after) ← readString rest
    return (ch :: text, after)
  | c :: rest => do
    if c = '\\' ∨ c.toNat < 0x20 then none
    else
      let (text, after) ← readString rest
      return (c :: text, after)

@[simp] theorem escape_nil : escape [] = [] := rfl

@[simp] theorem escape_cons (c : Char) (text : List Char) :
    escape (c :: text) = escapeChar c ++ escape text := by
  simp [escape]

theorem escape_append (s t : List Char) : escape (s ++ t) = escape s ++ escape t := by
  simp [escape]

def Plain (c : Char) : Prop := c ≠ '"' ∧ c ≠ '\\' ∧ 0x20 ≤ c.toNat

instance (c : Char) : Decidable (Plain c) := inferInstanceAs (Decidable (_ ∧ _ ∧ _))

theorem unescapeLetter_shortEscapes : ∀ e ∈ shortEscapes, unescapeLetter e.2 = some e.1 ∧ e.2 ≠ 'u' := by decide

theorem readHex_hexDigit : ∀ n < 0x20, readHex '0' '0' (hexDigit (n / 16)) (hexDigit (n % 16)) = some (Char.ofNat n) := by
  decide

theorem escapeChar_cases (c : Char) :
    (Plain c ∧ escapeChar c = [c]) ∨
    (∃ letter, unescapeLetter letter = some c ∧ letter ≠ 'u' ∧ escapeChar c = ['\\', letter]) ∨
    (∃ n < 0x20, c = Char.ofNat n ∧ escapeChar c = ['\\', 'u', '0', '0', hexDigit (n / 16), hexDigit (n % 16)]) := by
  unfold escapeChar
  cases hshort : shortEscapes.find? fun e => e.1 = c with
  | some e =>
    obtain ⟨hletter, hu⟩ := unescapeLetter_shortEscapes e (List.mem_of_find?_eq_some hshort)
    have hc := List.find?_some hshort
    simp only [decide_eq_true_eq] at hc
    exact .inr (.inl ⟨e.2, by rw [hletter, hc], hu, rfl⟩)
  | none =>
    rw [List.find?_eq_none] at hshort
    by_cases hcontrol : c.toNat < 0x20
    · exact .inr (.inr ⟨c.toNat, hcontrol, (Char.ofNat_toNat c).symm, if_pos hcontrol⟩)
    · refine .inl ⟨⟨?_, ?_, by omega⟩, if_neg hcontrol⟩
      · rintro rfl
        exact hshort ('"', '"') (by decide) (by decide)
      · rintro rfl
        exact hshort ('\\', '\\') (by decide) (by decide)

theorem escapeChar_plain {c : Char} (hc : Plain c) : escapeChar c = [c] := by
  obtain ⟨hquote, hbackslash, hprintable⟩ := hc
  have hnone : (shortEscapes.find? fun e => e.1 = c) = none := by
    rw [List.find?_eq_none]
    intro e he hec
    simp only [decide_eq_true_eq] at hec
    subst hec
    have hall : ∀ e ∈ shortEscapes, e.1 = '"' ∨ e.1 = '\\' ∨ e.1.toNat < 0x20 := by decide
    rcases hall e he with h | h | h
    · exact hquote h
    · exact hbackslash h
    · omega
  unfold escapeChar
  rw [hnone]
  exact if_neg (by omega)

theorem escape_plain {text : List Char} (h : ∀ c ∈ text, Plain c) : escape text = text := by
  induction text with
  | nil => rfl
  | cons c text ih =>
    rw [escape_cons, escapeChar_plain (h c List.mem_cons_self), ih fun d hd => h d (List.mem_cons_of_mem c hd)]
    rfl

theorem readString_escapeChar (c : Char) (rest : List Char) :
    readString (escapeChar c ++ rest) = (readString rest).map fun r => (c :: r.1, r.2) := by
  rcases escapeChar_cases c with ⟨⟨hquote, hbackslash, hprintable⟩, h⟩ | ⟨letter, hletter, hu, h⟩ | ⟨n, hn, hc, h⟩
  · have hletter : ¬ (c = '\\' ∨ c.toNat < 0x20) := by
      rw [not_or]
      exact ⟨hbackslash, by omega⟩
    rw [h, List.singleton_append, readString, if_neg hletter]
    · cases readString rest <;> rfl
    · exact hquote
    · exact fun _ _ _ _ _ hc => absurd hc hbackslash
    · exact fun _ _ hc => absurd hc hbackslash
  · rw [h, List.cons_append, List.singleton_append, readString, hletter]
    · cases readString rest <;> rfl
    · exact fun _ _ _ _ _ hletter' => absurd hletter' hu
  · rw [h]
    show readString ('\\' :: 'u' :: '0' :: '0' :: hexDigit (n / 16) :: hexDigit (n % 16) :: rest) = _
    rw [readString, readHex_hexDigit n hn, ← hc]
    cases readString rest <;> rfl

/-- **A text is read back.** -/
theorem readString_escape (text rest : List Char) : readString (escape text ++ '"' :: rest) = some (text, rest) := by
  induction text with
  | nil => rfl
  | cons c text ih =>
    rw [escape_cons, List.append_assoc, readString_escapeChar, ih]
    rfl

/-! ### Replacing words in a string -/

def escapeSigns : List Char := "\\\"bfnrtu0123456789abcdef".toList

theorem escapeChar_not_plain {c : Char} (hc : ¬ Plain c) : ∀ d ∈ escapeChar c, d ∈ escapeSigns := by
  have hshort : ∀ e ∈ shortEscapes, e.2 ∈ escapeSigns := by decide
  have hhex : ∀ n < 0x20, hexDigit (n / 16) ∈ escapeSigns ∧ hexDigit (n % 16) ∈ escapeSigns := by decide
  unfold escapeChar
  split
  · rename_i e heq
    have hletter := hshort _ (List.mem_of_find?_eq_some heq)
    have hbackslash : '\\' ∈ escapeSigns := by decide
    simp [hbackslash, hletter]
  · rename_i hnone
    split
    · rename_i hcontrol
      have hfirst : '\\' ∈ escapeSigns ∧ 'u' ∈ escapeSigns ∧ '0' ∈ escapeSigns := by decide
      simp [hfirst, hhex c.toNat hcontrol]
    · rename_i hprintable
      refine absurd ⟨?_, ?_, by omega⟩ hc
      · rintro rfl
        exact absurd hnone (by decide)
      · rintro rfl
        exact absurd hnone (by decide)

theorem isPrefix_escape {w : List Char} (hw : ∀ c ∈ w, Plain c)
    (text : List Char) : w <+: escape text ↔ w <+: text := by
  constructor
  · intro h
    induction w generalizing text with
    | nil => exact List.nil_prefix
    | cons d w ih =>
      cases text with
      | nil => exact absurd h (by simp)
      | cons c text =>
        rw [escape_cons] at h
        rcases escapeChar_cases c with ⟨-, hsame⟩ | ⟨_, -, -, hesc⟩ | ⟨_, -, -, hesc⟩
        · rw [hsame, List.singleton_append, List.cons_prefix_cons] at h
          rw [List.cons_prefix_cons]
          exact ⟨h.1, ih (fun c hc => hw c (List.mem_cons_of_mem d hc)) text h.2⟩
        · rw [hesc, List.cons_append, List.cons_prefix_cons] at h
          exact absurd h.1 (hw d List.mem_cons_self).2.1
        · rw [hesc, List.cons_append, List.cons_prefix_cons] at h
          exact absurd h.1 (hw d List.mem_cons_self).2.1
  · rintro ⟨rest, rfl⟩
    rw [escape_append, escape_plain hw]
    exact List.prefix_append w _

theorem isInfix_escape {w : List Char} (hw : ∀ c ∈ w, Plain c) (hne : w ≠ [])
    (hmark : ∀ d t, w = d :: t → d ∉ escapeSigns) {text : List Char} (h : w <:+: escape text) :
    w <:+: text := by
  induction text with
  | nil => exact h
  | cons c text ih =>
    by_cases hc : Plain c
    · rw [escape_cons, escapeChar_plain hc, List.singleton_append, List.infix_cons_iff] at h
      rw [List.infix_cons_iff]
      rcases h with h | h
      · refine .inl ((isPrefix_escape hw (c :: text)).mp ?_)
        rwa [escape_cons, escapeChar_plain hc]
      · exact .inr (ih h)
    · have hsigns := escapeChar_not_plain hc
      rw [escape_cons] at h
      generalize escapeChar c = signs at h hsigns
      induction signs with
      | nil => exact List.infix_cons (ih h)
      | cons d signs ihs =>
        rw [List.cons_append, List.infix_cons_iff] at h
        rcases h with h | h
        · cases w with
          | nil => exact absurd rfl hne
          | cons x t =>
            rw [List.cons_prefix_cons] at h
            exact absurd (hsigns d List.mem_cons_self) (h.1 ▸ hmark x t rfl)
        · exact ihs h fun d' hd' => hsigns d' (List.mem_cons_of_mem d hd')

section Replacing

variable {words : Set (List Char)} {table : List (List Char × List Char)}

def escaped (table : List (List Char × List Char)) : List (List Char × List Char) :=
  table.map fun e => (e.1, escape e.2)

/-- Words of plain characters, none of which begins as an escape goes on. -/
structure PlainWords (words : Set (List Char)) : Prop where
  marked : Marked words
  plain : ∀ w ∈ words, ∀ c ∈ w, Plain c
  mark_notMem : ∀ c t, c :: t ∈ words → c ∉ escapeSigns

theorem lookupWord_escaped (text : List Char) :
    lookupWord (escaped table) text = (lookupWord table text).map fun e => (e.1, escape e.2) := by
  unfold lookupWord escaped
  rw [List.find?_map]
  rfl

theorem forall_escaped (P : List Char → Prop)
    (h : ∀ e ∈ table, P e.1) : ∀ e ∈ escaped table, P e.1 := by
  intro e he
  obtain ⟨e', he', rfl⟩ := List.mem_map.mp he
  exact h e' he'

/-- **Behind the escapes as before them.** -/
theorem substitute_escape (hwords : PlainWords words) (htable : ∀ e ∈ table, e.1 ∈ words)
    (text : List Char) :
    substitute (escaped table) (escape text) = escape (substitute table text) := by
  have hne : ∀ e ∈ table, e.1 ≠ [] := fun e he => hwords.marked.ne_nil _ (htable e he)
  induction text using substitute_induction hne with
  | nil => rfl
  | word w r text hlookup ih =>
    have hw : w ∈ words := htable _ (lookupWord_some hlookup).1
    have hbehind : lookupWord (escaped table) (w ++ escape text) = some (w, escape r) := by
      rw [lookupWord_escaped, lookupWord_append hwords.marked htable hw (escape text) text, hlookup]
      rfl
    have hsame : escape w = w := escape_plain (hwords.plain w hw)
    rw [substitute_word (hwords.marked.ne_nil w hw) hlookup, escape_append, escape_append, hsame,
      substitute_word (hwords.marked.ne_nil w hw) hbehind, ih]
  | sign c text hlookup ih =>
    rw [substitute_cons hlookup, escape_cons, escape_cons]
    by_cases hc : Plain c
    · have hbehind : lookupWord (escaped table) (c :: escape text) = none := by
        apply lookupWord_eq_none
        apply forall_escaped fun w => ¬ w <+: c :: escape text
        intro e he hbegin
        apply not_isPrefix_of_lookupWord hlookup he
        rw [← isPrefix_escape (hwords.plain _ (htable e he)), escape_cons, escapeChar_plain hc]
        exact hbegin
      rw [escapeChar_plain hc, List.singleton_append, substitute_cons hbehind, ih, List.singleton_append]
    · have hunmarked : Unmarked words (escapeChar c) :=
        fun d hd t ht => hwords.mark_notMem d t ht (escapeChar_not_plain hc d hd)
      rw [substitute_unmarked_append (forall_escaped (· ∈ words) htable) hwords.marked hunmarked, ih]

theorem replaceInTurn_escape (hwords : PlainWords words) (htable : ∀ e ∈ table, e.1 ∈ words)
    (text : List Char) :
    replaceInTurn (escaped table) (escape text) = escape (replaceInTurn table text) := by
  induction table generalizing text with
  | nil => rfl
  | cons e table ih =>
    have hfirst : replaceAll e.1 (escape e.2) (escape text) = escape (replaceAll e.1 e.2 text) :=
      @substitute_escape words [(e.1, e.2)] hwords (fun e' he' => htable e' (by simp_all)) text
    show replaceInTurn (escaped table) (replaceAll e.1 (escape e.2) (escape text)) = _
    rw [hfirst]
    exact ih (fun e' he' => htable e' (List.mem_cons_of_mem e he')) _

theorem clean_escape (hwords : PlainWords words) (htable : ∀ e ∈ table, e.1 ∈ words)
    {text : List Char} (h : Clean table text) : Clean (escaped table) (escape text) := by
  apply forall_escaped fun w => ¬ w <:+: escape text
  intro e he hwithin
  have hword := htable e he
  exact h e he (isInfix_escape (hwords.plain _ hword) (hwords.marked.ne_nil _ hword)
    (fun d t hdt => hwords.mark_notMem d t (hdt ▸ hword)) hwithin)

end Replacing

end TokenProxy.Lib.Json
