import Mathlib.Data.List.Sort
import TokenProxy.Lib.AppendCons
import TokenProxy.Lib.JsonString

/-!
# The privacy filter

One filter owns one request: it numbers the aliases that the values of the request were given, and
puts the values back in their place, the longest alias first. Aliases have a mark, a letter or a
bracket that stands nowhere else in an alias (`plainWords_aliases`), so two of them never overlap.
-/

namespace TokenProxy.Privacy

open Lib Lib.Json

def aliasDomain : List Char := "redacted.invalid".toList

/-- What a value was replaced by: `p${seq}@redacted.invalid` for an address,
`[redacted-${seq}]` for a term. -/
inductive Alias where
  | email (seq : Nat)
  | literal (seq : Nat)
  deriving DecidableEq

namespace Alias

def seq : Alias → Nat
  | email seq => seq
  | literal seq => seq

def text : Alias → List Char
  | email seq => 'p' :: (Nat.toDigits 10 seq ++ '@' :: aliasDomain)
  | literal seq => '[' :: ("redacted-".toList ++ (Nat.toDigits 10 seq ++ [']']))

end Alias

/-- The aliases in the order in which they were given, each with what it stands for. -/
structure PrivacyFilter where
  toOriginal : List (Alias × List Char)
  numbered : toOriginal.map (·.1.seq) = List.range' 1 toOriginal.length

namespace PrivacyFilter

def empty : PrivacyFilter := ⟨[], rfl⟩

def size (filter : PrivacyFilter) : Nat := filter.toOriginal.length

def aliasFor (filter : PrivacyFilter) (original : List Char)
    (emailShaped : Bool) : PrivacyFilter × Alias :=
  match filter.toOriginal.find? fun e => e.2 = original with
  | some (known, _) => (filter, known)
  | none =>
    let seq := filter.size + 1
    let next := if emailShaped then Alias.email seq else Alias.literal seq
    have hseq : next.seq = seq := by cases emailShaped <;> rfl
    (⟨filter.toOriginal ++ [(next, original)], by
      simp [filter.numbered, hseq, List.range'_concat, seq, size, Nat.add_comm]⟩, next)

/-- The longest alias first, and among those of one length the earlier one. -/
def sorted (filter : PrivacyFilter) : List (Alias × List Char) :=
  filter.toOriginal.insertionSort fun a b => b.1.text.length ≤ a.1.text.length

def aliases (filter : PrivacyFilter) : List (List Char) := filter.sorted.map (·.1.text)

def originals (filter : PrivacyFilter) : List (List Char × List Char) := filter.sorted.map fun e => (e.1.text, e.2)

def replaceAliases (filter : PrivacyFilter) (text : List Char)
    (escape : List Char → List Char) : List Char :=
  if text = [] ∨ filter.size = 0 then text
  else replaceInTurn (filter.sorted.map fun e => (e.1.text, escape e.2)) text

def restore (filter : PrivacyFilter) (text : List Char) : List Char := filter.replaceAliases text id

def restoreJson (filter : PrivacyFilter) (text : List Char) : List Char := filter.replaceAliases text escape

end PrivacyFilter

/-! ### Aliases do not overlap -/

def aliasWords : Set (List Char) := Set.range Alias.text

theorem isDigit_of_mem {seq : Nat} {c : Char} (hc : c ∈ Nat.toDigits 10 seq) : c.isDigit :=
  Nat.isDigit_of_mem_toDigits (by decide) (by decide) hc

theorem notMem_digits {seq : Nat} {c : Char} (hc : c.isDigit = false) :
    c ∉ Nat.toDigits 10 seq := by
  intro hmem
  rw [isDigit_of_mem hmem] at hc
  exact absurd hc (by decide)

theorem plain_of_isDigit {c : Char} (hc : c.isDigit) : Plain c := by
  have hrange : 48 ≤ c.val ∧ c.val ≤ 57 := by simpa [Char.isDigit] using hc
  have hlow : 48 ≤ c.toNat := hrange.1
  have hhigh : c.toNat ≤ 57 := hrange.2
  refine ⟨?_, ?_, by omega⟩
  · rintro rfl
    exact absurd hlow (by decide)
  · rintro rfl
    exact absurd hhigh (by decide)

theorem Alias.mark_notMem_tail (a : Alias) {c : Char} (hc : c = 'p' ∨ c = '[') : c ∉ a.text.tail := by
  have hdigit : c.isDigit = false := by rcases hc with rfl | rfl <;> decide
  cases a with
  | email seq =>
    have hrest : c ∉ '@' :: aliasDomain := by rcases hc with rfl | rfl <;> decide
    simp only [Alias.text, List.tail_cons, List.mem_append, not_or]
    exact ⟨notMem_digits hdigit, hrest⟩
  | literal seq =>
    have hfront : c ∉ "redacted-".toList := by rcases hc with rfl | rfl <;> decide
    have hrest : c ∉ [']'] := by rcases hc with rfl | rfl <;> decide
    simp only [Alias.text, List.tail_cons, List.mem_append, not_or]
    exact ⟨hfront, notMem_digits hdigit, hrest⟩

theorem Alias.mark {a : Alias} {c : Char} {t : List Char} (h : a.text = c :: t) :
    c = 'p' ∨ c = '[' := by
  cases a with
  | email seq =>
    rw [Alias.text, List.cons.injEq] at h
    exact .inl h.1.symm
  | literal seq =>
    rw [Alias.text, List.cons.injEq] at h
    exact .inr h.1.symm

theorem Alias.text_eq_of_isPrefix {a b : Alias} (h : a.text <+: b.text) : a.text = b.text := by
  obtain ⟨rest, hrest⟩ := h
  cases a with
  | email m =>
    cases b with
    | email n =>
      simp only [Alias.text, List.cons_append, List.append_assoc, List.cons.injEq, true_and] at hrest
      have hat : ∀ k, '@' ∉ Nat.toDigits 10 k := fun k => notMem_digits (by decide)
      obtain ⟨hsame, -⟩ := eq_of_append_cons_eq (hat m) (hat n) hrest
      rw [Alias.text, Alias.text, hsame]
    | literal n => simp [Alias.text] at hrest
  | literal m =>
    cases b with
    | email n => simp [Alias.text] at hrest
    | literal n =>
      simp only [Alias.text, List.cons_append, List.append_assoc, List.cons.injEq, true_and, List.append_cancel_left_eq,
        List.nil_append] at hrest
      have hbracket : ∀ k, ']' ∉ Nat.toDigits 10 k := fun k => notMem_digits (by decide)
      obtain ⟨hsame, -⟩ := eq_of_append_cons_eq (hbracket m) (hbracket n) hrest
      rw [Alias.text, Alias.text, hsame]

theorem marked_aliases : Marked aliasWords where
  ne_nil := by
    rintro w ⟨a, rfl⟩
    cases a <;> simp [Alias.text]
  head_notMem := by
    rintro c t ⟨a, ha⟩ w ⟨b, rfl⟩
    exact b.mark_notMem_tail (Alias.mark ha)
  atomic := by
    rintro v ⟨a, rfl⟩ w ⟨b, rfl⟩ h
    exact Alias.text_eq_of_isPrefix h

theorem plain_of_all {letters : List Char} (h : letters.all fun d => decide (Plain d)) {c : Char}
    (hc : c ∈ letters) :
    Plain c := by
  rw [List.all_eq_true] at h
  exact of_decide_eq_true (h c hc)

theorem Alias.plain {a : Alias} {c : Char} (hc : c ∈ a.text) : Plain c := by
  have hdigits (seq : Nat) (h : c ∈ Nat.toDigits 10 seq) : Plain c := plain_of_isDigit (isDigit_of_mem h)
  cases a with
  | email seq =>
    simp only [Alias.text, List.mem_cons, List.mem_append] at hc
    rcases hc with rfl | hc | rfl | hc
    · decide
    · exact hdigits seq hc
    · decide
    · exact @plain_of_all aliasDomain (by decide) c hc
  | literal seq =>
    simp only [Alias.text, List.mem_cons, List.mem_append, List.not_mem_nil, or_false] at hc
    rcases hc with rfl | hc | hc | rfl
    · decide
    · exact @plain_of_all "redacted-".toList (by decide) c hc
    · exact hdigits seq hc
    · decide

/-- **Aliases are plain words with marks.** -/
theorem plainWords_aliases : PlainWords aliasWords where
  marked := marked_aliases
  plain := by
    rintro w ⟨a, rfl⟩ c hc
    exact Alias.plain hc
  mark_notMem := by
    rintro c t ⟨a, ha⟩
    rcases Alias.mark ha with rfl | rfl <;> decide

end TokenProxy.Privacy
