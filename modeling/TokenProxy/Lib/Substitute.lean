import Mathlib.Data.List.Infix
import Mathlib.Data.Set.Basic

/-!
# Replacing words in a text

`substitute` replaces the words of a table from left to right, each occurrence once; `replaceInTurn`
replaces every occurrence of one word, then of the next. The words are `Marked`: the sign a word
begins with stands nowhere else in a word, so no two occurrences overlap. A text may be cut where no
word crosses (`substitute_append`), and the two replacements agree where nothing is left to replace
(`replaceInTurn_eq_substitute`).
-/

namespace TokenProxy.Lib

variable {α : Type*}

/-- The sign that a word begins with stands nowhere else in a word, and no word begins another. -/
structure Marked (words : Set (List α)) : Prop where
  ne_nil : ∀ w ∈ words, w ≠ []
  head_notMem : ∀ c t, c :: t ∈ words → ∀ w ∈ words, c ∉ w.tail
  atomic : ∀ v ∈ words, ∀ w ∈ words, v <+: w → v = w

/-- A word that stands across the end of one text and the beginning of the next. -/
def Crosses (words : Set (List α)) (x y : List α) : Prop :=
  ∃ u v, u ++ v ∈ words ∧ u ≠ [] ∧ v ≠ [] ∧ u <:+ x ∧ v <+: y

def Unmarked (words : Set (List α)) (text : List α) : Prop := ∀ c ∈ text, ∀ t, c :: t ∉ words

/-! ### Where a word may stand -/

section Words

variable {words : Set (List α)}

theorem Crosses.of_isSuffix {x x' y : List α} (hx : x' <:+ x)
    (h : Crosses words x' y) : Crosses words x y := by
  obtain ⟨u, v, hword, hu, hv, hsuffix, hbegin⟩ := h
  exact ⟨u, v, hword, hu, hv, hsuffix.trans hx, hbegin⟩

theorem Crosses.of_isPrefix {x y y' : List α} (hy : y' <+: y)
    (h : Crosses words x y') : Crosses words x y := by
  obtain ⟨u, v, hword, hu, hv, hsuffix, hbegin⟩ := h
  exact ⟨u, v, hword, hu, hv, hsuffix, hbegin.trans hy⟩

theorem not_crosses_nil_left {y : List α} : ¬ Crosses words [] y := by
  rintro ⟨u, v, -, hu, -, hsuffix, -⟩
  exact hu (List.suffix_nil.mp hsuffix)

theorem not_crosses_append {x y z : List α} (hleft : ¬ Crosses words x (y ++ z))
    (hright : ¬ Crosses words y z) :
    ¬ Crosses words (x ++ y) z := by
  rintro ⟨u, v, hword, hu, hv, hsuffix, hbegin⟩
  rcases List.suffix_or_suffix_of_suffix hsuffix (List.suffix_append x y) with h | ⟨front, hfront⟩
  · exact hright ⟨u, v, hword, hu, hv, h, hbegin⟩
  · by_cases hnil : front = []
    · rw [hnil, List.nil_append] at hfront
      exact hright ⟨u, v, hword, hu, hv, hfront ▸ List.suffix_refl y, hbegin⟩
    · rw [← hfront, List.append_assoc] at hword
      rw [← hfront, List.suffix_append_self_iff] at hsuffix
      have hrest : y ++ v <+: y ++ z := (List.prefix_append_right_inj y).mpr hbegin
      exact hleft ⟨front, y ++ v, hword, hnil, by simp [hv], hsuffix, hrest⟩

theorem isPrefix_append_iff {w x y : List α} (hw : w ∈ words) (hx : x ≠ [])
    (h : ¬ Crosses words x y) :
    w <+: x ++ y ↔ w <+: x := by
  constructor
  · intro hbegin
    rcases List.prefix_or_prefix_of_prefix hbegin (List.prefix_append x y) with hshort | ⟨v, rfl⟩
    · exact hshort
    by_cases hnil : v = []
    · rw [hnil, List.append_nil]
    rw [List.prefix_append_right_inj] at hbegin
    exact absurd ⟨x, v, hw, hx, hnil, List.suffix_refl x, hbegin⟩ h
  · intro hbegin
    exact hbegin.trans (List.prefix_append x y)

theorem not_crosses_cons {c : α} (hc : ∀ w ∈ words, c ∉ w)
    (x y : List α) : ¬ Crosses words x (c :: y) := by
  rintro ⟨u, v, hword, -, hv, -, hbegin⟩
  cases v with
  | nil => exact hv rfl
  | cons d v =>
    rw [List.cons_prefix_cons] at hbegin
    exact hc _ hword (by simp [hbegin.1])

theorem isInfix_append_cons {w x y : List α} {c : α} (hc : c ∉ w)
    (h : w <:+: x ++ c :: y) : w <:+: x ∨ w <:+: y := by
  obtain ⟨s, t, hst⟩ := h
  rw [List.append_assoc] at hst
  rcases List.append_eq_append_iff.mp hst with ⟨rest, hx, hrest⟩ | ⟨rest, hs, hrest⟩
  · rcases List.append_eq_append_iff.mp hrest with ⟨rest', hrest', ht⟩ | ⟨rest', hw, ht⟩
    · exact .inl ⟨s, rest', by rw [hx, hrest', List.append_assoc]⟩
    · cases rest' with
      | nil => exact .inl ⟨s, [], by simp [hx, hw]⟩
      | cons d rest' =>
        simp only [List.cons_append, List.cons.injEq] at ht
        exact absurd (by simp [hw, ht.1]) hc
  · cases rest with
    | nil =>
      cases w with
      | nil => exact .inl ⟨[], x, rfl⟩
      | cons d w =>
        simp only [List.nil_append, List.cons_append, List.cons.injEq] at hrest
        exact absurd (by simp [hrest.1]) hc
    | cons d rest =>
      simp only [List.cons_append, List.cons.injEq] at hrest
      exact .inr ⟨rest, t, by rw [hrest.2, List.append_assoc]⟩

end Words

variable [DecidableEq α]

def lookupWord (table : List (List α × List α)) (text : List α) : Option (List α × List α) :=
  table.find? fun e => e.1.isPrefixOf text

def substituteFrom (table : List (List α × List α)) : Nat → List α → List α
  | _, [] => []
  | skip + 1, _ :: text => substituteFrom table skip text
  | 0, c :: text =>
    match lookupWord table (c :: text) with
    | some (word, replacement) => replacement ++ substituteFrom table (word.length - 1) text
    | none => c :: substituteFrom table 0 text

/-- The words of the table give way to their replacements, which are not read again. -/
def substitute (table : List (List α × List α))
    (text : List α) : List α := substituteFrom table 0 text

/-- `text.split(word).join(replacement)` -/
def replaceAll (word replacement text : List α) : List α := substitute [(word, replacement)] text

def replaceInTurn (table : List (List α × List α)) (text : List α) : List α :=
  table.foldl (fun text e => replaceAll e.1 e.2 text) text

/-! ### One word at a time -/

section Reading

variable {table : List (List α × List α)}

theorem lookupWord_eq_none {text : List α} (h : ∀ e ∈ table, ¬ e.1 <+: text) :
    lookupWord table text = none := by
  unfold lookupWord
  rw [List.find?_eq_none]
  intro e he
  simpa using h e he

theorem not_isPrefix_of_lookupWord {text : List α} (h : lookupWord table text = none)
    {e : List α × List α} (he : e ∈ table) : ¬ e.1 <+: text := by
  unfold lookupWord at h
  rw [List.find?_eq_none] at h
  simpa using h e he

theorem lookupWord_some {text : List α} {e : List α × List α} (h : lookupWord table text = some e) :
    e ∈ table ∧ e.1 <+: text := by
  refine ⟨List.mem_of_find?_eq_some h, ?_⟩
  have hprop := List.find?_some h
  simpa using hprop

theorem lookupWord_congr {s t : List α} (h : ∀ e ∈ table, e.1 <+: s ↔ e.1 <+: t) :
    lookupWord table s = lookupWord table t := by
  unfold lookupWord
  induction table with
  | nil => rfl
  | cons e table ih =>
    have he := h e List.mem_cons_self
    rw [List.find?_cons, List.find?_cons, ih fun e' he' => h e' (List.mem_cons_of_mem e he')]
    have hsame : e.1.isPrefixOf s = e.1.isPrefixOf t := by
      rw [Bool.eq_iff_iff]
      simpa using he
    rw [hsame]

theorem substituteFrom_eq (skip : Nat) (text : List α) :
    substituteFrom table skip text = substitute table (text.drop skip) := by
  induction text generalizing skip with
  | nil =>
    rw [List.drop_nil]
    cases skip <;> simp [substitute, substituteFrom]
  | cons c text ih =>
    cases skip with
    | zero => simp [substitute]
    | succ skip =>
      rw [List.drop_succ_cons, ← ih]
      rfl

@[simp] theorem substitute_nil : substitute table ([] : List α) = [] := rfl

theorem substitute_word {word replacement text : List α} (hne : word ≠ [])
    (h : lookupWord table (word ++ text) = some (word, replacement)) :
    substitute table (word ++ text) = replacement ++ substitute table text := by
  cases word with
  | nil => exact absurd rfl hne
  | cons c word =>
    rw [List.cons_append] at h ⊢
    show substituteFrom table 0 (c :: (word ++ text)) = _
    rw [substituteFrom, h]
    simp only
    rw [substituteFrom_eq, List.length_cons, Nat.add_sub_cancel, List.drop_left]

theorem substitute_cons {c : α} {text : List α} (h : lookupWord table (c :: text) = none) :
    substitute table (c :: text) = c :: substitute table text := by
  show substituteFrom table 0 (c :: text) = _
  rw [substituteFrom, h]
  rfl

theorem replaceAll_word {w : List α} (hne : w ≠ []) (replacement text : List α) :
    replaceAll w replacement (w ++ text) = replacement ++ replaceAll w replacement text := by
  apply substitute_word hne
  unfold lookupWord
  rw [List.find?_cons_of_pos]
  simp

theorem replaceAll_sign {w replacement : List α} {c : α} {text : List α} (h : ¬ w <+: c :: text) :
    replaceAll w replacement (c :: text) = c :: replaceAll w replacement text := by
  apply substitute_cons
  apply lookupWord_eq_none
  intro e he
  rwa [List.mem_singleton.mp he]

theorem substitute_induction (hne : ∀ e ∈ table, e.1 ≠ []) {P : List α → Prop} (nil : P [])
    (word : ∀ w r text, lookupWord table (w ++ text) = some (w, r) → P text → P (w ++ text))
    (sign : ∀ c text, lookupWord table (c :: text) = none → P text → P (c :: text)) (text : List α) : P text := by
  induction hn : text.length using Nat.strong_induction_on generalizing text with
  | h n ih =>
    cases text with
    | nil => exact nil
    | cons c text =>
      cases hlookup : lookupWord table (c :: text) with
      | none => exact sign c text hlookup (ih text.length (by simp [← hn]) text rfl)
      | some e =>
        obtain ⟨he, rest, hrest⟩ := lookupWord_some hlookup
        have hpos : 0 < e.1.length := List.length_pos_of_ne_nil (hne e he)
        rw [← hrest] at hlookup hn ⊢
        rw [List.length_append] at hn
        exact word e.1 e.2 rest hlookup (ih rest.length (by omega) rest rfl)

end Reading

/-! ### Where a text may be cut -/

section Cutting

variable {words : Set (List α)} {table : List (List α × List α)}

/-- **A text may be cut where no word crosses.** -/
theorem substitute_append (hne : ∀ e ∈ table, e.1 ≠ []) (hwords : ∀ e ∈ table, e.1 ∈ words)
    {x y : List α}
    (h : ¬ Crosses words x y) :
    substitute table (x ++ y) = substitute table x ++ substitute table y := by
  have hsame (x' : List α) (hx : x' ≠ []) (hcut : ¬ Crosses words x' y) :
      lookupWord table (x' ++ y) = lookupWord table x' :=
    lookupWord_congr fun e he => isPrefix_append_iff (hwords e he) hx hcut
  induction x using substitute_induction hne with
  | nil => simp
  | word w r x hlookup ih =>
    have hw : w ≠ [] := hne (w, r) (lookupWord_some hlookup).1
    have hlonger := hsame (w ++ x) (by simp [hw]) h
    rw [hlookup, List.append_assoc] at hlonger
    rw [List.append_assoc, substitute_word hw hlonger, substitute_word hw hlookup,
      ih fun hcross => h (hcross.of_isSuffix (List.suffix_append w x)), List.append_assoc]
  | sign c x hlookup ih =>
    have hlonger := hsame (c :: x) (by simp) h
    rw [hlookup, List.cons_append] at hlonger
    rw [List.cons_append, substitute_cons hlonger, substitute_cons hlookup,
      ih fun hcross => h (hcross.of_isSuffix (List.suffix_cons c x)), List.cons_append]

theorem substitute_eq_self {text : List α} (h : ∀ e ∈ table, ¬ e.1 <:+: text) :
    substitute table text = text := by
  induction text with
  | nil => rfl
  | cons c text ih =>
    have hlookup : lookupWord table (c :: text) = none :=
      lookupWord_eq_none fun e he hbegin => h e he hbegin.isInfix
    rw [substitute_cons hlookup, ih fun e he hwithin => h e he (hwithin.trans (List.infix_cons (List.infix_refl text)))]

theorem substitute_append_cons (hne : ∀ e ∈ table, e.1 ≠ []) {c : α} (hc : ∀ e ∈ table, c ∉ e.1)
    (x y : List α) :
    substitute table (x ++ c :: y) = substitute table x ++ c :: substitute table y := by
  have hcut : ¬ Crosses {w | ∃ e ∈ table, e.1 = w} x (c :: y) := by
    apply not_crosses_cons
    rintro w ⟨e, he, rfl⟩
    exact hc e he
  have hwords : ∀ e ∈ table, e.1 ∈ {w | ∃ e ∈ table, e.1 = w} := fun e he => ⟨e, he, rfl⟩
  rw [substitute_append hne hwords hcut]
  congr 1
  apply substitute_cons
  apply lookupWord_eq_none
  intro e he hbegin
  cases hword : e.1 with
  | nil => exact hne e he hword
  | cons d v =>
    rw [hword, List.cons_prefix_cons] at hbegin
    exact hc e he (by simp [hword, hbegin.1])

end Cutting

/-! ### Words with a mark -/

section Marks

variable {words : Set (List α)} {table : List (List α × List α)}

omit [DecidableEq α] in
theorem Marked.subset {words' : Set (List α)} (hwords : Marked words)
    (h : words' ⊆ words) : Marked words' where
  ne_nil w hw := hwords.ne_nil w (h hw)
  head_notMem c t hct w hw := hwords.head_notMem c t (h hct) w (h hw)
  atomic v hv w hw hbegin := hwords.atomic v (h hv) w (h hw) hbegin

omit [DecidableEq α] in
theorem Marked.unmarked {u v : List α} (hwords : Marked words) (hu : u ≠ [])
    (h : u ++ v ∈ words) : Unmarked words v := by
  intro c hc t ht
  cases u with
  | nil => exact hu rfl
  | cons d u => exact hwords.head_notMem c t ht _ h (by simp [hc])

omit [DecidableEq α] in
theorem Marked.not_crosses_word {w : List α} (hwords : Marked words) (hw : w ∈ words)
    (x y : List α) : ¬ Crosses words x (w ++ y) := by
  rintro ⟨u, v, hword, hu, hv, -, hbegin⟩
  cases w with
  | nil => exact hwords.ne_nil _ hw rfl
  | cons c t =>
    cases v with
    | nil => exact hv rfl
    | cons d v =>
      rw [List.cons_append, List.cons_prefix_cons] at hbegin
      obtain ⟨rfl, -⟩ := hbegin
      exact hwords.unmarked hu hword d List.mem_cons_self t hw

omit [DecidableEq α] in
theorem Marked.not_isInfix_stem {u v w : List α} (hwords : Marked words) (hv : v ≠ [])
    (h : u ++ v ∈ words) (hw : w ∈ words) : ¬ w <:+: u := by
  rintro ⟨s, t, rfl⟩
  cases s with
  | nil =>
    have hsame := hwords.atomic w hw _ h (by simp)
    have hlength := congrArg List.length hsame
    have hpos : 0 < v.length := List.length_pos_of_ne_nil hv
    simp only [List.nil_append, List.length_append] at hlength
    omega
  | cons d s =>
    cases w with
    | nil => exact hwords.ne_nil _ hw rfl
    | cons c w => exact hwords.head_notMem c w hw _ h (by simp)

theorem substitute_unmarked_append (htable : ∀ e ∈ table, e.1 ∈ words) (hwords : Marked words)
    {v : List α}
    (hv : Unmarked words v) (text : List α) :
    substitute table (v ++ text) = v ++ substitute table text := by
  induction v with
  | nil => rfl
  | cons c v ih =>
    have hlookup : lookupWord table (c :: (v ++ text)) = none := by
      apply lookupWord_eq_none
      intro e he hbegin
      cases hword : e.1 with
      | nil => exact hwords.ne_nil _ (htable e he) hword
      | cons d t =>
        rw [hword, List.cons_prefix_cons] at hbegin
        apply hv c List.mem_cons_self t
        rw [← hbegin.1, ← hword]
        exact htable e he
    rw [List.cons_append, substitute_cons hlookup, ih fun c' hc' => hv c' (List.mem_cons_of_mem c hc'), List.cons_append]

theorem substitute_append_stem (htable : ∀ e ∈ table, e.1 ∈ words) (hwords : Marked words)
    {u v : List α} (hu : u ≠ [])
    (hv : v ≠ []) (h : u ++ v ∈ words) (text : List α) :
    substitute table (text ++ u) = substitute table text ++ u := by
  have hcut : ¬ Crosses words text u := by
    rintro ⟨u', v', hword, hu', hv', -, hbegin⟩
    cases u with
    | nil => exact hu rfl
    | cons c u =>
      cases v' with
      | nil => exact hv' rfl
      | cons d v' =>
        rw [List.cons_prefix_cons] at hbegin
        rw [← hbegin.1] at h
        exact hwords.unmarked hu' hword d List.mem_cons_self _ h
  rw [substitute_append (fun e he => hwords.ne_nil _ (htable e he)) htable hcut]
  rw [substitute_eq_self fun e he => hwords.not_isInfix_stem hv h (htable e he)]

omit [DecidableEq α] in
/-- **A text held back from its longest beginning of a word on**:
whatever follows, no word crosses. -/
theorem Marked.not_crosses_of_longest {kept held : List α} (hwords : Marked words)
    (hheld : held = [] ∨ ∃ v, v ≠ [] ∧ held ++ v ∈ words)
    (hlongest : ∀ u v, u ++ v ∈ words → v ≠ [] → u <:+ kept ++ held → u.length ≤ held.length) (future : List α) :
    ¬ Crosses words kept (held ++ future) := by
  rintro ⟨u, v, hword, hu, hv, hsuffix, hbegin⟩
  rcases List.prefix_or_prefix_of_prefix hbegin (List.prefix_append held future) with ⟨rest, hrest⟩ | ⟨rest, hrest⟩
  · -- The word ends in what is held back, whose first sign begins a word.
    rcases hheld with hnil | ⟨v', hv', hstem⟩
    · rw [hnil] at hrest
      exact hv (List.append_eq_nil_iff.mp hrest).1
    · cases v with
      | nil => exact hv rfl
      | cons c v =>
        rw [← hrest, List.cons_append, List.cons_append] at hstem
        exact hwords.unmarked hu hword c List.mem_cons_self _ hstem
  · -- The word goes on: what stands of it is a longer beginning.
    have hall : u ++ held <:+ kept ++ held := by
      obtain ⟨s, hs⟩ := hsuffix
      exact ⟨s, by rw [← hs, List.append_assoc]⟩
    by_cases hnil : rest = []
    · rcases hheld with hempty | ⟨v', hv', hstem⟩
      · rw [hnil, hempty] at hrest
        exact hv hrest.symm
      · rw [hnil, List.append_nil] at hrest
        cases held with
        | nil => exact hv hrest.symm
        | cons c held =>
          rw [← hrest] at hword
          exact hwords.unmarked hu hword c List.mem_cons_self _ hstem
    · have hlen := hlongest (u ++ held) rest (by rw [List.append_assoc, hrest]; exact hword) hnil hall
      have hpos : 0 < u.length := List.length_pos_of_ne_nil hu
      rw [List.length_append] at hlen
      omega

/-! ### In turn, and all at once -/

def Clean (table : List (List α × List α)) (text : List α) : Prop := ∀ e ∈ table, ¬ e.1 <:+: text

instance (table : List (List α × List α)) (text : List α) : Decidable (Clean table text) :=
  inferInstanceAs (Decidable (∀ e ∈ table, ¬ e.1 <:+: text))

def wordsIn (table : List (List α × List α)) : Set (List α) := {w | ∃ e ∈ table, e.1 = w}

omit [DecidableEq α] in
theorem mem_wordsIn {e : List α × List α} (he : e ∈ table) : e.1 ∈ wordsIn table := ⟨e, he, rfl⟩

theorem substitute_append_of_clean (hwords : Marked words) (htable : ∀ e ∈ table, e.1 ∈ words)
    {x y : List α}
    (hclean : Clean table (x ++ substitute table y)) :
    substitute table (x ++ y) = x ++ substitute table y := by
  have hcut : ¬ Crosses (wordsIn table) x y := by
    rintro ⟨u, v, ⟨e, he, hword⟩, hu, -, ⟨s, hs⟩, t, ht⟩
    have hstays : substitute table y = v ++ substitute table t := by
      rw [← ht]
      exact substitute_unmarked_append htable hwords (hwords.unmarked hu (hword ▸ htable e he)) t
    apply hclean e he
    exact ⟨s, substitute table t, by simp [hword, hstays, ← hs]⟩
  rw [substitute_append (fun e he => hwords.ne_nil _ (htable e he)) (fun e he => mem_wordsIn he) hcut]
  rw [substitute_eq_self fun e he hwithin => hclean e he (hwithin.trans (List.prefix_append x _).isInfix)]

omit [DecidableEq α] in
theorem Marked.isPrefix_append_iff {v w : List α} (hwords : Marked words) (hv : v ∈ words)
    (hw : w ∈ words) (text : List α) :
    v <+: w ++ text ↔ v = w := by
  constructor
  · intro hbegin
    rcases List.prefix_or_prefix_of_prefix hbegin (List.prefix_append w text) with h | h
    · exact hwords.atomic v hv w hw h
    · exact (hwords.atomic w hw v hv h).symm
  · rintro rfl
    exact List.prefix_append v text

theorem lookupWord_append (hwords : Marked words) (htable : ∀ e ∈ table, e.1 ∈ words) {w : List α}
    (hw : w ∈ words)
    (text text' : List α) : lookupWord table (w ++ text) = lookupWord table (w ++ text') :=
  lookupWord_congr fun e he => by
    rw [hwords.isPrefix_append_iff (htable e he) hw, hwords.isPrefix_append_iff (htable e he) hw]

theorem substitute_other_append (hwords : Marked words) (htable : ∀ e ∈ table, e.1 ∈ words)
    {w : List α} (hw : w ∈ words)
    (hother : ∀ e ∈ table, e.1 ≠ w) (text : List α) :
    substitute table (w ++ text) = w ++ substitute table text := by
  cases w with
  | nil => exact absurd rfl (hwords.ne_nil _ hw)
  | cons c w =>
    have hlookup : lookupWord table (c :: (w ++ text)) = none := by
      apply lookupWord_eq_none
      intro e he hbegin
      exact hother e he ((hwords.isPrefix_append_iff (htable e he) hw text).mp hbegin)
    have htail : Unmarked words w := @Marked.unmarked _ _ [c] w hwords (by simp) hw
    rw [List.cons_append, substitute_cons hlookup, substitute_unmarked_append htable hwords htail, List.cons_append]

/-- **A word first, then the others.** -/
theorem substitute_replaceAll {word replacement : List α} (hwords : Marked words)
    (htable : ∀ e ∈ (word, replacement) :: table, e.1 ∈ words) {text : List α}
    (hclean : Clean table (substitute ((word, replacement) :: table) text)) :
    substitute table (replaceAll word replacement text) = substitute ((word, replacement) :: table) text := by
  have hne : ∀ e ∈ (word, replacement) :: table, e.1 ≠ [] := fun e he => hwords.ne_nil _ (htable e he)
  have hrest : ∀ e ∈ table, e.1 ∈ words := fun e he => htable e (List.mem_cons_of_mem _ he)
  have hword : word ∈ words := htable (word, replacement) List.mem_cons_self
  have hone : ∀ e ∈ [(word, replacement)], e.1 ∈ words := fun e he => htable e (by simp_all)
  induction text using substitute_induction hne with
  | nil => rfl
  | word w r text hlookup ih =>
    have hw : w ∈ words := htable _ (lookupWord_some hlookup).1
    rw [substitute_word (hwords.ne_nil w hw) hlookup] at hclean ⊢
    have htext := ih fun e he hwithin => hclean e he (hwithin.trans (List.suffix_append r _).isInfix)
    rw [← htext] at hclean ⊢
    by_cases hfirst : word = w
    · have hfound : lookupWord ((word, replacement) :: table) (w ++ text) = some (word, replacement) := by
        unfold lookupWord
        rw [List.find?_cons_of_pos]
        simp [hfirst]
      have hfound' : lookupWord [(word, replacement)] (w ++ text) = some (word, replacement) := by
        unfold lookupWord
        rw [List.find?_cons_of_pos]
        simp [hfirst]
      rw [hfound, Option.some.injEq, Prod.mk.injEq] at hlookup
      obtain ⟨rfl, rfl⟩ := hlookup
      rw [replaceAll, substitute_word (hwords.ne_nil word hword) hfound']
      exact substitute_append_of_clean hwords hrest hclean
    · have hnot : ¬ word <+: w ++ text := by
        rw [hwords.isPrefix_append_iff hword hw]
        exact hfirst
      have hlater : lookupWord table (w ++ text) = some (w, r) := by
        rw [← hlookup]
        unfold lookupWord
        rw [List.find?_cons_of_neg]
        simpa using hnot
      rw [lookupWord_append hwords hrest hw text (replaceAll word replacement text)] at hlater
      rw [replaceAll, substitute_other_append hwords hone hw (by simpa using hfirst), ← replaceAll,
        substitute_word (hwords.ne_nil w hw) hlater]
  | sign c text hlookup ih =>
    rw [substitute_cons hlookup] at hclean ⊢
    have htext := ih fun e he hwithin => hclean e he (hwithin.trans (List.suffix_cons c _).isInfix)
    have hnone : lookupWord [(word, replacement)] (c :: text) = none := by
      apply lookupWord_eq_none
      intro e he
      exact not_isPrefix_of_lookupWord hlookup (by simp_all)
    rw [← htext] at hclean ⊢
    rw [replaceAll, substitute_cons hnone]
    exact @substitute_append_of_clean _ _ _ _ hwords hrest [c] _ hclean

/-- **In turn is all at once**, where the outcome holds no word. -/
theorem replaceInTurn_eq_substitute (hwords : Marked words) (htable : ∀ e ∈ table, e.1 ∈ words)
    {text : List α}
    (hclean : Clean table (substitute table text)) :
    replaceInTurn table text = substitute table text := by
  induction table generalizing text with
  | nil => exact (substitute_eq_self fun e he => absurd he List.not_mem_nil).symm
  | cons e table ih =>
    have hstep := substitute_replaceAll hwords htable (fun e' he' => hclean e' (List.mem_cons_of_mem e he'))
    show replaceInTurn table (replaceAll e.1 e.2 text) = _
    rw [ih (fun e' he' => htable e' (List.mem_cons_of_mem e he')), hstep]
    rw [hstep]
    exact fun e' he' => hclean e' (List.mem_cons_of_mem e he')

/-! ### What replacing in turn leaves alone -/

theorem replaceInTurn_cons (e : List α × List α) (table : List (List α × List α)) (text : List α) :
    replaceInTurn (e :: table) text = replaceInTurn table (replaceAll e.1 e.2 text) := rfl

theorem replaceInTurn_eq_self {text : List α}
    (h : Clean table text) : replaceInTurn table text = text := by
  induction table with
  | nil => rfl
  | cons e table ih =>
    have hfirst : replaceAll e.1 e.2 text = text :=
      substitute_eq_self fun e' he' => h e' (by simp_all)
    rw [replaceInTurn_cons, hfirst, ih fun e' he' => h e' (List.mem_cons_of_mem e he')]

theorem replaceInTurn_append_cons (hne : ∀ e ∈ table, e.1 ≠ []) {c : α} (hc : ∀ e ∈ table, c ∉ e.1)
    (x y : List α) :
    replaceInTurn table (x ++ c :: y) = replaceInTurn table x ++ c :: replaceInTurn table y := by
  induction table generalizing x y with
  | nil => rfl
  | cons e table ih =>
    have hfirst : replaceAll e.1 e.2 (x ++ c :: y) = replaceAll e.1 e.2 x ++ c :: replaceAll e.1 e.2 y :=
      substitute_append_cons (fun e' he' => hne e' (by simp_all)) (fun e' he' => hc e' (by simp_all)) x y
    simp only [replaceInTurn_cons, hfirst]
    exact ih (fun e' he' => hne e' (List.mem_cons_of_mem e he')) (fun e' he' => hc e' (List.mem_cons_of_mem e he')) _ _

theorem replaceInTurn_unmarked_append (htable : ∀ e ∈ table, e.1 ∈ words) (hwords : Marked words)
    {v : List α}
    (hv : Unmarked words v) (text : List α) :
    replaceInTurn table (v ++ text) = v ++ replaceInTurn table text := by
  induction table generalizing text with
  | nil => rfl
  | cons e table ih =>
    have hfirst : replaceAll e.1 e.2 (v ++ text) = v ++ replaceAll e.1 e.2 text :=
      substitute_unmarked_append (fun e' he' => htable e' (by simp_all)) hwords hv text
    simp only [replaceInTurn_cons, hfirst]
    exact ih (fun e' he' => htable e' (List.mem_cons_of_mem e he')) _

theorem replaceInTurn_nil (table : List (List α × List α)) : replaceInTurn table [] = [] := by
  induction table with
  | nil => rfl
  | cons e table ih => exact ih

theorem replaceInTurn_unmarked (htable : ∀ e ∈ table, e.1 ∈ words) (hwords : Marked words)
    {v : List α} (hv : Unmarked words v) : replaceInTurn table v = v := by
  have happend := replaceInTurn_unmarked_append htable hwords hv []
  rwa [List.append_nil, replaceInTurn_nil, List.append_nil] at happend

theorem replaceInTurn_append_stem (htable : ∀ e ∈ table, e.1 ∈ words) (hwords : Marked words)
    {u v : List α} (hu : u ≠ []) (hv : v ≠ []) (h : u ++ v ∈ words) (text : List α) :
    replaceInTurn table (text ++ u) = replaceInTurn table text ++ u := by
  induction table generalizing text with
  | nil => rfl
  | cons e table ih =>
    have hfirst : replaceAll e.1 e.2 (text ++ u) = replaceAll e.1 e.2 text ++ u :=
      substitute_append_stem (fun e' he' => htable e' (by simp_all)) hwords hu hv h text
    simp only [replaceInTurn_cons, hfirst]
    exact ih (fun e' he' => htable e' (List.mem_cons_of_mem e he')) _

/-! ### A text in pieces -/

def Uncut (words : Set (List α)) (pieces : List (List α)) : Prop :=
  ∀ before after, pieces = before ++ after → ¬ Crosses words before.flatten after.flatten

omit [DecidableEq α] in
theorem Uncut.tail {piece : List α} {pieces : List (List α)}
    (h : Uncut words (piece :: pieces)) : Uncut words pieces := by
  intro before after hsplit hcross
  apply h (piece :: before) after (by rw [hsplit, List.cons_append])
  exact hcross.of_isSuffix (List.suffix_append piece before.flatten)

/-- **Piece by piece**, where no word is cut. -/
theorem substitute_flatten (hne : ∀ e ∈ table, e.1 ≠ []) (htable : ∀ e ∈ table, e.1 ∈ words)
    {pieces : List (List α)}
    (h : Uncut words pieces) : substitute table pieces.flatten = (pieces.map (substitute table)).flatten := by
  induction pieces with
  | nil => rfl
  | cons piece pieces ih =>
    have hcut : ¬ Crosses words piece pieces.flatten := by
      simpa using h [piece] pieces rfl
    rw [List.flatten_cons, substitute_append hne htable hcut, ih h.tail, List.map_cons, List.flatten_cons]

theorem isPrefix_replaced (htable : ∀ e ∈ table, e.1 ∈ words) (hwords : Marked words) {v : List α}
    (hv : Unmarked words v) {pieces : List (List α)} (h : v <+: pieces.flatten) :
    v <+: (pieces.map (replaceInTurn table)).flatten := by
  induction pieces generalizing v with
  | nil => exact h
  | cons piece pieces ih =>
    rw [List.flatten_cons] at h
    rw [List.map_cons, List.flatten_cons]
    rcases List.prefix_or_prefix_of_prefix h (List.prefix_append piece pieces.flatten) with ⟨rest, rfl⟩ | ⟨rest, rfl⟩
    · rw [replaceInTurn_unmarked_append htable hwords hv, List.append_assoc]
      exact List.prefix_append v _
    · rw [List.prefix_append_right_inj] at h
      have hpiece : Unmarked words piece := fun c hc => hv c (List.mem_append_left rest hc)
      rw [replaceInTurn_unmarked htable hwords hpiece, List.prefix_append_right_inj]
      exact ih (fun c hc => hv c (List.mem_append_right piece hc)) h

theorem isSuffix_replaced (htable : ∀ e ∈ table, e.1 ∈ words) (hwords : Marked words) {u v : List α}
    (hu : u ≠ [])
    (hv : v ≠ []) (hword : u ++ v ∈ words) {pieces : List (List α)} (h : u <:+ pieces.flatten) :
    u <:+ (pieces.map (replaceInTurn table)).flatten := by
  induction pieces using List.reverseRecOn generalizing u v with
  | nil => exact h
  | append_singleton pieces piece ih =>
    rw [List.flatten_append, List.flatten_singleton] at h
    rw [List.map_append, List.flatten_append, List.map_singleton, List.flatten_singleton]
    rcases List.suffix_or_suffix_of_suffix h (List.suffix_append pieces.flatten piece) with ⟨rest, rfl⟩ | ⟨rest, rfl⟩
    · rw [replaceInTurn_append_stem htable hwords hu hv hword, ← List.append_assoc]
      exact List.suffix_append _ u
    · rw [List.suffix_append_self_iff] at h
      by_cases hnil : rest = []
      · have hstays := replaceInTurn_append_stem htable hwords hu hv hword []
        rw [hnil, List.nil_append, replaceInTurn_nil, List.nil_append] at hstays
        rw [hnil, List.nil_append, hstays]
        exact List.suffix_append _ piece
      · rw [List.append_assoc] at hword
        have hpiece : Unmarked words piece :=
          fun c hc => hwords.unmarked hnil hword c (List.mem_append_left v hc)
        rw [replaceInTurn_unmarked htable hwords hpiece, List.suffix_append_self_iff]
        exact ih hnil (by simp [hv]) hword h

end Marks

end TokenProxy.Lib
