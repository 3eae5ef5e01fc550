import TokenProxy.Lib.JsonPrefix
import TokenProxy.Translator.Chunk

/-!
# The arguments of a streamed tool call

`mergeToolArguments` in `toolCall.js`: fragments of the arguments, texts that restate all there is
so far and a repeated whole object arrive on one field. Texts are lists of UTF-16 code units here,
so that a fragment may end inside a character, and `JSON.parse` accepts what `parse` reads.
-/

namespace TokenProxy.ToolArguments

open Lib.JsonText (CodeUnit Text Value parse not_twice)

/-- The loop over texts that are sent twice; each time round the text gets shorter. -/
def unhalve : ℕ → Text → Text
  | 0, merged => merged
  | n + 1, merged =>
    let half := merged.take (merged.length / 2)
    if merged.length > 0 ∧ merged.length % 2 = 0 ∧ half = merged.drop (merged.length / 2) ∧ (parse half).isSome then unhalve n half
    else merged

def mergeToolArguments (previous fragment : Option Text) : Text :=
  let prev := previous.getD []
  let next := fragment.getD []
  let merged := if prev ≠ [] ∧ next.length > prev.length ∧ prev <+: next then next else prev ++ next
  unhalve merged.length merged

def accumulate (buffer : Text) (fragments : List Text) : Text :=
  fragments.foldl (fun previous fragment => mergeToolArguments (some previous) (some fragment)) buffer

@[simp] theorem accumulate_nil (buffer : Text) : accumulate buffer [] = buffer := rfl

@[simp] theorem accumulate_cons (buffer fragment : Text) (fragments : List Text) :
    accumulate buffer (fragment :: fragments) = accumulate (mergeToolArguments (some buffer) (some fragment)) fragments := rfl

theorem accumulate_append (buffer : Text) (fragments fragments' : List Text) :
    accumulate buffer (fragments ++ fragments') = accumulate (accumulate buffer fragments) fragments' :=
  List.foldl_append ..

/-! ### The loop -/

theorem length_unhalve_le (n : ℕ) (merged : Text) : (unhalve n merged).length ≤ merged.length := by
  induction n generalizing merged with
  | zero => exact Nat.le_refl _
  | succ n ih =>
    rw [unhalve]
    split_ifs
    · have := ih (merged.take (merged.length / 2))
      rw [List.length_take] at this
      omega
    · exact Nat.le_refl _

section Object

variable {s : Text} {value : Value} (hs : parse s = some value) (hcontainer : value.isContainer = true)

include hs hcontainer

theorem unhalve_of_isPrefix {p : Text} (hp : p <+: s) (n : ℕ) : unhalve n p = p := by
  cases n with
  | zero => rfl
  | succ n =>
    rw [unhalve]
    rw [if_neg]
    rintro ⟨-, -, hhalf, hparse⟩
    obtain ⟨rest, hrest⟩ := hp
    have htwice : s = p.take (p.length / 2) ++ p.take (p.length / 2) ++ rest := by
      nth_rewrite 2 [hhalf]
      rw [List.take_append_drop, hrest]
    rw [not_twice hs hcontainer htwice] at hparse
    cases hparse

/-! ### One fragment -/

theorem merge_append {p fragment : Text} (hp : p ++ fragment <+: s)
    (hfragment : ¬ (p ≠ [] ∧ fragment.length > p.length ∧ p <+: fragment)) :
    mergeToolArguments (some p) (some fragment) = p ++ fragment := by
  rw [mergeToolArguments, Option.getD_some, Option.getD_some]
  simp only [if_neg hfragment]
  exact unhalve_of_isPrefix hs hcontainer hp _

theorem merge_restate {p fragment : Text} (hp : p ≠ []) (hlength : fragment.length > p.length)
    (hstart : p <+: fragment)
    (hfragment : fragment <+: s) : mergeToolArguments (some p) (some fragment) = fragment := by
  rw [mergeToolArguments, Option.getD_some, Option.getD_some]
  simp only [if_pos (And.intro hp (And.intro hlength hstart))]
  exact unhalve_of_isPrefix hs hcontainer hfragment _

theorem merge_replay : mergeToolArguments (some s) (some s) = s := by
  have hhalf : (s ++ s).length / 2 = s.length := by
    rw [List.length_append]
    omega
  rw [mergeToolArguments, Option.getD_some]
  simp only [if_neg (show ¬ (s ≠ [] ∧ s.length > s.length ∧ s <+: s) from fun h => absurd h.2.1 (Nat.lt_irrefl _))]
  cases hlength : (s ++ s).length with
  | zero =>
    have : s = [] := by
      rw [List.length_append] at hlength
      exact List.length_eq_zero_iff.1 (by omega)
    rw [this]
    rfl
  | succ n =>
    rw [unhalve]
    simp only [hhalf, List.take_left, List.drop_left, hs]
    rw [if_pos]
    · exact unhalve_of_isPrefix hs hcontainer (List.prefix_refl s) n
    · rw [List.length_append] at hlength ⊢
      exact ⟨by omega, by omega, by simp⟩

end Object

/-! ### Streams -/

/-- Some fragment is longer than all there is before it, which is not empty, and begins with it. -/
def Restates (buffer : Text) (fragments : List Text) : Prop :=
  ∃ (before : List Text) (fragment : Text) (after : List Text), fragments = before ++ fragment :: after ∧ buffer ++ before.flatten ≠ [] ∧
    fragment.length > (buffer ++ before.flatten).length ∧ buffer ++ before.flatten <+: fragment

theorem not_restates_nil (buffer : Text) : ¬ Restates buffer [] := by
  rintro ⟨before, fragment, after, h, -⟩
  simp at h

theorem restates_cons (buffer fragment : Text) (fragments : List Text) :
    Restates buffer (fragment :: fragments) ↔
      (buffer ≠ [] ∧ fragment.length > buffer.length ∧ buffer <+: fragment) ∨ Restates (buffer ++ fragment) fragments := by
  constructor
  · rintro ⟨before, restated, after, h, hne, hlength, hstart⟩
    cases before with
    | nil =>
      obtain ⟨rfl, rfl⟩ : fragment = restated ∧ fragments = after := by simpa using h
      simp only [List.flatten_nil, List.append_nil] at hne hlength hstart
      exact Or.inl ⟨hne, hlength, hstart⟩
    | cons first before =>
      obtain ⟨rfl, rfl⟩ : fragment = first ∧ fragments = before ++ restated :: after := by simpa using h
      simp only [List.flatten_cons, ← List.append_assoc] at hne hlength hstart
      exact Or.inr ⟨before, restated, after, rfl, hne, hlength, hstart⟩
  · rintro (⟨hne, hlength, hstart⟩ | ⟨before, restated, after, rfl, hne, hlength, hstart⟩)
    · exact ⟨[], fragment, fragments, rfl, by simpa using hne, by simpa using hlength, by simpa using hstart⟩
    · refine ⟨fragment :: before, restated, after, rfl, ?_, ?_, ?_⟩ <;> simpa only [List.flatten_cons, ← List.append_assoc]

theorem length_merge_le (p fragment : Text) :
    (mergeToolArguments (some p) (some fragment)).length ≤ p.length + fragment.length := by
  rw [mergeToolArguments, Option.getD_some, Option.getD_some]
  refine (length_unhalve_le _ _).trans ?_
  split_ifs
  · omega
  · rw [List.length_append]

theorem length_accumulate_le (buffer : Text) (fragments : List Text) :
    (accumulate buffer fragments).length ≤ buffer.length + fragments.flatten.length := by
  induction fragments generalizing buffer with
  | nil => simp
  | cons fragment fragments ih =>
    rw [accumulate_cons, List.flatten_cons, List.length_append]
    have := ih (mergeToolArguments (some buffer) (some fragment))
    have := length_merge_le buffer fragment
    omega

/-- Each of these texts is there in full at the start of the next one, which is longer. -/
def Growing (texts : List Text) : Prop := texts.IsChain fun a b => a <+: b ∧ a.length < b.length

theorem isPrefix_of_growing {text s : Text} {texts : List Text} (h : Growing (text :: texts))
    (hlast : (text :: texts).getLast? = some s) :
    text <+: s := by
  induction texts generalizing text with
  | nil =>
    obtain rfl : text = s := by simpa using hlast
    exact List.prefix_refl text
  | cons next texts ih =>
    obtain ⟨⟨hstart, -⟩, hchain⟩ := List.isChain_cons_cons.1 h
    rw [List.getLast?_cons_cons] at hlast
    exact hstart.trans (ih hchain hlast)

section Object

variable {s : Text} {value : Value} (hs : parse s = some value) (hcontainer : value.isContainer = true)

include hs hcontainer

/-- Slices of an object text come to the text unless one of them looks like a restatement, and then
what was before is lost. -/
theorem accumulate_slices (buffer : Text) (fragments : List Text)
    (h : buffer ++ fragments.flatten = s) :
    accumulate buffer fragments = s ↔ ¬ Restates buffer fragments := by
  induction fragments generalizing buffer with
  | nil =>
    rw [List.flatten_nil, List.append_nil] at h
    exact ⟨fun _ => not_restates_nil buffer, fun _ => h⟩
  | cons fragment fragments ih =>
    rw [accumulate_cons, restates_cons]
    rw [List.flatten_cons, ← List.append_assoc] at h
    by_cases hrestate : buffer ≠ [] ∧ fragment.length > buffer.length ∧ buffer <+: fragment
    · refine ⟨fun heq => ?_, fun hnot => absurd (Or.inl hrestate) hnot⟩
      have hmerge : (mergeToolArguments (some buffer) (some fragment)).length ≤ fragment.length := by
        rw [mergeToolArguments, Option.getD_some, Option.getD_some]
        simp only [if_pos hrestate]
        exact length_unhalve_le _ _
      have hlength := length_accumulate_le (mergeToolArguments (some buffer) (some fragment)) fragments
      have hpos := List.length_pos_iff.2 hrestate.1
      rw [heq, ← h, List.length_append, List.length_append] at hlength
      omega
    · have hstart : buffer ++ fragment <+: s := ⟨fragments.flatten, h⟩
      rw [merge_append hs hcontainer hstart hrestate, ih (buffer ++ fragment) h]
      simp [hrestate]

theorem accumulate_growing (buffer : Text) (texts : List Text) (h : Growing (buffer :: texts))
    (hlast : (buffer :: texts).getLast? = some s) : accumulate buffer texts = s := by
  induction texts generalizing buffer with
  | nil => simpa using hlast
  | cons text texts ih =>
    obtain ⟨⟨hstart, hlength⟩, hchain⟩ := List.isChain_cons_cons.1 h
    rw [List.getLast?_cons_cons] at hlast
    have htext := isPrefix_of_growing hchain hlast
    have hmerge : mergeToolArguments (some buffer) (some text) = text := by
      by_cases hbuffer : buffer = []
      · subst hbuffer
        rw [merge_append hs hcontainer (by simpa using htext) (by simp), List.nil_append]
      · exact merge_restate hs hcontainer hbuffer hlength hstart htext
    rw [accumulate_cons, hmerge, ih text hchain hlast]

theorem accumulate_replay (k : ℕ) : accumulate s (List.replicate k s) = s := by
  induction k with
  | zero => rfl
  | succ k ih => rw [List.replicate_succ, accumulate_cons, merge_replay hs hcontainer, ih]

theorem accumulate_cumulative {texts : List Text} (h : Growing texts)
    (hlast : texts.getLast? = some s) : accumulate [] texts = s := by
  cases texts with
  | nil => simp at hlast
  | cons text texts =>
    have hmerge : mergeToolArguments (some []) (some text) = text :=
      merge_append hs hcontainer (by simpa using isPrefix_of_growing h hlast) (by simp)
    rw [accumulate_cons, hmerge, accumulate_growing hs hcontainer text texts h hlast]

end Object

/-- What comes of the three kinds of streams that carry an object text. -/
theorem accumulate_object {s : Text} {fields : List (Text × Value)}
    (hs : parse s = some (.object fields)) :
    (∀ fragments : List Text, fragments.flatten = s → (accumulate [] fragments = s ↔ ¬ Restates [] fragments)) ∧
    (∀ texts, Growing texts → texts.getLast? = some s → accumulate [] texts = s) ∧
    ∀ (fragments : List Text) (k : ℕ), fragments.flatten = s → ¬ Restates [] fragments →
      accumulate [] (fragments ++ List.replicate k s) = s := by
  refine ⟨fun fragments h => accumulate_slices hs rfl [] fragments h, fun texts => accumulate_cumulative hs rfl,
    fun fragments k h hrestates => ?_⟩
  rw [accumulate_append, (accumulate_slices hs rfl [] fragments h).2 hrestates, accumulate_replay hs rfl]

/-- `{"a":1}` in two parts, then after a part of it, and in two parts that come twice again. -/
theorem accumulate_object_sample :
    let s : Text := [123, 34, 97, 34, 58, 49, 125]
    accumulate [] [[123, 34, 97], [34, 58, 49, 125]] = s ∧ accumulate [] [[123, 34, 97], s] = s ∧
      accumulate [] ([[123, 34, 97], [34, 58, 49, 125]] ++ List.replicate 2 s) = s := by
  have hrestates : ¬ Restates [] [[123, 34, 97], [34, 58, 49, 125]] := by
    simp [restates_cons, not_restates_nil]
  obtain ⟨hdeltas, hcumulative, hreplay⟩ :=
    accumulate_object (rfl : parse [123, 34, 97, 34, 58, 49, 125] = some (.object [([97], .word [49])]))
  exact ⟨(hdeltas _ rfl).2 hrestates, hcumulative _ (List.isChain_cons_cons.2 ⟨by decide, List.isChain_singleton _⟩) rfl,
    hreplay _ 2 rfl hrestates⟩

/-- An object whose first key begins as the text does: `{"` and then `{":1}`. -/
theorem not_accumulate_object :
    ¬ ∀ (s : Text) (fields : List (Text × Value)), parse s = some (.object fields) →
    ∀ fragments : List Text, (∀ fragment ∈ fragments, fragment ≠ []) → fragments.flatten = s → accumulate [] fragments = s := by
  intro h
  have hparse : parse [123, 34, 123, 34, 58, 49, 125] = some (.object [([123], .word [49])]) := rfl
  have := h _ _ hparse [[123, 34], [123, 34, 58, 49, 125]] (by decide) rfl
  exact absurd this (by decide +kernel)

end TokenProxy.ToolArguments
