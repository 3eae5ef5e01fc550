import TokenProxy.Lib.UnitText

/-!
# The answers of Composer

Composer sends its answer inside the thinking text, behind `</think>`. The transform looks for the
last tag again with every fragment, and sends what the visible text has become longer by. Behind the
last tag that is right wherever the fragments end; what was sent in front of a later tag must be
repeated behind it.

* `shown_prefix`: behind the last tag, what can be sent is the beginning of the final text.
* `composer_stream`: the content is the final text just if what is sent in front of a later tag is
  repeated behind it.
-/

namespace TokenProxy.Cursor.Composer

open Lib.JsonText

/-- `</think>` -/
def endTag : Text := [60, 47, 116, 104, 105, 110, 107, 62]

/-- `<｜final｜>` -/
def finalSentinel : Text := [60, 0xff5c, 102, 105, 110, 97, 108, 0xff5c, 62]

def visibleComposerContentFromThinking (thinking : Text) : Text :=
  match afterLast endTag thinking with
  | none => []
  | some rest =>
    let visible := trimStart rest
    if finalSentinel.isPrefixOf visible then trimStart (visible.drop finalSentinel.length) else visible

/-- The loop of `emittableComposerContent` from a number of held units on. -/
def emittableFrom (visible : Text) : ℕ → Text
  | 0 => visible
  | n + 1 =>
    if (visible.drop (visible.length - (n + 1))).isPrefixOf finalSentinel then visible.take (visible.length - (n + 1))
    else emittableFrom visible n

def emittableComposerContent (visible : Text) : Text := emittableFrom visible (min visible.length (finalSentinel.length - 1))

/-- What `transformProtobufToSSE` keeps of a Composer response, and the content of the chunks. -/
structure State where
  totalThinking : Text
  emittedLength : ℕ
  deltas : List Text
  deriving DecidableEq

def emitComposerContent (state : State) (visible : Text) : State :=
  if visible.length ≤ state.emittedLength then state
  else { state with emittedLength := visible.length, deltas := state.deltas ++ [visible.drop state.emittedLength] }

def receiveThinking (state : State) (thinking : Text) : State :=
  if thinking.isEmpty then state
  else
    let totalThinking := state.totalThinking ++ thinking
    emitComposerContent { state with totalThinking }
      (emittableComposerContent (visibleComposerContentFromThinking totalThinking))

def flush (state : State) : State := emitComposerContent state (visibleComposerContentFromThinking state.totalThinking)

def composerContent (fragments : List Text) : Text := (flush (fragments.foldl receiveThinking ⟨[], 0, []⟩)).deltas.flatten

/-! ### What is sent -/

def shown (thinking : Text) : Text := emittableComposerContent (visibleComposerContentFromThinking thinking)

def sent (fragments : List Text) : Text := (fragments.foldl receiveThinking ⟨[], 0, []⟩).deltas.flatten

def TagBehind (front fragments : List Text) : Prop :=
  ∃ before after, fragments.flatten = before ++ (endTag ++ after) ∧ front.flatten.length < (before ++ endTag).length

/-- What fragments that end in front of a later closing tag are the first to show at a
place, the final text has there. -/
def Repeats (fragments : List Text) : Prop :=
  ∀ front place, front <+: fragments → TagBehind front fragments → place < (shown front.flatten).length →
    (∀ earlier, earlier <+: front → earlier ≠ front → (shown earlier.flatten).length ≤ place) →
      (visibleComposerContentFromThinking fragments.flatten)[place]? = (shown front.flatten)[place]?

theorem prefix_append_drop {sent shown final : Text} :
    sent ++ shown.drop sent.length <+: final ↔ sent <+: final ∧ shown.drop sent.length <+: final.drop sent.length := by
  constructor
  · intro h
    have hsent : sent <+: final := (List.prefix_append _ _).trans h
    obtain ⟨rest, rfl⟩ := hsent
    rw [List.prefix_append_right_inj] at h
    exact ⟨List.prefix_append _ _, by rwa [List.drop_left]⟩
  · rintro ⟨⟨rest, rfl⟩, h⟩
    rw [List.drop_left] at h
    rwa [List.prefix_append_right_inj]

theorem emit_deltas {state : State} (visible : Text)
    (h : state.emittedLength = state.deltas.flatten.length) :
    (emitComposerContent state visible).deltas.flatten = state.deltas.flatten ++ visible.drop state.deltas.flatten.length ∧
      (emitComposerContent state visible).emittedLength = max state.deltas.flatten.length visible.length := by
  unfold emitComposerContent
  split
  · rename_i hshort
    rw [List.drop_eq_nil_of_le (h ▸ hshort), List.append_nil]
    exact ⟨rfl, by omega⟩
  · rename_i hlong
    simp only [List.flatten_append, List.flatten_singleton, h]
    exact ⟨trivial, by omega⟩

theorem emit_totalThinking (state : State) (visible : Text) :
    (emitComposerContent state visible).totalThinking = state.totalThinking := by
  unfold emitComposerContent
  split <;> rfl

theorem emittedLength_emit {state : State} (visible : Text)
    (h : state.emittedLength = state.deltas.flatten.length) :
    (emitComposerContent state visible).emittedLength = (emitComposerContent state visible).deltas.flatten.length := by
  rw [(emit_deltas visible h).1, (emit_deltas visible h).2, List.length_append, List.length_drop]
  omega

/-- What was sent is as long as the state says, and as long as what can be sent. -/
structure Counted (state : State) : Prop where
  length_eq : state.emittedLength = state.deltas.flatten.length
  shown_le : (shown state.totalThinking).length ≤ state.deltas.flatten.length

theorem receiveThinking_spec {state : State} (fragment : Text) (h : Counted state) :
    Counted (receiveThinking state fragment) ∧ (receiveThinking state fragment).totalThinking = state.totalThinking ++ fragment ∧
      (receiveThinking state fragment).deltas.flatten =
        state.deltas.flatten ++ (shown (state.totalThinking ++ fragment)).drop state.deltas.flatten.length := by
  unfold receiveThinking
  split
  · rename_i hempty
    rw [List.isEmpty_iff.mp hempty, List.append_nil, List.drop_eq_nil_of_le h.shown_le, List.append_nil]
    exact ⟨h, rfl, rfl⟩
  · have hstate : ({ state with totalThinking := state.totalThinking ++ fragment } : State).emittedLength =
        ({ state with totalThinking := state.totalThinking ++ fragment } : State).deltas.flatten.length := h.length_eq
    have hdeltas := (emit_deltas (shown (state.totalThinking ++ fragment)) hstate).1
    refine ⟨⟨emittedLength_emit _ hstate, ?_⟩, emit_totalThinking _ _, hdeltas⟩
    have hlength := congrArg List.length hdeltas
    rw [List.length_append, List.length_drop] at hlength
    rw [emit_totalThinking]
    change (shown (state.totalThinking ++ fragment)).length ≤ List.length (emitComposerContent _ (shown (state.totalThinking ++ fragment))).deltas.flatten
    omega

theorem foldl_receiveThinking (fragments : List Text) :
    Counted (fragments.foldl receiveThinking ⟨[], 0, []⟩) ∧
      (fragments.foldl receiveThinking ⟨[], 0, []⟩).totalThinking = fragments.flatten := by
  induction fragments using List.reverseRecOn with
  | nil => exact ⟨⟨rfl, Nat.zero_le 0⟩, rfl⟩
  | append_singleton fragments fragment ih =>
    obtain ⟨hcounted, hthinking, -⟩ := receiveThinking_spec fragment ih.1
    rw [List.foldl_append, List.foldl_cons, List.foldl_nil, List.flatten_append, List.flatten_singleton]
    exact ⟨hcounted, by rw [hthinking, ih.2]⟩

theorem sent_append (fragments : List Text) (fragment : Text) :
    sent (fragments ++ [fragment]) =
      sent fragments ++ (shown (fragments ++ [fragment]).flatten).drop (sent fragments).length := by
  obtain ⟨hcounted, hthinking⟩ := foldl_receiveThinking fragments
  have hdeltas := (receiveThinking_spec fragment hcounted).2.2
  rw [hthinking] at hdeltas
  unfold sent
  rw [List.foldl_append, List.foldl_cons, List.foldl_nil, hdeltas, List.flatten_append, List.flatten_singleton]

theorem composerContent_eq_iff (fragments : List Text) :
    composerContent fragments = visibleComposerContentFromThinking fragments.flatten ↔
      sent fragments <+: visibleComposerContentFromThinking fragments.flatten := by
  obtain ⟨hcounted, hthinking⟩ := foldl_receiveThinking fragments
  unfold composerContent sent flush
  rw [(emit_deltas _ hcounted.length_eq).1, hthinking]
  constructor
  · intro heq
    exact ⟨_, heq⟩
  · rintro ⟨rest, hrest⟩
    rw [← hrest, List.drop_left]

/-- What was sent is as long as the longest text shown. -/
theorem length_sent_le {fragments : List Text} {n : ℕ} :
    (sent fragments).length ≤ n ↔ ∀ front, front <+: fragments → (shown front.flatten).length ≤ n := by
  induction fragments using List.reverseRecOn with
  | nil =>
    constructor
    · intro _ front hfront
      rw [List.prefix_nil.mp hfront]
      exact Nat.zero_le n
    · exact fun _ => Nat.zero_le n
  | append_singleton fragments fragment ih =>
    have hlength : (sent (fragments ++ [fragment])).length ≤ n ↔
        (shown (fragments ++ [fragment]).flatten).length ≤ n ∧ (sent fragments).length ≤ n := by
      rw [sent_append, List.length_append, List.length_drop]
      omega
    rw [hlength, ih]
    simp only [List.prefix_concat_iff, forall_eq_or_imp]

theorem drop_prefix_drop_iff {text final : Text} {n : ℕ} :
    text.drop n <+: final.drop n ↔ ∀ place, place < text.length → n ≤ place → final[place]? = text[place]? := by
  rw [List.prefix_iff_getElem?]
  simp only [List.length_drop, List.getElem?_drop, List.getElem_drop]
  constructor
  · intro h place hplace hle
    have hsame := h (place - n) (by omega)
    simp only [Nat.add_sub_cancel' hle] at hsame
    rw [hsame, List.getElem?_eq_getElem hplace]
  · intro h i hi
    rw [h (n + i) (by omega) (by omega), List.getElem?_eq_getElem]

/-- What was sent stands at the front of a text if each place has what was first shown there. -/
theorem sent_prefix_iff {fragments : List Text} {final : Text} :
    sent fragments <+: final ↔
      ∀ front, front <+: fragments → ∀ place, place < (shown front.flatten).length →
        (∀ earlier, earlier <+: front → earlier ≠ front → (shown earlier.flatten).length ≤ place) →
          final[place]? = (shown front.flatten)[place]? := by
  induction fragments using List.reverseRecOn with
  | nil =>
    constructor
    · intro _ front hfront place hplace
      rw [List.prefix_nil.mp hfront] at hplace
      exact absurd hplace (Nat.not_lt_zero place)
    · exact fun _ => List.nil_prefix
  | append_singleton fragments fragment ih =>
    have hearlier : ∀ place, (∀ earlier, earlier <+: fragments ++ [fragment] → earlier ≠ fragments ++ [fragment] →
        (shown earlier.flatten).length ≤ place) ↔ (sent fragments).length ≤ place := by
      intro place
      rw [length_sent_le]
      constructor
      · intro h front hfront
        refine h front (List.prefix_concat_iff.mpr (.inr hfront)) ?_
        rintro rfl
        have hlength := hfront.length_le
        rw [List.length_append, List.length_singleton] at hlength
        omega
      · intro h front hfront hne
        exact h front ((List.prefix_concat_iff.mp hfront).resolve_left hne)
    rw [sent_append, prefix_append_drop, ih, drop_prefix_drop_iff]
    constructor
    · rintro ⟨hfronts, hwhole⟩ front hfront place hplace hfirst
      rcases List.prefix_concat_iff.mp hfront with rfl | hfront
      · exact hwhole place hplace ((hearlier place).mp hfirst)
      · exact hfronts front hfront place hplace hfirst
    · intro h
      constructor
      · exact fun front hfront => h front (List.prefix_concat_iff.mpr (.inr hfront))
      · exact fun place hplace hle => h _ (List.prefix_refl _) place hplace ((hearlier place).mpr hle)

/-! ### Behind the last closing tag -/

theorem emittableFrom_prefix (visible : Text) (n : ℕ) : emittableFrom visible n <+: visible := by
  induction n with
  | zero => exact List.prefix_refl visible
  | succ n ih =>
    rw [emittableFrom]
    split
    · exact List.take_prefix _ _
    · exact ih

theorem emittable_of_sentinel {visible : Text} (h : visible <+: finalSentinel)
    (hshort : visible.length < finalSentinel.length) :
    emittableComposerContent visible = [] := by
  have hmin : min visible.length (finalSentinel.length - 1) = visible.length := by omega
  rw [emittableComposerContent, hmin]
  cases hlength : visible.length with
  | zero => exact List.length_eq_zero_iff.mp hlength
  | succ n => rw [emittableFrom, hlength, Nat.sub_self, List.drop_zero, if_pos (List.isPrefixOf_iff_prefix.mpr h), List.take_zero]

theorem emittable_visible_prefix (rest more : Text) :
    emittableComposerContent
        (if finalSentinel.isPrefixOf (trimStart rest) then trimStart ((trimStart rest).drop finalSentinel.length) else trimStart rest) <+:
      if finalSentinel.isPrefixOf (trimStart (rest ++ more)) then trimStart ((trimStart (rest ++ more)).drop finalSentinel.length)
      else trimStart (rest ++ more) := by
  have hemittable : ∀ visible : Text, emittableComposerContent visible <+: visible :=
    fun visible => emittableFrom_prefix visible _
  have hnil : emittableComposerContent [] = [] := rfl
  have hsentinel : ¬ finalSentinel <+: [] := by decide
  simp only [List.isPrefixOf_iff_prefix]
  obtain hblank | hgrown := trimStart_append rest more
  · rw [hblank, if_neg hsentinel, hnil]
    exact List.nil_prefix
  · rw [hgrown]
    by_cases hbegins : finalSentinel <+: trimStart rest
    · obtain ⟨behind, hbehind⟩ := hbegins
      have hmore : finalSentinel <+: trimStart rest ++ more := ⟨behind ++ more, by rw [← hbehind, List.append_assoc]⟩
      rw [if_pos ⟨behind, hbehind⟩, if_pos hmore, ← hbehind, List.append_assoc, List.drop_left, List.drop_left]
      obtain hbehindBlank | hbehindGrown := trimStart_append behind more
      · rw [hbehindBlank, hnil]
        exact List.nil_prefix
      · rw [hbehindGrown]
        exact (hemittable _).trans (List.prefix_append _ _)
    · rw [if_neg hbegins]
      by_cases hcompleted : finalSentinel <+: trimStart rest ++ more
      · have hshort : (trimStart rest).length < finalSentinel.length := by
          by_contra hlong
          exact hbegins (List.prefix_of_prefix_length_le hcompleted (List.prefix_append _ _) (by omega))
        have hpart : trimStart rest <+: finalSentinel :=
          List.prefix_of_prefix_length_le (List.prefix_append _ _) hcompleted hshort.le
        rw [emittable_of_sentinel hpart hshort]
        exact List.nil_prefix
      · rw [if_neg hcompleted]
        exact (hemittable _).trans (List.prefix_append _ _)

theorem shown_prefix {thinking more : Text}
    (h : ∀ before after, thinking ++ more = before ++ (endTag ++ after) → (before ++ endTag).length ≤ thinking.length) :
    shown thinking <+: visibleComposerContentFromThinking (thinking ++ more) := by
  unfold shown visibleComposerContentFromThinking
  cases hlast : afterLast endTag thinking with
  | none => exact List.nil_prefix
  | some rest =>
    rw [afterLast_append (by decide) hlast h]
    exact emittable_visible_prefix rest more

theorem repeats_iff {fragments : List Text} :
    Repeats fragments ↔ sent fragments <+: visibleComposerContentFromThinking fragments.flatten := by
  rw [sent_prefix_iff]
  constructor
  · intro h front hfront place hplace hfirst
    by_cases hbehind : TagBehind front fragments
    · exact h front place hfront hbehind hplace hfirst
    · obtain ⟨more, rfl⟩ := hfront
      rw [List.flatten_append]
      have hprefix : shown front.flatten <+: visibleComposerContentFromThinking (front.flatten ++ more.flatten) := by
        refine shown_prefix fun before after htag => ?_
        by_contra hlt
        exact hbehind ⟨before, after, by rw [List.flatten_append, htag], by omega⟩
      rw [List.getElem?_eq_getElem hplace]
      exact List.prefix_iff_getElem?.mp hprefix place hplace
  · intro h front place hfront _ hplace hfirst
    exact h front hfront place hplace hfirst

/-! ### One closing tag -/

def Once (thinking : Text) : Prop := ¬ ∃ before between after, thinking = before ++ (endTag ++ (between ++ (endTag ++ after)))

theorem endTag_places {before after before' after' : Text}
    (h : before ++ (endTag ++ after) = before' ++ (endTag ++ after'))
    (hlt : before.length < before'.length) :
    ∃ between, before ++ (endTag ++ (between ++ (endTag ++ after'))) = before ++ (endTag ++ after) := by
  have hopen : ∀ place : Fin 8, 0 < place.val → endTag[place.val]? ≠ some 60 := by decide
  have hfar : before.length + 8 ≤ before'.length := by
    by_contra hnear
    have hplace := congrArg (fun text => text[before'.length]?) h
    simp only [List.getElem?_append_right (le_of_lt hlt),
      List.getElem?_append_right (le_refl before'.length), Nat.sub_self] at hplace
    rw [List.getElem?_append_left (show before'.length - before.length < endTag.length by simp [endTag]; omega)] at hplace
    exact hopen ⟨before'.length - before.length, by omega⟩ (Nat.sub_pos_of_lt hlt) (hplace.trans rfl)
  have hprefix : before ++ endTag <+: before' := by
    have hlong : (before ++ endTag).length ≤ before'.length := by
      rw [List.length_append]
      exact hfar
    exact List.prefix_of_prefix_length_le ⟨after, List.append_assoc before endTag after⟩ ⟨endTag ++ after', h.symm⟩ hlong
  obtain ⟨between, rfl⟩ := hprefix
  refine ⟨between, ?_⟩
  rw [h, List.append_assoc, List.append_assoc]

theorem repeats_of_once {fragments : List Text}
    (h : Once fragments.flatten) : Repeats fragments := by
  rintro front place ⟨more, rfl⟩ ⟨before, after, htag, hlt⟩ hplace -
  refine absurd hplace ?_
  cases hlast : afterLast endTag front.flatten with
  | none =>
    unfold shown visibleComposerContentFromThinking
    rw [hlast]
    exact Nat.not_lt_zero place
  | some rest =>
    obtain ⟨earlier, hearlier⟩ := afterLast_eq hlast
    rw [List.flatten_append, hearlier] at htag
    rw [hearlier] at hlt
    simp only [List.length_append] at hlt
    have hsame : earlier ++ (endTag ++ (rest ++ more.flatten)) = before ++ (endTag ++ after) := by
      rw [← htag, List.append_assoc, List.append_assoc]
    obtain ⟨between, hbetween⟩ := endTag_places hsame (by omega)
    rw [List.flatten_append, hearlier] at h
    exact absurd ⟨earlier, between, after, by rw [hbetween, List.append_assoc, List.append_assoc]⟩ h

/-- **What is sent is the visible text just if** what fragments show in front of a later
closing tag is repeated behind the last one; so it is if there is one closing tag,
wherever the fragments end. -/
theorem composer_stream (fragments : List Text) :
    (composerContent fragments = visibleComposerContentFromThinking fragments.flatten ↔ Repeats fragments) ∧
      (Once fragments.flatten → composerContent fragments = visibleComposerContentFromThinking fragments.flatten) := by
  have hiff := (composerContent_eq_iff fragments).trans repeats_iff.symm
  exact ⟨hiff, fun h => hiff.mpr (repeats_of_once h)⟩

/-- `</think>abc` and then `</think>x`: the client has `abc`, and the visible text is `x`. -/
theorem composer_second_tag :
    composerContent [endTag ++ [97, 98, 99], endTag ++ [120]] = [97, 98, 99] ∧
      visibleComposerContentFromThinking (endTag ++ [97, 98, 99] ++ (endTag ++ [120])) = [120] := by
  decide +kernel

end TokenProxy.Cursor.Composer
