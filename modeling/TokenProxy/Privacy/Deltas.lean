import TokenProxy.Privacy.Restorer

/-!
# The deltas that the client reads

The restorer works on the bytes of the stream: each delta's text is restored where it stands, behind
the escapes of its JSON string. So the network may cut the stream anywhere, as long as what stands
for one alias makes no other, but an alias that the upstream cut between two deltas is never put
back (`deltas_restored`).
-/

namespace TokenProxy.Privacy

open Lib Lib.Json

/-- What stands between the texts of two deltas: the rest of one event, the events in between, the
beginning of the next one. -/
structure Gap where
  text : List Char
  noAlias : ∀ w ∈ aliasWords, ¬ w <:+: text

structure DeltaEvent where
  before : Gap
  text : List Char

def streamOf (last : Gap) : List DeltaEvent → List Char
  | [] => last.text
  | e :: events => e.before.text ++ '"' :: (escape e.text ++ '"' :: streamOf last events)

def strip (front text : List Char) : Option (List Char) :=
  if front.isPrefixOf text then some (text.drop front.length) else none

def readDeltas (last : Gap) : List Gap → List Char → Option (List (List Char))
  | [], stream => if stream = last.text then some [] else none
  | gap :: gaps, stream => do
    let body ← strip (gap.text ++ ['"']) stream
    let (text, rest) ← readString body
    let texts ← readDeltas last gaps rest
    return text :: texts

def receivedText (last : Gap) (gaps : List Gap) (chunks : List (List UInt8)) : Option (List Char) :=
  (readDeltas last gaps (({} : Utf8Decoder).decode chunks.flatten).2).map List.flatten

def rewriteTexts (f : List Char → List Char) (events : List DeltaEvent) : List DeltaEvent :=
  events.map fun e => { e with text := f e.text }

theorem texts_rewriteTexts (f : List Char → List Char) (events : List DeltaEvent) :
    (rewriteTexts f events).map (·.text) = (events.map (·.text)).map f := by
  simp [rewriteTexts]

theorem gaps_rewriteTexts (f : List Char → List Char) (events : List DeltaEvent) :
    (rewriteTexts f events).map (·.before) = events.map (·.before) := by
  simp [rewriteTexts]

/-- **The client reads what was written.** -/
theorem readDeltas_streamOf (last : Gap) (events : List DeltaEvent) :
    readDeltas last (events.map (·.before)) (streamOf last events) = some (events.map (·.text)) := by
  induction events with
  | nil => exact if_pos rfl
  | cons e events ih =>
    have hstrip : strip (e.before.text ++ ['"']) (streamOf last (e :: events)) =
        some (escape e.text ++ '"' :: streamOf last events) := by
      have hbegin : streamOf last (e :: events) =
          (e.before.text ++ ['"']) ++ (escape e.text ++ '"' :: streamOf last events) := by
        simp [streamOf]
      unfold strip
      rw [hbegin, if_pos (by simp), List.drop_left]
    rw [List.map_cons, readDeltas, hstrip]
    simp only [Option.bind_eq_bind, Option.bind_some]
    rw [readString_escape]
    simp only [Option.bind_some]
    rw [ih]
    rfl

theorem receivedText_streamOf (last : Gap) {events : List DeltaEvent} {chunks : List (List UInt8)}
    (h : chunks.flatten = Utf8Decoder.encode (streamOf last events)) :
    receivedText last (events.map (·.before)) chunks = some (events.map (·.text)).flatten := by
  unfold receivedText
  rw [h, Utf8Decoder.decode_encode, readDeltas_streamOf]
  rfl

namespace PrivacyFilter

variable (filter : PrivacyFilter)

/-- What the text of a delta becomes if every alias gives way to what it stands for. -/
def substituteText (text : List Char) : List Char := substitute filter.originals text

theorem plainWords : PlainWords filter.words where
  marked := filter.marked_words
  plain w hw := plainWords_aliases.plain w (filter.words_subset hw)
  mark_notMem c t ht := plainWords_aliases.mark_notMem c t (filter.words_subset ht)

theorem quote_notMem : ∀ e ∈ escaped filter.originals, '"' ∉ e.1 := by
  intro e he hquote
  exact (filter.plainWords.plain _ (filter.escaped_originals_mem e he) '"' hquote).1 rfl

theorem clean_gap (gap : Gap) : Clean (escaped filter.originals) gap.text :=
  fun e he => gap.noAlias _ (filter.words_subset (filter.escaped_originals_mem e he))

theorem escaped_ne_nil : ∀ e ∈ escaped filter.originals, e.1 ≠ [] :=
  fun e he => filter.marked_words.ne_nil _ (filter.escaped_originals_mem e he)

theorem substituteJson_streamOf (last : Gap) (events : List DeltaEvent) :
    filter.substituteJson (streamOf last events) = streamOf last (rewriteTexts filter.substituteText events) := by
  induction events with
  | nil => exact substitute_eq_self (filter.clean_gap last)
  | cons e events ih =>
    have hgap : substitute (escaped filter.originals) e.before.text = e.before.text :=
      substitute_eq_self (filter.clean_gap e.before)
    unfold substituteJson at ih ⊢
    rw [streamOf, substitute_append_cons filter.escaped_ne_nil filter.quote_notMem,
      substitute_append_cons filter.escaped_ne_nil filter.quote_notMem, hgap,
      substitute_escape filter.plainWords filter.originals_mem, ih]
    rfl

theorem restoreJson_streamOf (last : Gap) (events : List DeltaEvent) :
    filter.restoreJson (streamOf last events) = streamOf last (rewriteTexts filter.restore events) := by
  rw [restoreJson_eq]
  induction events with
  | nil => exact replaceInTurn_eq_self (filter.clean_gap last)
  | cons e events ih =>
    rw [streamOf, replaceInTurn_append_cons filter.escaped_ne_nil filter.quote_notMem,
      replaceInTurn_append_cons filter.escaped_ne_nil filter.quote_notMem, replaceInTurn_eq_self (filter.clean_gap e.before),
      replaceInTurn_escape filter.plainWords filter.originals_mem, ih, ← restore_eq]
    rfl

theorem clean_streamOf (last : Gap) {events : List DeltaEvent}
    (h : ∀ e ∈ events, Clean filter.originals e.text) :
    Clean (escaped filter.originals) (streamOf last events) := by
  induction events with
  | nil => exact filter.clean_gap last
  | cons e events ih =>
    obtain ⟨he, hevents⟩ := List.forall_mem_cons.mp h
    intro word hword hwithin
    have hquote := filter.quote_notMem word hword
    rcases isInfix_append_cons hquote hwithin with hgap | hwithin
    · exact filter.clean_gap e.before word hword hgap
    rcases isInfix_append_cons hquote hwithin with htext | hrest
    · exact clean_escape filter.plainWords filter.originals_mem he word hword htext
    · exact ih hevents word hword hrest

theorem substituteText_flatten {texts : List (List Char)} (h : Uncut filter.words texts) :
    filter.substituteText texts.flatten = (texts.map filter.substituteText).flatten :=
  substitute_flatten (fun e he => filter.marked_words.ne_nil _ (filter.originals_mem e he)) filter.originals_mem h

theorem restore_eq_substituteText {text : List Char}
    (h : Clean filter.originals (filter.substituteText text)) :
    filter.restore text = filter.substituteText text := by
  rw [restore_eq]
  exact replaceInTurn_eq_substitute filter.marked_words filter.originals_mem h

theorem isInfix_of_crosses {before after : List (List Char)}
    (h : Crosses filter.words before.flatten after.flatten) :
    ∃ e ∈ filter.originals, e.1 <:+: ((before ++ after).map filter.restore).flatten := by
  obtain ⟨u, v, hword, hu, hv, hsuffix, hbegin⟩ := h
  have hrestore : filter.restore = replaceInTurn filter.originals := funext filter.restore_eq
  have hback := isSuffix_replaced filter.originals_mem filter.marked_words hu hv hword hsuffix
  have hfront := isPrefix_replaced filter.originals_mem filter.marked_words (filter.marked_words.unmarked hu hword) hbegin
  rw [← hrestore] at hback hfront
  obtain ⟨s, hs⟩ := hback
  obtain ⟨t, ht⟩ := hfront
  obtain ⟨e, he, hsame⟩ := List.mem_map.mp hword
  refine ⟨(e.1.text, e.2), List.mem_map.mpr ⟨e, he, rfl⟩, s, t, ?_⟩
  rw [List.map_append, List.flatten_append, ← hs, ← ht, hsame]
  simp only [List.append_assoc]

/-- No alias is cut between two deltas, and the originals in the places
of the aliases make no alias. -/
structure Seamless (texts : List (List Char)) : Prop where
  uncut : Uncut filter.words texts
  clean : Clean filter.originals (filter.substituteText texts.flatten)

/-- However the network cuts the stream, the client reads the restored text. -/
def RestoresDeltas (last : Gap) (events : List DeltaEvent) : Prop :=
  ∀ chunks, chunks.flatten = Utf8Decoder.encode (streamOf last events) →
    receivedText last (events.map (·.before)) (filter.restoreResponseStream chunks) =
      some (filter.restore (events.map (·.text)).flatten)

variable {filter} {last : Gap} {events : List DeltaEvent}

theorem Seamless.clean_rewriteTexts (h : filter.Seamless (events.map (·.text))) :
    ∀ e ∈ rewriteTexts filter.substituteText events, Clean filter.originals e.text := by
  intro e he e' he' hwithin
  apply h.clean e' he'
  rw [filter.substituteText_flatten h.uncut, ← texts_rewriteTexts]
  exact hwithin.trans (List.infix_of_mem_flatten (List.mem_map.mpr ⟨e, he, rfl⟩))

theorem Seamless.restoresDeltas (h : filter.Seamless (events.map (·.text))) :
    filter.RestoresDeltas last events := by
  intro chunks hchunks
  have hstream := filter.substituteJson_streamOf last events
  have hreceived := filter.restoreResponseStream_chunks hchunks
    (by rw [hstream]; exact filter.clean_streamOf last h.clean_rewriteTexts)
  rw [hstream] at hreceived
  have hread := receivedText_streamOf last hreceived
  rw [gaps_rewriteTexts, texts_rewriteTexts, ← filter.substituteText_flatten h.uncut] at hread
  rw [hread, filter.restore_eq_substituteText h.clean]

theorem RestoresDeltas.uncut (h : filter.RestoresDeltas last events)
    (hclean : Clean filter.originals (filter.substituteText (events.map (·.text)).flatten)) :
    Uncut filter.words (events.map (·.text)) := by
  intro before after hsplit hcross
  have hwhole : (filter.restoreResponseStream [Utf8Decoder.encode (streamOf last events)]).flatten =
      Utf8Decoder.encode (streamOf last (rewriteTexts filter.restore events)) := by
    rw [restoreResponseStream_whole, restoreJson_streamOf]
  have hreceived := receivedText_streamOf last hwhole
  rw [gaps_rewriteTexts, h [_] (by simp), Option.some.injEq, texts_rewriteTexts,
    filter.restore_eq_substituteText hclean] at hreceived
  obtain ⟨e, he, hwithin⟩ := filter.isInfix_of_crosses hcross
  rw [← hsplit, ← hreceived] at hwithin
  exact hclean e he hwithin

/-- **What the client reads is the restored text** if no alias is cut between two deltas and the
restored text holds none any more; where it holds none, only then. -/
theorem deltas_restored (filter : PrivacyFilter) (last : Gap) (events : List DeltaEvent) :
    (filter.Seamless (events.map (·.text)) → filter.RestoresDeltas last events) ∧
    (filter.RestoresDeltas last events →
      Clean filter.originals (filter.substituteText (events.map (·.text)).flatten) →
      filter.Seamless (events.map (·.text))) :=
  ⟨Seamless.restoresDeltas, fun h hclean => ⟨h.uncut hclean, hclean⟩⟩

end PrivacyFilter

/-! ### An address, and a stream of its alias -/

theorem Alias.isInfix_text (a : Alias) : "redacted".toList <:+: a.text := by
  cases a with
  | email seq =>
    refine ⟨'p' :: (Nat.toDigits 10 seq ++ ['@']), ".invalid".toList, ?_⟩
    rw [Alias.text, show aliasDomain = "redacted".toList ++ ".invalid".toList by decide]
    simp only [List.cons_append, List.append_assoc, List.nil_append]
  | literal seq =>
    refine ⟨['['], '-' :: (Nat.toDigits 10 seq ++ [']']), ?_⟩
    rw [Alias.text, show "redacted-".toList = "redacted".toList ++ ['-'] by decide]
    simp only [List.cons_append, List.append_assoc, List.nil_append]

def Gap.plain (text : List Char) (h : ¬ "redacted".toList <:+: text) : Gap where
  text := text
  noAlias := by
    rintro w ⟨a, rfl⟩ hwithin
    exact h (a.isInfix_text.trans hwithin)

def opening : Gap :=
  Gap.plain "data: \x7b\"choices\":[\x7b\"delta\":\x7b\"content\":".toList (by decide +kernel)

def between : Gap :=
  Gap.plain "\x7d\x7d]\x7d\n\ndata: \x7b\"choices\":[\x7b\"delta\":\x7b\"content\":".toList
    (by decide +kernel)

def closing : Gap := Gap.plain "\x7d\x7d]\x7d\n\ndata: [DONE]\n\n".toList (by decide +kernel)

def oneAddress : PrivacyFilter := (PrivacyFilter.empty.aliasFor "ada@example.com".toList true).1

def twoDeltas (first second : String) : List DeltaEvent := [⟨opening, first.toList⟩, ⟨between, second.toList⟩]

/-- The filter of a request that holds the terms `redacted` and `zzz`. -/
def twoTerms : PrivacyFilter :=
  ((PrivacyFilter.empty.aliasFor "redacted".toList false).1.aliasFor "zzz".toList false).1

def bracketed : List DeltaEvent := [⟨opening, "[[redacted-1]-2]".toList⟩]

/-- What stands for one alias makes another: `[redacted-2]` reaches the client if the network cuts
the stream in front of `-2]`, though no alias is cut between two deltas. -/
theorem alias_made_by_another :
    Uncut twoTerms.words (bracketed.map (·.text)) ∧ ¬ twoTerms.RestoresDeltas closing bracketed := by
  constructor
  · intro before after hsplit hcross
    obtain ⟨u, v, -, hu, hv, hsuffix, hbegin⟩ := hcross
    rcases before with - | ⟨first, before⟩
    · exact hu (List.suffix_nil.mp hsuffix)
    · obtain ⟨rfl, hafter⟩ := List.append_eq_nil_iff.mp (List.cons.inj hsplit).2.symm
      rw [hafter] at hbegin
      exact hv (List.prefix_nil.mp hbegin)
  · intro h
    have hreceived := h [Utf8Decoder.encode (opening.text ++ "\"[[redacted-1]".toList),
      Utf8Decoder.encode ("-2]\"".toList ++ closing.text)] (by decide +kernel)
    exact absurd hreceived (by decide +kernel)

/-- The alias reaches the client where it was cut. -/
theorem alias_cut_between_deltas :
    ¬ ∀ (filter : PrivacyFilter) (events : List DeltaEvent) (last : Gap) (chunks : List (List UInt8)),
      chunks.flatten = Utf8Decoder.encode (streamOf last events) →
        receivedText last (events.map (·.before)) (filter.restoreResponseStream chunks) =
          some (filter.restore (events.map (·.text)).flatten) := by
  intro h
  have hcut := h oneAddress (twoDeltas "mail p1@redac" "ted.invalid now") closing [_] (List.flatten_singleton)
  have hreceived : receivedText closing [opening, between] (oneAddress.restoreResponseStream
      [Utf8Decoder.encode (streamOf closing (twoDeltas "mail p1@redac" "ted.invalid now"))]) =
        some "mail p1@redacted.invalid now".toList := by decide +kernel
  have hrestored : oneAddress.restore "mail p1@redacted.invalid now".toList = "mail ada@example.com now".toList := by
    decide +kernel
  rw [show (twoDeltas "mail p1@redac" "ted.invalid now").map (·.before) = [opening, between] by rfl, hreceived,
    show ((twoDeltas "mail p1@redac" "ted.invalid now").map (·.text)).flatten =
      "mail p1@redacted.invalid now".toList by rfl, hrestored] at hcut
  exact absurd hcut (by decide)

end TokenProxy.Privacy
