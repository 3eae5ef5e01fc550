import TokenProxy.Translator.ResponsesStream

/-!
# Think tags in the content

A content may hold `<think>` sections. `separate` says what of a text stands outside and inside of
them. The translator reads each delta by itself with `readContent`, so what it emits is right as
long as the deltas are `Clean`: no tag is cut in two, a tag that opens stands at the start of its
delta, and a delta has no tag behind one that closes.
-/

namespace TokenProxy.Translator

open Lib

/-! ### The sections of a text -/

def openTag : Text := "<think>".toList

def closeTag : Text := "</think>".toList

def tagFrom (inside : Bool) : Text := if inside then closeTag else openTag

theorem tagFrom_ne_nil (inside : Bool) : tagFrom inside ≠ [] := by
  cases inside <;> decide

def separate (inside : Bool) : Text → Text × Text
  | [] => ([], [])
  | c :: text =>
    if tagFrom inside <+: c :: text then separate (!inside) ((c :: text).drop (tagFrom inside).length)
    else if inside then ((separate inside text).1, c :: (separate inside text).2)
    else (c :: (separate inside text).1, (separate inside text).2)
  termination_by text => text.length
  decreasing_by
    · have := List.length_pos_iff.2 (tagFrom_ne_nil inside)
      simp only [List.length_drop, List.length_cons]
      omega
    all_goals simp

def onSide (inside : Bool) (text : Text) : Text × Text := if inside then ([], text) else (text, [])

def both (a b : Text × Text) : Text × Text := (a.1 ++ b.1, a.2 ++ b.2)

def Straddles (tag left right : Text) : Prop := ∃ a b, a ≠ [] ∧ b ≠ [] ∧ tag = a ++ b ∧ a <:+ left ∧ b <+: right

theorem straddles_iff {tag left right : Text} :
    Straddles tag left right ↔ ∃ n < tag.length, 0 < n ∧ tag.take n <:+ left ∧ tag.drop n <+: right := by
  constructor
  · rintro ⟨a, b, ha, hb, rfl, hsuffix, hpre⟩
    refine ⟨a.length, ?_, List.length_pos_iff.2 ha, ?_, ?_⟩
    · have := List.length_pos_iff.2 hb
      rw [List.length_append]
      omega
    · rwa [List.take_left]
    · rwa [List.drop_left]
  · rintro ⟨n, hn, hpos, hsuffix, hpre⟩
    refine ⟨tag.take n, tag.drop n, ?_, ?_, (List.take_append_drop n tag).symm, hsuffix, hpre⟩
    · apply List.ne_nil_of_length_pos
      rw [List.length_take]
      omega
    · apply List.ne_nil_of_length_pos
      rw [List.length_drop]
      omega

instance (tag left right : Text) : Decidable (Straddles tag left right) := decidable_of_iff' _ straddles_iff

theorem straddles_of_isPrefix {tag left right : Text} (h : tag <+: left ++ right)
    (hleft : ¬ tag <+: left) (hne : left ≠ []) :
    Straddles tag left right := by
  obtain h' | ⟨b, hb⟩ := List.prefix_or_prefix_of_prefix h (List.prefix_append left right)
  · exact absurd h' hleft
  · refine ⟨left, b, hne, ?_, hb.symm, List.suffix_refl left, ?_⟩
    · rintro rfl
      rw [List.append_nil] at hb
      exact hleft (hb ▸ List.prefix_refl left)
    · rw [← hb] at h
      exact (List.prefix_append_right_inj left).1 h

theorem Straddles.cons {tag left right : Text} (h : Straddles tag left right)
    (c : Char) : Straddles tag (c :: left) right := by
  obtain ⟨a, b, ha, hb, htag, hsuffix, hpre⟩ := h
  exact ⟨a, b, ha, hb, htag, hsuffix.trans (List.suffix_cons c left), hpre⟩

theorem Straddles.suffix {tag left left' right : Text} (h : Straddles tag left right)
    (hsuffix : left <:+ left') :
    Straddles tag left' right := by
  obtain ⟨a, b, ha, hb, htag, hsuffix', hpre⟩ := h
  exact ⟨a, b, ha, hb, htag, hsuffix'.trans hsuffix, hpre⟩

theorem not_infix_append {tag left right : Text} (hleft : ¬ tag <:+: left)
    (hright : ¬ tag <:+: right) (hcut : ¬ Straddles tag left right) : ¬ tag <:+: left ++ right := by
  induction left with
  | nil => exact hright
  | cons c left ih =>
    have hrest := ih (fun h => hleft (h.trans (List.suffix_cons c left).isInfix)) fun h => hcut (h.cons c)
    rw [List.cons_append, List.infix_cons_iff]
    rintro (h | h)
    · exact hcut (straddles_of_isPrefix h (fun h => hleft h.isInfix) (List.cons_ne_nil c left))
    · exact hrest h

theorem separate_nil (inside : Bool) : separate inside [] = ([], []) := by
  rw [separate.eq_def]

theorem separate_tag (inside : Bool) (text : Text) :
    separate inside (tagFrom inside ++ text) = separate (!inside) text := by
  cases h : tagFrom inside ++ text with
  | nil => simp [tagFrom_ne_nil] at h
  | cons c rest =>
    rw [separate.eq_def]
    dsimp only
    rw [← h, if_pos (List.prefix_append _ _), List.drop_left]

theorem separate_append {inside : Bool} {left right : Text} (hleft : ¬ tagFrom inside <:+: left)
    (hcut : ¬ Straddles (tagFrom inside) left right) :
    separate inside (left ++ right) = both (onSide inside left) (separate inside right) := by
  induction left with
  | nil => cases inside <;> rfl
  | cons c left ih =>
    have hnot : ¬ tagFrom inside <+: c :: (left ++ right) := fun h =>
      hcut (straddles_of_isPrefix h (fun h => hleft h.isInfix) (List.cons_ne_nil c left))
    have hstep := ih (fun h => hleft (h.trans (List.suffix_cons c left).isInfix)) fun h => hcut (h.cons c)
    rw [List.cons_append, separate.eq_def]
    dsimp only
    rw [if_neg hnot, hstep]
    cases inside <;> rfl

/-! ### Tags -/

theorem not_straddles_open {tag : Text} (h : tag = openTag ∨ tag = closeTag)
    (left right : Text) : ¬ Straddles tag left ('<' :: right) := by
  rintro ⟨a, b, ha, hb, htag, -, hpre⟩
  cases b with
  | nil => exact hb rfl
  | cons c b =>
    obtain ⟨rfl, -⟩ := List.cons_prefix_cons.1 hpre
    have hmem : '<' ∈ tag.tail := by
      cases a with
      | nil => exact absurd rfl ha
      | cons d a =>
        rw [htag]
        simp
    rcases h with rfl | rfl <;> revert hmem <;> decide

theorem not_straddles_closed {tag : Text} (h : tag = openTag ∨ tag = closeTag) (left right : Text) :
    ¬ Straddles tag (left ++ ['>']) right := by
  rintro ⟨a, b, ha, hb, htag, hsuffix, -⟩
  have hlast : a.getLast ha = '>' := by
    obtain ⟨front, hfront⟩ := hsuffix
    have := congrArg List.getLast? hfront
    rw [List.getLast?_append_of_ne_nil _ ha, List.getLast?_concat, List.getLast?_eq_some_getLast ha] at this
    exact Option.some.inj this
  have hmem : '>' ∈ tag.dropLast := by
    rw [htag, List.dropLast_append_of_ne_nil hb]
    exact List.mem_append_left _ (hlast ▸ List.getLast_mem ha)
  rcases h with rfl | rfl <;> revert hmem <;> decide

def NoTags (text : Text) : Prop := ¬ openTag <:+: text ∧ ¬ closeTag <:+: text

theorem NoTags.tagFrom {text : Text} (h : NoTags text)
    (inside : Bool) : ¬ tagFrom inside <:+: text := by
  cases inside
  · exact h.1
  · exact h.2

theorem not_straddles_tagFrom_left {tag : Text} (h : tag = openTag ∨ tag = closeTag)
    (left right : Text) (inside : Bool) :
    ¬ Straddles tag left (tagFrom inside ++ right) := by
  cases inside
  · exact not_straddles_open h left _
  · exact not_straddles_open h left _

theorem not_straddles_tagFrom_right {tag : Text} (h : tag = openTag ∨ tag = closeTag) (right : Text)
    (inside : Bool) :
    ¬ Straddles tag (tagFrom inside) right := by
  cases inside
  · exact not_straddles_closed h "<think".toList right
  · exact not_straddles_closed h "</think".toList right

/-! ### Deltas -/

/-- A delta that the translator can read by itself, with whether the text is inside a
section before it and after it. -/
inductive Clean : Bool → Text → Bool → Prop where
  | plain (inside : Bool) {text : Text} : NoTags text → Clean inside text inside
  | opens {thought : Text} : ¬ closeTag <:+: thought → Clean false (openTag ++ thought) true
  | whole {thought text : Text} :
    ¬ closeTag <:+: thought → ¬ openTag <:+: text → Clean false (openTag ++ (thought ++ (closeTag ++ text))) false
  | closes {thought text : Text} : NoTags thought → ¬ openTag <:+: text → Clean true (thought ++ (closeTag ++ text)) false

/-- The deltas are clean one after the other, and no tag is cut in two. -/
def CleanFrom (inside : Bool) : List Text → Prop
  | [] => True
  | delta :: deltas => ∃ inside', Clean inside delta inside' ∧ ¬ Straddles (tagFrom inside') delta deltas.flatten ∧ CleanFrom inside' deltas

theorem splitFirst_eq_none {w : Text} (hw : w ≠ []) {text : Text}
    (h : ¬ w <:+: text) : splitFirst w text = none := by
  induction text with
  | nil => simp [splitFirst, hw]
  | cons c text ih =>
    rw [splitFirst, if_neg fun hw => h hw.isInfix, ih fun hw => h (hw.trans (List.suffix_cons c text).isInfix)]
    rfl

theorem splitFirst_append {w before after : Text} (hw : w ≠ []) (hbefore : ¬ w <:+: before)
    (hcut : ¬ Straddles w before (w ++ after)) :
    splitFirst w (before ++ (w ++ after)) = some (before, after) := by
  induction before with
  | nil =>
    cases hcons : w ++ after with
    | nil => simp [hw] at hcons
    | cons c rest => rw [List.nil_append, splitFirst, ← hcons, if_pos (List.prefix_append w after), List.drop_left]
  | cons c before ih =>
    have hnot : ¬ w <+: c :: (before ++ (w ++ after)) := fun h =>
      hcut (straddles_of_isPrefix h (fun h => hbefore h.isInfix) (List.cons_ne_nil c before))
    rw [List.cons_append, splitFirst, if_neg hnot, ih (fun h => hbefore (h.trans (List.suffix_cons c before).isInfix)) fun h => hcut (h.cons c)]
    rfl

theorem removeFirst_of_not_infix {w text : Text} (hw : w ≠ [])
    (h : ¬ w <:+: text) : removeFirst w text = text := by
  rw [removeFirst, splitFirst_eq_none hw h]

theorem splitFirst_openTag (text : Text) : splitFirst openTag (openTag ++ text) = some ([], text) :=
  splitFirst_append (by decide) (by decide) fun h => not_straddles_open (Or.inl rfl) [] _ h

theorem splitFirst_closeTag {thought : Text} (h : ¬ closeTag <:+: thought) (text : Text) :
    splitFirst closeTag (thought ++ (closeTag ++ text)) = some (thought, text) :=
  splitFirst_append (by decide) h fun h => not_straddles_tagFrom_left (Or.inr rfl) thought text true h

theorem not_infix_closed {thought text : Text} (h : ¬ openTag <:+: thought)
    (h' : ¬ openTag <:+: text) :
    ¬ openTag <:+: thought ++ (closeTag ++ text) := by
  refine not_infix_append h (not_infix_append (by decide) h' ?_) ?_
  · exact not_straddles_tagFrom_right (Or.inl rfl) text true
  · exact not_straddles_tagFrom_left (Or.inl rfl) thought text true

theorem readContent_eq (inside : Bool) (content : Text) :
    readContent inside content =
      match splitFirst closeTag (removeFirst openTag content) with
      | some (thinkPart, textPart) => ⟨(splitFirst openTag content).isSome, true, thinkPart, textPart, false⟩
      | none =>
        if inside || (splitFirst openTag content).isSome then
          ⟨(splitFirst openTag content).isSome, false, removeFirst openTag content, [], true⟩
        else ⟨(splitFirst openTag content).isSome, false, [], removeFirst openTag content, false⟩ := rfl

theorem readContent_closed {inside : Bool} {content thought text : Text}
    (h : splitFirst closeTag (removeFirst openTag content) = some (thought, text)) :
    readContent inside content = ⟨(splitFirst openTag content).isSome, true, thought, text, false⟩ := by
  rw [readContent_eq, h]

theorem readContent_unclosed {inside : Bool} {content : Text}
    (h : splitFirst closeTag (removeFirst openTag content) = none) :
    readContent inside content =
      if inside || (splitFirst openTag content).isSome then
        ⟨(splitFirst openTag content).isSome, false, removeFirst openTag content, [], true⟩
      else ⟨(splitFirst openTag content).isSome, false, [], removeFirst openTag content, false⟩ := by
  rw [readContent_eq, h]

theorem removeFirst_openTag (text : Text) : removeFirst openTag (openTag ++ text) = text := by
  rw [removeFirst, splitFirst_openTag]
  rfl

theorem readContent_of_clean {inside inside' : Bool} {delta : Text} (h : Clean inside delta inside')
    (rest : Text) (hcut : ¬ Straddles (tagFrom inside') delta rest) :
    (readContent inside delta).inThinking = inside' ∧
      separate inside (delta ++ rest) =
        both ((readContent inside delta).text, (readContent inside delta).reasoning) (separate inside' rest) := by
  cases h with
  | plain _ hno =>
    have hopen : splitFirst openTag delta = none := splitFirst_eq_none (by decide) hno.1
    have hremove : removeFirst openTag delta = delta := removeFirst_of_not_infix (by decide) hno.1
    have hclose : splitFirst closeTag (removeFirst openTag delta) = none := by
      rw [hremove]
      exact splitFirst_eq_none (by decide) hno.2
    rw [separate_append (hno.tagFrom inside) hcut, readContent_unclosed hclose, hopen, hremove]
    cases inside
    · exact ⟨rfl, rfl⟩
    · exact ⟨rfl, rfl⟩
  | @opens thought hno =>
    have hclose : splitFirst closeTag (removeFirst openTag (openTag ++ thought)) = none := by
      rw [removeFirst_openTag]
      exact splitFirst_eq_none (by decide) hno
    have htail : separate false (openTag ++ thought ++ rest) = separate true (thought ++ rest) := by
      rw [List.append_assoc]
      exact separate_tag false _
    rw [htail, @separate_append true _ _ hno fun hs => hcut (hs.suffix (List.suffix_append openTag thought)),
      readContent_unclosed hclose, splitFirst_openTag, removeFirst_openTag]
    exact ⟨rfl, rfl⟩
  | @whole thought text hno hno' =>
    have hclose : splitFirst closeTag (removeFirst openTag (openTag ++ (thought ++ (closeTag ++ text)))) = some (thought, text) := by
      rw [removeFirst_openTag]
      exact splitFirst_closeTag hno text
    have hopened : separate false (openTag ++ (thought ++ (closeTag ++ text)) ++ rest) =
        separate true (thought ++ (closeTag ++ (text ++ rest))) := by
      simp only [List.append_assoc]
      exact separate_tag false _
    have hclosed : separate true (closeTag ++ (text ++ rest)) = separate false (text ++ rest) := separate_tag true _
    have hsuffix : text <:+ openTag ++ (thought ++ (closeTag ++ text)) := by
      simp only [← List.append_assoc]
      exact List.suffix_append _ text
    have hcut' : ¬ Straddles (tagFrom true) thought (closeTag ++ (text ++ rest)) :=
      not_straddles_tagFrom_left (Or.inr rfl) thought (text ++ rest) true
    rw [hopened, @separate_append true _ _ hno hcut', hclosed,
      @separate_append false _ _ hno' fun hs => hcut (hs.suffix hsuffix), readContent_closed hclose]
    refine ⟨rfl, ?_⟩
    simp [both, onSide]
  | @closes thought text hno hno' =>
    have hremove : removeFirst openTag (thought ++ (closeTag ++ text)) = thought ++ (closeTag ++ text) :=
      removeFirst_of_not_infix (by decide) (not_infix_closed hno.1 hno')
    have hclose : splitFirst closeTag (removeFirst openTag (thought ++ (closeTag ++ text))) = some (thought, text) := by
      rw [hremove]
      exact splitFirst_closeTag hno.2 text
    have hassoc : thought ++ (closeTag ++ text) ++ rest = thought ++ (closeTag ++ (text ++ rest)) := by
      simp only [List.append_assoc]
    have hclosed : separate true (closeTag ++ (text ++ rest)) = separate false (text ++ rest) := separate_tag true _
    have hsuffix : text <:+ thought ++ (closeTag ++ text) := by
      simp only [← List.append_assoc]
      exact List.suffix_append _ text
    have hcut' : ¬ Straddles (tagFrom true) thought (closeTag ++ (text ++ rest)) :=
      not_straddles_tagFrom_left (Or.inr rfl) thought (text ++ rest) true
    rw [hassoc, separate_append (hno.tagFrom true) hcut', hclosed,
      @separate_append false _ _ hno' fun hs => hcut (hs.suffix hsuffix), readContent_closed hclose]
    refine ⟨rfl, ?_⟩
    simp [both, onSide]

/-! ### The stream -/

def deltasOf (channel : Channel) (events : List ResponsesEvent) : Text :=
  events.flatMap fun event =>
    match event.data with
    | .delta _ c _ text => if c = channel then text else []
    | _ => []

def streamed (events : List ResponsesEvent) : Text × Text := (deltasOf .outputText events, deltasOf .reasoningSummaryText events)

theorem streamed_append (es es' : List ResponsesEvent) :
    streamed (es ++ es') = both (streamed es) (streamed es') := by
  simp [streamed, deltasOf, both]

theorem streamed_nil : streamed [] = ([], []) := rfl

def Silent : ResponsesData → Prop
  | .delta _ c _ _ => c ≠ .outputText ∧ c ≠ .reasoningSummaryText
  | _ => True

/-- The emitter streams `out`, whatever its state, and does not change the
section that the text is in. -/
def Streams (f : ResponsesEmitter) (out : Text × Text) : Prop := ∀ s, streamed (f s).2 = out ∧ (f s).1.inThinking = s.inThinking

abbrev Still (f : ResponsesEmitter) : Prop := Streams f ([], [])

theorem Streams.seq {f g : ResponsesEmitter} {out out' : Text × Text} (hf : Streams f out)
    (hg : Streams g out') :
    Streams (f.seq g) (both out out') := by
  intro s
  rw [Emitter.seq_apply, streamed_append, (hf s).1, (hg _).1]
  exact ⟨rfl, (hg _).2.trans (hf s).2⟩

theorem both_nil_right (out : Text × Text) : both out ([], []) = out := by
  simp [both]

theorem Still.seq {f g : ResponsesEmitter} {out : Text × Text} (hf : Still f)
    (hg : Streams g out) : Streams (f.seq g) out :=
  Streams.seq hf hg

theorem Streams.seq_still {f g : ResponsesEmitter} {out : Text × Text} (hf : Streams f out)
    (hg : Still g) : Streams (f.seq g) out :=
  both_nil_right out ▸ hf.seq hg

theorem still_skip : Still .skip := fun _ => ⟨rfl, rfl⟩

theorem still_modify {k : ResponsesState → ResponsesState}
    (h : ∀ s, (k s).inThinking = s.inThinking) : Still (.modify k) :=
  fun s => ⟨rfl, h s⟩

theorem Streams.of_ite {c : Prop} [Decidable c] {f g : ResponsesEmitter} {out : Text × Text}
    (hf : c → Streams f out) (hg : ¬ c → Streams g out) : Streams (if c then f else g) out := by
  split_ifs with h
  · exact hf h
  · exact hg h

theorem still_emit {data : ResponsesData} (h : Silent data) : Still (emit data) := by
  intro s
  refine ⟨?_, rfl⟩
  cases data with
  | delta k c itemId text =>
    simp [emit, streamed, deltasOf, h.1, h.2]
  | _ => rfl

theorem still_loop {α : Type} {f : α → ResponsesEmitter} {as : List α}
    (h : ∀ a ∈ as, Still (f a)) : Still (Emitter.each f as) := by
  induction as with
  | nil => exact still_skip
  | cons a as ih => exact (h a (List.mem_cons_self ..)).seq (ih fun b hb => h b (List.mem_cons_of_mem a hb))

theorem still_each {datas : List ResponsesData}
    (h : ∀ data ∈ datas, Silent data) : Still (Emitter.each emit datas) :=
  still_loop fun data hdata => still_emit (h data hdata)

theorem inThinking_outputIndexFor (key : OutputKey)
    (s : ResponsesState) : (outputIndexFor key s).1.inThinking = s.inThinking := by
  unfold outputIndexFor
  split <;> rfl

theorem still_emitAt (key : OutputKey) {datas : ℤ → List ResponsesData}
    (h : ∀ k, ∀ data ∈ datas k, Silent data) :
    Still (emitAt key datas) := by
  intro s
  obtain ⟨hout, hin⟩ := still_each (h (outputIndexFor key s).2) (outputIndexFor key s).1
  exact ⟨hout, hin.trans (inThinking_outputIndexFor key s)⟩

def reasoningIdFor (s : ResponsesState) (idx : ℕ) : Text := "rs_".toList ++ s.responseId ++ "_".toList ++ (toString idx).toList

theorem still_startReasoning (idx : ℕ) : Still (startReasoning idx) := by
  intro s
  unfold startReasoning
  split_ifs
  · exact ⟨rfl, rfl⟩
  · obtain ⟨hout, hin⟩ := @still_each
      [.itemAdded (outputIndexFor .reasoning s).2 (.reasoning (reasoningIdFor s idx) none),
        .partAdded (outputIndexFor .reasoning s).2 (reasoningIdFor s idx)] (by simp [Silent])
      { (outputIndexFor .reasoning s).1 with
        reasoningId := reasoningIdFor s idx, reasoningIndex := (outputIndexFor .reasoning s).2 }
    exact ⟨hout, hin.trans (inThinking_outputIndexFor .reasoning s)⟩

theorem still_closeReasoning : Still closeReasoning := by
  intro s
  unfold closeReasoning
  split_ifs
  · exact ⟨rfl, rfl⟩
  · exact still_each (by simp [Silent]) { s with reasoningDone := true }

theorem streams_emitReasoningDelta (text : Text) :
    Streams (emitReasoningDelta text) ([], text) := by
  intro s
  unfold emitReasoningDelta
  split_ifs with h
  · exact ⟨by rw [h]; rfl, rfl⟩
  · exact ⟨by simp [emit, streamed, deltasOf], rfl⟩

theorem still_startMessageItem (idx : ℕ) : Still (startMessageItem idx) := by
  intro s
  unfold startMessageItem
  split_ifs
  · exact ⟨rfl, rfl⟩
  · exact still_emitAt (.msg idx) (by simp [Silent]) { s with messages := s.messages.put (idx, {}) }

theorem streams_emitTextContent (idx : ℕ) (content : Text) :
    Streams (emitTextContent idx content) (content, []) := by
  refine (still_startMessageItem idx).seq ?_
  intro s
  refine ⟨by simp [Emitter.seq_apply, Emitter.modify, emitAt, emit, streamed, deltasOf], ?_⟩
  exact inThinking_outputIndexFor (.msg idx) s

theorem still_closeMessage (idx : ℕ) : Still (closeMessage idx) := by
  intro s
  unfold closeMessage
  split
  · exact ⟨rfl, rfl⟩
  · split_ifs
    · exact ⟨rfl, rfl⟩
    · exact still_emitAt (.msg idx) (by simp [Silent]) { s with messages := _ }

theorem still_announceCall (names : ToolNames) (idx : ℕ) : Still (announceCall names idx) := by
  intro s
  unfold announceCall
  dsimp only
  split_ifs
  · exact still_emitAt (.tool idx) (by simp [Silent]) { s with calls := _ }
  · exact ⟨rfl, rfl⟩

theorem still_emitArguments (json : JsonText) (names : ToolNames) (idx : ℕ) (fragment : Text) :
    Still (emitArguments json names idx fragment) := by
  intro s
  unfold emitArguments
  dsimp only
  split_ifs
  · exact ⟨rfl, rfl⟩
  · exact (still_emitAt (.tool idx) (by simp [Silent])).seq (still_modify fun _ => rfl) s
  · exact still_skip.seq (still_modify fun _ => rfl) s

theorem still_emitToolCall (json : JsonText) (names : ToolNames)
    (tc : ToolCallFragment) : Still (emitToolCall json names tc) := by
  refine Still.seq (Still.seq (still_modify ?_) (still_announceCall names tc.idx)) (still_emitArguments json names tc.idx tc.arguments)
  intro s
  rfl

theorem still_closeToolCall (json : JsonText) (names : ToolNames)
    (idx : ℕ) : Still (closeToolCall json names idx) := by
  intro s
  unfold closeToolCall
  dsimp only
  split_ifs
  · exact ⟨rfl, rfl⟩
  · exact still_emitAt (.tool idx) (by simp [Silent]) { s with calls := _ }
  · exact still_emitAt (.tool idx) (by simp [Silent]) { s with calls := _ }

theorem still_sendCompleted : Still sendCompleted := by
  intro s
  unfold sendCompleted
  split_ifs
  · exact ⟨rfl, rfl⟩
  · exact @still_emit (.completed _ _ _ _) trivial { s with completedSent := true }

theorem still_closeItems (json : JsonText) (names : ToolNames) : Still (closeItems json names) := fun s =>
  ((still_loop fun idx _ => still_closeMessage idx).seq still_closeReasoning).seq
    (still_loop fun idx _ => still_closeToolCall json names idx) s

theorem still_flushEvents (json : JsonText) (names : ToolNames) :
    Still (flushEvents json names) := by
  intro s
  unfold flushEvents
  split_ifs
  · exact ⟨rfl, rfl⟩
  · exact (still_closeItems json names).seq still_sendCompleted s

theorem still_startResponse (chunk : Chunk) : Still (startResponse chunk) := by
  intro s
  unfold startResponse
  dsimp only
  split
  · exact ⟨rfl, rfl⟩
  · refine still_each ?_ { s with started := true, responseId := _ }
    simp only [List.mem_cons, List.not_mem_nil, or_false, forall_eq_or_imp, forall_eq, Silent, and_self]

theorem still_endReasoning : Still endReasoning := by
  intro s
  unfold endReasoning
  split_ifs
  · exact ⟨rfl, rfl⟩
  · exact still_closeReasoning s

theorem still_emitToolCallsOf (json : JsonText) (names : ToolNames) (idx : ℕ)
    (toolCalls : List ToolCallFragment) :
    Still (emitToolCallsOf json names idx toolCalls) :=
  Streams.of_ite (fun _ => still_skip) fun _ =>
    (still_closeMessage idx).seq (still_loop fun tc _ => still_emitToolCall json names tc)

theorem still_finishResponse (json : JsonText) (names : ToolNames)
    (reason : Text) : Still (finishResponse json names reason) := by
  refine Streams.of_ite (fun _ => still_skip) fun _ => ?_
  refine Still.seq (Still.seq (Still.seq (still_modify ?_) (still_closeItems json names)) (still_modify ?_)) ?_
  · intro s
    rfl
  · intro s
    rfl
  · intro s
    dsimp only
    split_ifs
    · exact still_sendCompleted s
    · exact ⟨rfl, rfl⟩

/-! ### One chunk after the other -/

/-- The emitter streams what the translator makes of the content, in the
section that the text is in. -/
def Reads (f : ResponsesEmitter) (content : Text) : Prop := ∀ s,
  streamed (f s).2 = ((readContent s.inThinking content).text, (readContent s.inThinking content).reasoning) ∧
    (f s).1.inThinking = (readContent s.inThinking content).inThinking

theorem readContent_nil (inside : Bool) :
    readContent inside [] = ⟨false, false, [], [], inside⟩ := by
  cases inside
  · rfl
  · rfl

theorem Still.reads_nil {f : ResponsesEmitter} (h : Still f) : Reads f [] := by
  intro s
  rw [readContent_nil]
  exact h s

theorem Still.reads {f g : ResponsesEmitter} {content : Text} (hf : Still f)
    (hg : Reads g content) : Reads (f.seq g) content := by
  intro s
  obtain ⟨hout, hin⟩ := hg (f s).1
  rw [(hf s).2] at hout hin
  rw [Emitter.seq_apply, streamed_append, (hf s).1, hout]
  exact ⟨rfl, hin⟩

theorem Reads.still {f g : ResponsesEmitter} {content : Text} (hf : Reads f content)
    (hg : Still g) : Reads (f.seq g) content := by
  intro s
  obtain ⟨hout, hin⟩ := hf s
  rw [Emitter.seq_apply, streamed_append, hout, (hg _).1, both_nil_right]
  exact ⟨rfl, (hg _).2.trans hin⟩

theorem emitParts_streams (idx : ℕ) (parts : ContentParts) (s : ResponsesState) :
    streamed (emitParts idx parts s).2 = (parts.text, parts.reasoning) ∧ (emitParts idx parts s).1.inThinking = parts.inThinking := by
  have hopens : Still (if parts.opens then startReasoning idx else .skip) :=
    Streams.of_ite (fun _ => still_startReasoning idx) fun _ => still_skip
  have hcloses : Still (if parts.closes then closeReasoning else .skip) :=
    Streams.of_ite (fun _ => still_closeReasoning) fun _ => still_skip
  have hbefore := (Streams.seq_still ((Still.seq still_endReasoning hopens).seq (streams_emitReasoningDelta parts.reasoning)) hcloses) s
  have hafter : Streams (if parts.text = [] then .skip else emitTextContent idx parts.text) (parts.text, []) := by
    split_ifs with h
    · rw [h]
      exact still_skip
    · exact streams_emitTextContent idx parts.text
  unfold emitParts
  rw [Emitter.seq_apply, Emitter.seq_apply, streamed_append, streamed_append, hbefore.1, (hafter _).1, (hafter _).2]
  refine ⟨?_, rfl⟩
  simp [both, Emitter.modify, streamed_nil]

theorem reads_emitContentText (idx : ℕ) (content : Text) :
    Reads (emitContentText idx content) content := by
  intro s
  unfold emitContentText
  split_ifs with h
  · rw [h]
    exact still_skip.reads_nil s
  · exact emitParts_streams idx (readContent s.inThinking content) s

theorem reads_emitResponsesChoice (json : JsonText) (names : ToolNames) (chunk : Chunk)
    {choice : Choice} (hinline : extractReasoningText choice.delta = []) :
    Reads (emitResponsesChoice json names chunk choice) choice.delta.content := by
  have hreasoning : Still (emitReasoningText choice.index (extractReasoningText choice.delta)) := by
    rw [hinline]
    exact still_skip
  refine Still.reads (Still.seq (still_startResponse chunk) hreasoning) ?_
  intro s
  dsimp only
  split_ifs
  · exact reads_emitContentText choice.index choice.delta.content s
  · exact (Reads.still (Reads.still (reads_emitContentText choice.index choice.delta.content)
      (still_emitToolCallsOf json names choice.index choice.delta.toolCalls)) (still_finishResponse json names choice.finishReason)) s

/-- The text that a chunk brings, in the content of its first choice. -/
def Chunk.content (chunk : Chunk) : Text := ((chunk.choices.head?).map fun choice => choice.delta.content).getD []

def Chunk.Inline (chunk : Chunk) : Prop := ∀ choice ∈ chunk.choices.head?, extractReasoningText choice.delta = []

theorem reads_chunk (json : JsonText) (names : ToolNames) {chunk : Chunk} (hinline : chunk.Inline) :
    Reads (openaiToOpenAIResponsesResponse json names (some chunk)) chunk.content := by
  have hnote : Still (noteUsage chunk.usage) := by
    refine still_modify ?_
    intro s
    cases chunk.usage <;> rfl
  refine hnote.reads ?_
  intro s
  unfold Chunk.content
  cases hchoice : chunk.choices.head? with
  | none =>
    have hidle : Still fun state => if state.completionPending ∧ state.usage.isSome then sendCompleted state else (state, []) := by
      intro s
      dsimp only
      split_ifs
      · exact still_sendCompleted s
      · exact still_skip s
    exact hidle.reads_nil s
  | some choice => exact reads_emitResponsesChoice json names chunk (hinline choice hchoice) s

theorem streamed_of_clean (json : JsonText) (names : ToolNames) {chunks : List Chunk}
    (hinline : ∀ chunk ∈ chunks, chunk.Inline)
    (s : ResponsesState) (hclean : CleanFrom s.inThinking (chunks.map Chunk.content)) :
    streamed (responsesChunks json names chunks s).2 = separate s.inThinking (chunks.map Chunk.content).flatten := by
  induction chunks generalizing s with
  | nil => rw [List.map_nil, List.flatten_nil, separate_nil]; rfl
  | cons chunk chunks ih =>
    obtain ⟨inside', hdelta, hcut, hrest⟩ := hclean
    obtain ⟨hafter, htexts⟩ := readContent_of_clean hdelta _ hcut
    obtain ⟨hout, hin⟩ := reads_chunk json names (hinline chunk (List.mem_cons_self ..)) s
    have hin' := hin.trans hafter
    have htail := ih (fun c hc => hinline c (List.mem_cons_of_mem chunk hc))
      (openaiToOpenAIResponsesResponse json names (some chunk) s).1 (hin' ▸ hrest)
    rw [hin'] at htail
    calc streamed (responsesChunks json names (chunk :: chunks) s).2
        = both (streamed (openaiToOpenAIResponsesResponse json names (some chunk) s).2)
            (streamed (responsesChunks json names chunks (openaiToOpenAIResponsesResponse json names (some chunk) s).1).2) :=
          streamed_append _ _
      _ = separate s.inThinking (chunk.content ++ (chunks.map Chunk.content).flatten) := by rw [hout, htail, htexts]
      _ = separate s.inThinking ((chunk :: chunks).map Chunk.content).flatten := by rw [List.map_cons, List.flatten_cons]

theorem CleanFrom.take {inside : Bool} {deltas : List Text} (h : CleanFrom inside deltas)
    (n : ℕ) : CleanFrom inside (deltas.take n) := by
  induction deltas generalizing inside n with
  | nil => simpa using h
  | cons delta deltas ih =>
    obtain ⟨inside', hdelta, hcut, hrest⟩ := h
    cases n with
    | zero => exact trivial
    | succ n =>
      refine ⟨inside', hdelta, ?_, ih hrest n⟩
      rintro ⟨a, b, ha, hb, htag, hsuffix, hpre⟩
      refine hcut ⟨a, b, ha, hb, htag, hsuffix, hpre.trans ?_⟩
      exact (List.take_prefix n deltas).flatten

/-- **Clean deltas are separated.** Whatever else the chunks hold, after any number of them what was
streamed as text and as reasoning is what stands outside and inside of the sections of the text so
far, and so it is after the flush. -/
theorem thinkTags_separated (json : JsonText) (names : ToolNames) (chunks : List Chunk)
    (s : ResponsesState)
    (hstart : s.inThinking = false) (hinline : ∀ chunk ∈ chunks, chunk.Inline) (hclean : CleanFrom false (chunks.map Chunk.content)) :
    (∀ n, streamed (responsesChunks json names (chunks.take n) s).2 = separate false ((chunks.take n).map Chunk.content).flatten) ∧
      streamed (responsesStream json names chunks s).2 = separate false (chunks.map Chunk.content).flatten := by
  rw [← hstart] at hclean ⊢
  constructor
  · intro n
    refine streamed_of_clean json names (fun chunk hchunk => hinline chunk (List.mem_of_mem_take hchunk)) s ?_
    rw [List.map_take]
    exact hclean.take n
  · have hflush : Still (openaiToOpenAIResponsesResponse json names none) := still_flushEvents json names
    unfold responsesStream
    rw [Emitter.seq_apply, streamed_append, (hflush _).1, both_nil_right, streamed_of_clean json names hinline s hclean]

def contentChunk (content : String) : Chunk := { choices := [{ delta := { content := content.toList } }] }

theorem inline_contentChunk (contents : List String) :
    ∀ chunk ∈ contents.map contentChunk, chunk.Inline := by
  intro chunk hchunk
  obtain ⟨content, -, rfl⟩ := List.mem_map.1 hchunk
  simp [Chunk.Inline, contentChunk, extractReasoningText]

theorem thinkTags_separated_threeDeltas :
    streamed (responsesStream noJson {} (["a", "<think>b", "c</think>d"].map contentChunk) {}).2 =
      separate false "a<think>bc</think>d".toList := by
  refine (thinkTags_separated noJson {} (["a", "<think>b", "c</think>d"].map contentChunk) {} rfl (inline_contentChunk _) ?_).2
  refine ⟨false, .plain false (by unfold NoTags; decide), ?_, true, @Clean.opens "b".toList (by decide), ?_, false,
    @Clean.closes "c".toList "d".toList (by unfold NoTags; decide) (by decide), ?_, trivial⟩
  all_goals decide +kernel

/-- A tag that is cut in two is streamed as text. -/
theorem cutTag_streamed :
    ¬ ∀ contents : List String, streamed (responsesStream noJson {} (contents.map contentChunk) {}).2 =
      separate false (contents.flatMap String.toList) := by
  intro h
  have hstreamed := h ["<thi", "nk>a</think>b"]
  revert hstreamed
  decide +kernel

end TokenProxy.Translator
