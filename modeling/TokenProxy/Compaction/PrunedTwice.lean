import TokenProxy.Compaction.ToolPruner

/-!
# Pruning a message twice

A text that is cut is not longer than before, and stays as it is when it is cut again, just if the
notice takes as much room as what it replaces (`SelfCut`). The object of a `functionResponse` is
stored anew around its cut JSON text, so there the quotation must fit as well (`SelfStored`).
`truncateMessageTools_harmless_iff` puts this together for the messages of every dialect.
-/

namespace TokenProxy.ToolPruner

open Lib Lib.JsonText Compression

variable {α β : Type} {maxChars : ℕ}

/-! ### Texts in quotation marks -/

theorem hex_ne_bracket {d : ℕ} (hd : d < 16) : (if d < 10 then 48 + d else 87 + d) ≠ 91 := by
  split <;> omega

theorem hex_digits {c : ℕ} (h : c < 0x10000) :
    c / 4096 < 16 ∧ c / 256 % 16 < 16 ∧ c / 16 % 16 < 16 ∧ c % 16 < 16 := by
  omega

/-- A unit is quoted as itself, or as an escape in which no bracket opens. -/
theorem quoteUnit_cases (paired : Bool) (c : CodeUnit) :
    (quoteUnit paired c = [c] ∧ c ≠ 34 ∧ c ≠ 92) ∨ ∃ escape, quoteUnit paired c = 92 :: escape ∧ 91 ∉ 92 :: escape := by
  have hletter : ∀ d : CodeUnit, d ≠ 91 → 91 ∉ [92, d] := by
    intro d hd hmem
    simp only [List.mem_cons, List.not_mem_nil, or_false] at hmem
    rcases hmem with h | h
    · exact absurd h (by decide)
    · exact hd h.symm
  unfold quoteUnit
  by_cases h34 : c = 34
  · exact .inr ⟨[34], by rw [if_pos h34]; rfl, hletter _ (by decide)⟩
  rw [if_neg h34]
  by_cases h92 : c = 92
  · exact .inr ⟨[92], by rw [if_pos h92]; rfl, hletter _ (by decide)⟩
  rw [if_neg h92]
  by_cases h8 : c = 8
  · exact .inr ⟨[98], by rw [if_pos h8]; rfl, hletter _ (by decide)⟩
  rw [if_neg h8]
  by_cases h9 : c = 9
  · exact .inr ⟨[116], by rw [if_pos h9]; rfl, hletter _ (by decide)⟩
  rw [if_neg h9]
  by_cases h10 : c = 10
  · exact .inr ⟨[110], by rw [if_pos h10]; rfl, hletter _ (by decide)⟩
  rw [if_neg h10]
  by_cases h12 : c = 12
  · exact .inr ⟨[102], by rw [if_pos h12]; rfl, hletter _ (by decide)⟩
  rw [if_neg h12]
  by_cases h13 : c = 13
  · exact .inr ⟨[114], by rw [if_pos h13]; rfl, hletter _ (by decide)⟩
  rw [if_neg h13]
  split
  · rename_i hescaped
    have hsmall : c < 0x10000 := by
      simp only [isHighSurrogate, isLowSurrogate, Bool.or_eq_true, Bool.and_eq_true, decide_eq_true_eq] at hescaped
      rcases hescaped with h | ⟨h | h, -⟩
      · exact lt_trans h (by decide)
      · exact lt_of_le_of_lt h.2 (by decide)
      · exact lt_of_le_of_lt h.2 (by decide)
    have hdigit : ∀ d : ℕ, d < 16 → ∀ rest : Text, 91 ∉ rest → 91 ∉ (if d < 10 then 48 + d else 87 + d) :: rest := by
      intro d hd rest hrest hmem
      rcases List.mem_cons.mp hmem with h | h
      · exact hex_ne_bracket hd h.symm
      · exact hrest h
    refine .inr ⟨_, rfl, ?_⟩
    obtain ⟨h1, h2, h3, h4⟩ := hex_digits hsmall
    have hdigits := hdigit _ h1 _ (hdigit _ h2 _ (hdigit _ h3 _ (hdigit _ h4 [] List.not_mem_nil)))
    intro hmem
    rcases List.mem_cons.mp hmem with h | hmem
    · exact absurd h (by decide)
    rcases List.mem_cons.mp hmem with h | hmem
    · exact absurd h (by decide)
    · exact hdigits hmem
  · exact .inl ⟨rfl, h34, h92⟩

inductive Quotes : Text → Text → Prop
  | nil : Quotes [] []
  | cons (paired : Bool) (c : CodeUnit) {text quoted : Text} (h : Quotes text quoted) :
      Quotes (c :: text) (quoteUnit paired c ++ quoted)

theorem quotes_quoteUnits (text : Text) : Quotes text (quoteUnits text) := by
  induction text using quoteUnits.induct with
  | case1 => exact .nil
  | case2 c =>
    have h := Quotes.cons false c .nil
    rwa [List.append_nil] at h
  | case3 c next text hpair ih =>
    rw [quoteUnits, if_pos hpair, List.append_assoc]
    exact .cons true c (.cons true next ih)
  | case4 c next text hpair ih =>
    rw [quoteUnits, if_neg hpair]
    exact .cons false c ih

/-- The quotation is at least as long as the text. -/
theorem Quotes.length_le {text quoted : Text}
    (h : Quotes text quoted) : text.length ≤ quoted.length := by
  induction h with
  | nil => exact Nat.le_refl 0
  | cons paired c h ih =>
    rw [List.length_cons, List.length_append]
    rcases quoteUnit_cases paired c with ⟨hself, -⟩ | ⟨escape, hescape, -⟩
    · rw [hself, List.length_singleton]
      omega
    · rw [hescape, List.length_cons]
      omega

theorem Quotes.prefix_of {text quoted m rest : Text} (h : Quotes text quoted) (hquote : 34 ∉ m)
    (hback : 92 ∉ m) (hm : m <+: quoted ++ 34 :: rest) : m <+: text := by
  induction h generalizing m with
  | nil =>
    cases m with
    | nil => exact List.nil_prefix
    | cons x m =>
      rw [List.nil_append, List.cons_prefix_cons] at hm
      exact absurd (hm.1 ▸ List.mem_cons_self) hquote
  | cons paired c h ih =>
    cases m with
    | nil => exact List.nil_prefix
    | cons x m =>
      rcases quoteUnit_cases paired c with ⟨hself, -⟩ | ⟨escape, hescape, -⟩
      · rw [hself, List.append_assoc, List.singleton_append, List.cons_prefix_cons] at hm
        rw [List.cons_prefix_cons]
        exact ⟨hm.1, ih (fun h => hquote (List.mem_cons_of_mem x h)) (fun h => hback (List.mem_cons_of_mem x h)) hm.2⟩
      · rw [hescape, List.append_assoc, List.cons_append, List.cons_prefix_cons] at hm
        exact absurd (hm.1 ▸ List.mem_cons_self) hback

/-- What begins with a bracket is found in no text but one in which the bracket is found. -/
theorem infix_of_append {front text m : Text} (hfront : 91 ∉ front)
    (h : 91 :: m <:+: front ++ text) : 91 :: m <:+: text := by
  induction front with
  | nil => exact h
  | cons c front ih =>
    rw [List.cons_append, List.infix_cons_iff] at h
    rcases h with h | h
    · rw [List.cons_prefix_cons] at h
      exact absurd (h.1 ▸ List.mem_cons_self) hfront
    · exact ih (fun h => hfront (List.mem_cons_of_mem c h)) h

theorem Quotes.infix_of {text quoted m rest : Text} (h : Quotes text quoted) (hquote : 34 ∉ 91 :: m)
    (hback : 92 ∉ 91 :: m)
    (hrest : 91 ∉ rest) (hm : 91 :: m <:+: quoted ++ 34 :: rest) : 91 :: m <:+: text := by
  induction h with
  | nil =>
    have hmem : 91 ∈ 34 :: rest := hm.subset List.mem_cons_self
    rcases List.mem_cons.mp hmem with h | h
    · exact absurd h (by decide)
    · exact absurd h hrest
  | cons paired c h ih =>
    have hwhole := Quotes.cons paired c h
    rcases quoteUnit_cases paired c with ⟨hself, -⟩ | ⟨escape, hescape, hbracket⟩
    · rw [hself, List.append_assoc, List.singleton_append, List.infix_cons_iff] at hm
      rcases hm with hprefix | hinfix
      · refine List.IsPrefix.isInfix (hwhole.prefix_of hquote hback (?_ : _ <+: _ ++ 34 :: rest))
        rwa [hself, List.append_assoc, List.singleton_append]
      · exact List.infix_cons (ih hinfix)
    · rw [hescape, List.append_assoc] at hm
      exact List.infix_cons (ih (infix_of_append hbracket hm))

/-! ### A response that is stored anew -/

theorem stringify_output (text : Text) :
    (Response.output text).stringify = units "\x7b\"output\":\"" ++ (quoteUnits text ++ 34 :: [125]) := by
  rw [← List.append_assoc]
  rfl

theorem hasElideMarker_output {text : Text} (h : hasElideMarker text = false) :
    hasElideMarker (Response.output text).stringify = false := by
  rw [← Bool.not_eq_true, hasElideMarker_iff] at h ⊢
  rintro ⟨m, hm, hinfix⟩
  obtain ⟨rest, rfl⟩ := hm.head
  rw [stringify_output] at hinfix
  have hquoted := infix_of_append (by decide) hinfix
  exact h ⟨_, hm, (quotes_quoteUnits text).infix_of (hm.notMem (.inr (.inl rfl))) (hm.notMem (.inr (.inr rfl))) (by decide) hquoted⟩

theorem length_lt_output (text : Text) : text.length < (Response.output text).stringify.length := by
  have hle := (quotes_quoteUnits text).length_le
  rw [stringify_output, List.length_append, List.length_append, List.length_cons]
  omega

/-- **When a response that is stored anew is not longer and is stored the same a second time**: the
JSON text around the cut one has as many characters, the same ones where the head and the tail are
taken, and as many lines in the notice. -/
def SelfStored (json : Text) (maxChars : ℕ) : Prop :=
  let stored := (Response.output (cutText json maxChars)).stringify
  let omitted := omittedChars json.length maxChars
  4 ≤ maxChars ∧ stored.length = json.length ∧ stored.take (headChars maxChars) = json.take (headChars maxChars) ∧
    sliceTail (tailChars maxChars) stored = sliceTail (tailChars maxChars) json ∧
    omittedLines (stored.count Compression.newline) omitted json.length = omittedLines (json.count Compression.newline) omitted json.length

theorem selfStored_iff {json : Text} (hlong : maxChars < json.length) (hcap : maxChars < 2 ^ 53) :
    (Response.output (cutText json maxChars)).stringify.length ≤ json.length ∧
        cutText (Response.output (cutText json maxChars)).stringify maxChars = cutText json maxChars ↔
      SelfStored json maxChars := by
  have hstored := length_lt_output (cutText json maxChars)
  by_cases ht : tailChars maxChars = 0
  · have hlonger := length_lt_cutText json ht
    exact ⟨fun h => absurd h.1 (not_le.2 (hlonger.trans hstored)),
      fun h => absurd h.1 (not_le.2 (tailChars_eq_zero_iff.1 ht))⟩
  · have hfour : 4 ≤ maxChars := not_lt.1 fun h => ht (tailChars_eq_zero_iff.2 h)
    rw [cutText_inj ((lt_length_cutText hlong hcap).trans hstored) hlong hcap ht]
    constructor
    · rintro ⟨-, hhead, htail, hlength, hlines⟩
      exact ⟨hfour, hlength, hhead, htail, hlines⟩
    · rintro ⟨-, hlength, hhead, htail, hlines⟩
      exact ⟨hlength.le, hhead, htail, hlength, hlines⟩

/-! ### The texts of a message -/

def Content.texts (f : α → List Text) : Content α → List Text
  | .text t => [t]
  | .list parts => parts.flatMap f
  | .other => []

def TextPart.texts (part : TextPart) : List Text := part.text.toList

def Block.texts (block : Block) : List Text := block.text.toList ++ block.content.texts TextPart.texts

def Part.texts (part : Part) : List Text := (part.functionResponse.getD none).toList.map Response.stringify

def Message.texts (msg : Message) : List Text :=
  msg.content.texts Block.texts ++ (msg.output.texts TextPart.texts ++ (msg.parts.getD []).flatMap Part.texts)

/-! ### Its tool outputs -/

inductive Output where
  | text (text : Text)
  | response (json : Text)

/-- Pruning makes the output no longer, and a second time changes nothing. -/
def Output.Steady (maxChars : ℕ) : Output → Prop
  | .text t => t.length ≤ maxChars ∨ hasElideMarker t = true ∨ SelfCut t maxChars
  | .response json => json.length ≤ maxChars ∨ hasElideMarker json = true ∨ SelfStored json maxChars

def TextPart.outputs (wanted : String) (part : TextPart) : List Output :=
  if !isErrorFlagged part.flags && part.type == some wanted then part.text.toList.map .text else []

def Block.textOutputs (block : Block) : List Output :=
  if !isErrorFlagged block.flags && block.type == some "text" then block.text.toList.map .text else []

def Content.outputs (wanted : String) : Content TextPart → List Output
  | .text t => [.text t]
  | .list parts => parts.flatMap (TextPart.outputs wanted)
  | .other => []

def Block.toolOutputs (block : Block) : List Output :=
  if block.type != some "tool_result" || isErrorFlagged block.flags then [] else block.content.outputs "text"

def Part.outputs (part : Part) : List Output :=
  if isErrorFlagged part.flags then [] else part.texts.map .response

/-- The tool outputs of a message without an error flag, in the dialect that the message is in. -/
def Message.outputs (msg : Message) : List Output :=
  if isErrorFlagged msg.flags then []
  else
    let isTool := msg.role == some "tool"
    match isTool || msg.role == some "function", msg.content with
    | true, .text text => [.text text]
    | _, content =>
      match isTool, content with
      | true, .list blocks => blocks.flatMap Block.textOutputs
      | _, content =>
        if msg.type == some "function_call_output" then msg.output.outputs "input_text"
        else
          match content, msg.parts with
          | .list blocks, _ => blocks.flatMap Block.toolOutputs
          | _, some parts => parts.flatMap Part.outputs
          | _, none => []

/-! ### Harmless pruning -/

def NoLonger (before after : List Text) : Prop := List.Forall₂ (fun b a => a.length ≤ b.length) before after

/-- Pruning makes no text longer, and a second time changes nothing. -/
def Harmless (prune : α → Pruned α) (texts : α → List Text) (a : α) : Prop :=
  NoLonger (texts a) (texts (prune a).value) ∧ (prune (prune a).value).value = (prune a).value

theorem noLonger_refl (texts : List Text) : NoLonger texts texts := List.forall₂_same.mpr fun text _ => Nat.le_refl text.length

theorem noLonger_append {before after before' after' : List Text}
    (h : before.length = after.length) :
    NoLonger (before ++ before') (after ++ after') ↔ NoLonger before after ∧ NoLonger before' after' := by
  constructor
  · intro hall
    have htake := List.forall₂_take before.length hall
    have hdrop := List.forall₂_drop before.length hall
    rw [List.take_left, h, List.take_left] at htake
    rw [List.drop_left, h, List.drop_left] at hdrop
    exact ⟨htake, hdrop⟩
  · rintro ⟨hfirst, hsecond⟩
    exact List.rel_append hfirst hsecond

theorem harmless_of_unchanged {prune : α → Pruned α} (texts : α → List Text) {a : α}
    (h : prune a = { value := a }) :
    Harmless prune texts a := by
  unfold Harmless
  rw [h, h]
  exact ⟨noLonger_refl _, rfl⟩

/-- Pruning what stands in a place, with other texts around. -/
theorem harmless_put {prune : α → Pruned α} {texts : α → List Text} (put : β → α) (f : β → Pruned β)
    (inner : β → List Text)
    (front back : List Text) (hput : Function.Injective put) (hprune : ∀ b, prune (put b) = (f b).map put)
    (htexts : ∀ b, texts (put b) = front ++ (inner b ++ back)) (hcount : ∀ b, (inner (f b).value).length = (inner b).length)
    (b : β) : Harmless prune texts (put b) ↔ Harmless f inner b := by
  have hvalue : ∀ b, (prune (put b)).value = put (f b).value := fun b => by rw [hprune]; rfl
  unfold Harmless
  rw [hvalue, hvalue, hput.eq_iff, htexts, htexts, noLonger_append rfl, noLonger_append (hcount b).symm]
  simp only [noLonger_refl, true_and, and_true]

theorem each_value (f : α → Pruned α) (as : List α) :
    (Pruned.each f as).value = as.map fun a => (f a).value := by
  induction as with
  | nil => rfl
  | cons a as ih => rw [Pruned.each, List.map_cons, ih]

theorem harmless_each {f : α → Pruned α} {texts : α → List Text}
    (hcount : ∀ a, (texts (f a).value).length = (texts a).length)
    (as : List α) : Harmless (Pruned.each f) (List.flatMap texts) as ↔ ∀ a ∈ as, Harmless f texts a := by
  unfold Harmless
  rw [each_value, each_value]
  induction as with
  | nil => exact ⟨fun _ a ha => absurd ha List.not_mem_nil, fun _ => ⟨noLonger_refl _, rfl⟩⟩
  | cons a as ih =>
    rw [List.forall_mem_cons, ← ih]
    simp only [List.map_cons, List.flatMap_cons, List.cons.injEq]
    rw [noLonger_append (hcount a).symm]
    tauto

theorem length_texts_each {f : α → Pruned α} {texts : α → List Text}
    (hcount : ∀ a, (texts (f a).value).length = (texts a).length)
    (as : List α) : ((Pruned.each f as).value.flatMap texts).length = (as.flatMap texts).length := by
  rw [each_value, List.flatMap_map, List.length_flatMap, List.length_flatMap]
  simp only [hcount]

/-! ### One output after another -/

theorem noLonger_singleton {before after : Text} :
    NoLonger [before] [after] ↔ after.length ≤ before.length := by
  unfold NoLonger
  rw [List.forall₂_cons, and_iff_left List.Forall₂.nil]

abbrev Short (text : Text) : Prop := text.length < 2 ^ 53

theorem harmless_text {text : Text} (h : Short text) :
    Harmless (truncateText · maxChars) (fun text => [text]) text ↔ (Output.text text).Steady maxChars := by
  unfold Output.Steady
  by_cases hlong : maxChars < text.length
  · cases hmarker : hasElideMarker text with
    | true => exact iff_of_true (harmless_of_unchanged _ (truncateText_of_elided hmarker maxChars)) (.inr (.inl hmarker))
    | false =>
      have hcap := hlong.trans h
      unfold Harmless
      rw [noLonger_singleton]
      dsimp only
      rw [truncateText_of_lt hlong hmarker]
      dsimp only
      rw [truncateText_of_lt (lt_length_cutText hlong hcap) (hasElideMarker_cutText hmarker)]
      dsimp only
      rw [selfCut_iff hlong hcap]
      exact ⟨fun hself => .inr (.inr hself),
        fun hself => (hself.resolve_left (not_le.2 hlong)).resolve_left (by rw [hmarker]; exact Bool.false_ne_true)⟩
  · have hshort := not_lt.1 hlong
    exact iff_of_true (harmless_of_unchanged _ (truncateText_of_le hshort)) (.inl hshort)

theorem length_texts_truncatePart (wanted : String) (part : TextPart) :
    (truncatePart maxChars wanted part).value.texts.length = part.texts.length := by
  rcases part with ⟨type, - | text, flags⟩
  · rfl
  · unfold truncatePart
    dsimp only
    split <;> rfl

theorem harmless_truncatePart {wanted : String} {part : TextPart}
    (h : ∀ text ∈ part.texts, Short text) :
    Harmless (truncatePart maxChars wanted) TextPart.texts part ↔ ∀ o ∈ part.outputs wanted, o.Steady maxChars := by
  rcases part with ⟨type, - | text, flags⟩
  · refine iff_of_true (harmless_of_unchanged _ rfl) fun o ho => ?_
    simp [TextPart.outputs] at ho
  · by_cases hpruned : (!isErrorFlagged flags && type == some wanted) = true
    · have hprune : ∀ text, truncatePart maxChars wanted ⟨type, some text, flags⟩ =
          (truncateText text maxChars).map fun text => ⟨type, some text, flags⟩ := fun text => if_pos hpruned
      rw [harmless_put (fun text => (⟨type, some text, flags⟩ : TextPart)) (truncateText · maxChars) (fun text => [text])
        [] [] (fun a b hab => by injection hab; simp_all) hprune
        (fun _ => rfl) (fun _ => rfl), harmless_text (h text List.mem_cons_self), TextPart.outputs, if_pos hpruned]
      exact List.forall_mem_singleton.symm
    · refine iff_of_true (harmless_of_unchanged _ (if_neg hpruned)) fun o ho => ?_
      rw [TextPart.outputs, if_neg hpruned] at ho
      exact absurd ho List.not_mem_nil

theorem length_texts_truncateBlockText (block : Block) :
    (truncateBlockText maxChars block).value.texts.length = block.texts.length := by
  rcases block with ⟨type, - | text, flags, content⟩
  · rfl
  · unfold truncateBlockText
    dsimp only
    split <;> rfl

theorem harmless_truncateBlockText {block : Block} (h : ∀ text ∈ block.texts, Short text) :
    Harmless (truncateBlockText maxChars) Block.texts block ↔ ∀ o ∈ block.textOutputs, o.Steady maxChars := by
  rcases block with ⟨type, - | text, flags, content⟩
  · refine iff_of_true (harmless_of_unchanged _ rfl) fun o ho => ?_
    simp [Block.textOutputs] at ho
  · by_cases hpruned : (!isErrorFlagged flags && type == some "text") = true
    · have hprune : ∀ text, truncateBlockText maxChars ⟨type, some text, flags, content⟩ =
          (truncateText text maxChars).map fun text => ⟨type, some text, flags, content⟩ := fun text => if_pos hpruned
      rw [harmless_put (fun text => (⟨type, some text, flags, content⟩ : Block)) (truncateText · maxChars)
        (fun text => [text]) [] (content.texts TextPart.texts)
        (fun a b hab => by injection hab; simp_all) hprune (fun _ => rfl) (fun _ => rfl),
        harmless_text (h text (List.mem_append_left _ List.mem_cons_self)), Block.textOutputs, if_pos hpruned]
      exact List.forall_mem_singleton.symm
    · refine iff_of_true (harmless_of_unchanged _ (if_neg hpruned)) fun o ho => ?_
      rw [Block.textOutputs, if_neg hpruned] at ho
      exact absurd ho List.not_mem_nil

theorem length_texts_truncateContent (wanted : String) (content : Content TextPart) :
    ((truncateContent maxChars wanted content).value.texts TextPart.texts).length = (content.texts TextPart.texts).length := by
  cases content with
  | text t => rfl
  | list parts => exact length_texts_each (length_texts_truncatePart wanted) parts
  | other => rfl

theorem harmless_truncateContent {wanted : String} {content : Content TextPart}
    (h : ∀ text ∈ content.texts TextPart.texts, Short text) :
    Harmless (truncateContent maxChars wanted) (Content.texts TextPart.texts) content ↔
      ∀ o ∈ content.outputs wanted, o.Steady maxChars := by
  cases content with
  | text t =>
    rw [harmless_put Content.text (truncateText · maxChars) (fun text => [text]) [] []
      (fun a b hab => by injection hab) (fun _ => rfl) (fun _ => rfl) (fun _ => rfl), harmless_text (h t List.mem_cons_self)]
    exact List.forall_mem_singleton.symm
  | list parts =>
    rw [harmless_put Content.list (Pruned.each (truncatePart maxChars wanted)) (List.flatMap TextPart.texts)
      [] [] (fun a b hab => by injection hab) (fun _ => rfl) (fun _ => by simp [Content.texts])
      (length_texts_each (length_texts_truncatePart wanted)), harmless_each (length_texts_truncatePart wanted)]
    unfold Content.outputs
    rw [List.forall_mem_flatMap]
    refine forall₂_congr fun part hpart => harmless_truncatePart fun text htext => h text ?_
    exact List.mem_flatMap.mpr ⟨part, hpart, htext⟩
  | other => exact iff_of_true (harmless_of_unchanged _ rfl) fun o ho => absurd ho List.not_mem_nil

theorem length_texts_truncateToolResult (block : Block) :
    (truncateToolResult maxChars block).value.texts.length = block.texts.length := by
  unfold truncateToolResult
  split
  · rfl
  · show (block.text.toList ++ _).length = (block.text.toList ++ _).length
    rw [List.length_append, List.length_append]
    exact congrArg _ (length_texts_truncateContent "text" block.content)

theorem harmless_truncateToolResult {block : Block} (h : ∀ text ∈ block.texts, Short text) :
    Harmless (truncateToolResult maxChars) Block.texts block ↔ ∀ o ∈ block.toolOutputs, o.Steady maxChars := by
  rcases block with ⟨type, text, flags, content⟩
  by_cases hskipped : (type != some "tool_result" || isErrorFlagged flags) = true
  · refine iff_of_true (harmless_of_unchanged _ (if_pos hskipped)) fun o ho => ?_
    rw [Block.toolOutputs, if_pos hskipped] at ho
    exact absurd ho List.not_mem_nil
  · have hprune : ∀ content, truncateToolResult maxChars ⟨type, text, flags, content⟩ =
        (truncateContent maxChars "text" content).map fun content => ⟨type, text, flags, content⟩ := fun content => if_neg hskipped
    rw [harmless_put (fun content => (⟨type, text, flags, content⟩ : Block)) (truncateContent maxChars "text")
      (Content.texts TextPart.texts) text.toList [] (fun a b hab => by injection hab) hprune
      (fun content => by rw [List.append_nil]; rfl) (length_texts_truncateContent "text"),
      harmless_truncateContent fun t ht => h t (List.mem_append_right _ ht), Block.toolOutputs, if_neg hskipped]

theorem truncateResponse_of_count {flags : Flags} {r : Response}
    (h : truncateText r.stringify maxChars = { value := r.stringify }) :
    truncateResponse maxChars ⟨flags, some (some r)⟩ = { value := ⟨flags, some (some r)⟩ } := by
  unfold truncateResponse
  simp [h]

theorem truncateResponse_of_lt {flags : Flags} (hflag : isErrorFlagged flags = false) {r : Response}
    (hlong : maxChars < r.stringify.length) (hmarker : hasElideMarker r.stringify = false) :
    (truncateResponse maxChars ⟨flags, some (some r)⟩).value = ⟨flags, some (some (.output (cutText r.stringify maxChars)))⟩ := by
  unfold truncateResponse
  rw [if_neg (by simp [hflag])]
  dsimp only
  rw [truncateText_of_lt hlong hmarker]
  rfl

theorem length_texts_truncateResponse (part : Part) :
    (truncateResponse maxChars part).value.texts.length = part.texts.length := by
  unfold truncateResponse
  split
  · rfl
  · split
    · rename_i response hresponse
      dsimp only
      split
      · rfl
      · simp [Part.texts, Pruned.map, hresponse]
    · rfl

theorem harmless_truncateResponse {part : Part} (h : ∀ text ∈ part.texts, Short text) :
    Harmless (truncateResponse maxChars) Part.texts part ↔ ∀ o ∈ part.outputs, o.Steady maxChars := by
  rcases part with ⟨flags, response⟩
  by_cases hflag : isErrorFlagged flags = true
  · refine iff_of_true (harmless_of_unchanged _ (truncateResponse_of_flagged hflag maxChars)) fun o ho => ?_
    rw [Part.outputs, if_pos hflag] at ho
    exact absurd ho List.not_mem_nil
  have hunflagged : isErrorFlagged flags = false := by simpa using hflag
  have houtputs : ∀ response, Part.outputs ⟨flags, response⟩ = (Part.texts ⟨flags, response⟩).map .response :=
    fun response => if_neg hflag
  rw [houtputs]
  rcases response with - | - | r
  · exact iff_of_true (harmless_of_unchanged _ (if_neg hflag)) fun o ho => absurd ho List.not_mem_nil
  · exact iff_of_true (harmless_of_unchanged _ (if_neg hflag)) fun o ho => absurd ho List.not_mem_nil
  have hsteady : (∀ o ∈ (Part.texts ⟨flags, some (some r)⟩).map Output.response, o.Steady maxChars) ↔
      (Output.response r.stringify).Steady maxChars := List.forall_mem_singleton
  rw [hsteady]
  unfold Output.Steady
  by_cases hlong : maxChars < r.stringify.length
  · cases hmarker : hasElideMarker r.stringify with
    | true =>
      exact iff_of_true (harmless_of_unchanged _ (truncateResponse_of_count (truncateText_of_elided hmarker maxChars)))
        (.inr (.inl hmarker))
    | false =>
      have hcap := hlong.trans (h r.stringify List.mem_cons_self)
      have hagain : maxChars < (Response.output (cutText r.stringify maxChars)).stringify.length :=
        (lt_length_cutText hlong hcap).trans (length_lt_output _)
      unfold Harmless
      rw [truncateResponse_of_lt hunflagged hlong hmarker,
        truncateResponse_of_lt hunflagged hagain (hasElideMarker_output (hasElideMarker_cutText hmarker))]
      have hsame := selfStored_iff hlong hcap
      simp only [Part.mk.injEq, true_and, Option.some.injEq, Response.output.injEq]
      rw [show NoLonger (Part.texts ⟨flags, some (some r)⟩)
        (Part.texts ⟨flags, some (some (.output (cutText r.stringify maxChars)))⟩) ↔ _ from noLonger_singleton, hsame]
      exact ⟨fun hself => .inr (.inr hself),
        fun hself => (hself.resolve_left (not_le.2 hlong)).resolve_left (by rw [hmarker]; exact Bool.false_ne_true)⟩
  · have hshort := not_lt.1 hlong
    exact iff_of_true (harmless_of_unchanged _ (truncateResponse_of_count (truncateText_of_le hshort))) (.inl hshort)

/-! ### A message -/

section Dialects

variable {role type : Option String} {flags : Flags} {content : Content Block} {output : Content TextPart} {parts : Option (List Part)}

/-- What is pruned stands in the content. -/
theorem harmless_content {β : Type} (put : β → Content Block) (f : β → Pruned β)
    (inner : β → List Text)
    (hput : Function.Injective put) (htexts : ∀ b, (put b).texts Block.texts = inner b)
    (hcount : ∀ b, (inner (f b).value).length = (inner b).length)
    (hprune : ∀ b, truncateMessageTools ⟨role, type, flags, put b, output, parts⟩ maxChars =
      (f b).map fun b => ⟨role, type, flags, put b, output, parts⟩) (b : β) :
    Harmless (truncateMessageTools · maxChars) Message.texts ⟨role, type, flags, put b, output, parts⟩ ↔ Harmless f inner b := by
  refine harmless_put (fun b => (⟨role, type, flags, put b, output, parts⟩ : Message)) f inner []
    (output.texts TextPart.texts ++ (parts.getD []).flatMap Part.texts) ?_ hprune ?_ hcount b
  · intro b b' h
    injection h with _ _ _ hsame
    exact hput hsame
  · intro b
    rw [← htexts b]
    rfl

theorem harmless_output
    (hprune : ∀ output, truncateMessageTools ⟨role, type, flags, content, output, parts⟩ maxChars =
      (truncateContent maxChars "input_text" output).map fun output => ⟨role, type, flags, content, output, parts⟩)
    (output : Content TextPart) :
    Harmless (truncateMessageTools · maxChars) Message.texts ⟨role, type, flags, content, output, parts⟩ ↔
      Harmless (truncateContent maxChars "input_text") (Content.texts TextPart.texts) output := by
  refine harmless_put (fun output => (⟨role, type, flags, content, output, parts⟩ : Message)) _ _
    (content.texts Block.texts) ((parts.getD []).flatMap Part.texts) ?_ hprune (fun _ => rfl)
    (length_texts_truncateContent "input_text") output
  intro o o' h
  injection h

theorem harmless_parts
    (hprune : ∀ parts, truncateMessageTools ⟨role, type, flags, content, output, some parts⟩ maxChars =
      (Pruned.each (truncateResponse maxChars) parts).map fun parts => ⟨role, type, flags, content, output, some parts⟩)
    (parts : List Part) :
    Harmless (truncateMessageTools · maxChars) Message.texts ⟨role, type, flags, content, output, some parts⟩ ↔
      ∀ part ∈ parts, Harmless (truncateResponse maxChars) Part.texts part := by
  rw [← harmless_each length_texts_truncateResponse]
  refine harmless_put (fun parts => (⟨role, type, flags, content, output, some parts⟩ : Message)) _ _
    (content.texts Block.texts ++ output.texts TextPart.texts) [] ?_ hprune ?_
    (length_texts_each length_texts_truncateResponse) parts
  · intro ps ps' h
    injection h with _ _ _ _ _ hsame
    exact Option.some.inj hsame
  · intro ps
    rw [List.append_nil, List.append_assoc]
    rfl

theorem steady_flatMap {β : Type} {outputs : β → List Output} {texts : β → List Text}
    {f : β → Pruned β} {bs : List β} (hshort : ∀ text ∈ bs.flatMap texts, Short text)
    (heach : ∀ b, (∀ text ∈ texts b, Short text) → (Harmless f texts b ↔ ∀ o ∈ outputs b, o.Steady maxChars)) :
    (∀ b ∈ bs, Harmless f texts b) ↔ ∀ o ∈ bs.flatMap outputs, o.Steady maxChars := by
  rw [List.forall_mem_flatMap]
  refine forall₂_congr fun b hb => heach b fun text htext => hshort text ?_
  exact List.mem_flatMap.mpr ⟨b, hb, htext⟩

theorem harmless_responses (hshort : ∀ text ∈ (parts.getD []).flatMap Part.texts, Short text)
    (houtputs : Message.outputs ⟨role, type, flags, content, output, parts⟩ = (parts.getD []).flatMap Part.outputs)
    (hsome : ∀ parts, truncateMessageTools ⟨role, type, flags, content, output, some parts⟩ maxChars =
      (Pruned.each (truncateResponse maxChars) parts).map fun parts => ⟨role, type, flags, content, output, some parts⟩)
    (hnone : truncateMessageTools ⟨role, type, flags, content, output, none⟩ maxChars =
      { value := ⟨role, type, flags, content, output, none⟩ }) :
    Harmless (truncateMessageTools · maxChars) Message.texts ⟨role, type, flags, content, output, parts⟩ ↔
      ∀ o ∈ Message.outputs ⟨role, type, flags, content, output, parts⟩, o.Steady maxChars := by
  rw [houtputs]
  cases parts with
  | none => exact iff_of_true (harmless_of_unchanged _ hnone) fun o ho => absurd ho List.not_mem_nil
  | some parts => exact (harmless_parts hsome parts).trans (steady_flatMap hshort fun part => harmless_truncateResponse)

/-- **Pruning a message is harmless just if all its outputs are steady**, whatever its dialect. -/
theorem harmless_message (msg : Message) (h : ∀ text ∈ msg.texts, Short text) :
    Harmless (truncateMessageTools · maxChars) Message.texts msg ↔ ∀ o ∈ msg.outputs, o.Steady maxChars := by
  rcases msg with ⟨role, type, flags, content, output, parts⟩
  have hcontent : ∀ text ∈ content.texts Block.texts, Short text :=
    fun text ht => h text (List.mem_append_left _ ht)
  have houtput : ∀ text ∈ output.texts TextPart.texts, Short text := fun text ht =>
    h text (List.mem_append_right _ (List.mem_append_left _ ht))
  have hparts : ∀ text ∈ (parts.getD []).flatMap Part.texts, Short text := fun text ht =>
    h text (List.mem_append_right _ (List.mem_append_right _ ht))
  clear h
  have hnone : ∀ {outputs : List Output}, outputs = [] → ∀ o ∈ outputs, o.Steady maxChars := by
    rintro _ rfl o ho
    exact absurd ho List.not_mem_nil
  by_cases hflag : isErrorFlagged flags = true
  · exact iff_of_true (harmless_of_unchanged _ (if_pos hflag)) (hnone (if_pos hflag))
  by_cases htext : ∃ t, content = .text t ∧ (role == some "tool" || role == some "function") = true
  · obtain ⟨t, rfl, hrole⟩ := htext
    have houtputs : Message.outputs ⟨role, type, flags, .text t, output, parts⟩ = [.text t] := by
      simp [Message.outputs, hflag, hrole]
    rw [houtputs, List.forall_mem_singleton, ← harmless_text (hcontent t List.mem_cons_self)]
    exact harmless_content Content.text (truncateText · maxChars) (fun t => [t])
      (fun a b hab => by injection hab) (fun _ => rfl) (fun _ => rfl)
      (fun t => by simp [truncateMessageTools, hflag, hrole]) t
  by_cases hblocks : ∃ blocks, content = .list blocks ∧ (role == some "tool") = true
  · obtain ⟨blocks, rfl, hrole⟩ := hblocks
    have houtputs : Message.outputs ⟨role, type, flags, .list blocks, output,
      parts⟩ = blocks.flatMap Block.textOutputs := by
      simp [Message.outputs, hflag, hrole]
    rw [houtputs]
    refine Iff.trans ?_ ((harmless_each length_texts_truncateBlockText blocks).trans
      (steady_flatMap hcontent fun block => harmless_truncateBlockText))
    exact harmless_content Content.list (Pruned.each (truncateBlockText maxChars)) _
      (fun a b hab => by injection hab) (fun _ => rfl) (length_texts_each length_texts_truncateBlockText)
      (fun blocks => by simp [truncateMessageTools, hflag, hrole]) blocks
  have htool : content ≠ .other → (role == some "tool") = false := by
    intro hother
    rw [← Bool.not_eq_true]
    intro hrole
    cases content with
    | text t => exact htext ⟨t, rfl, by rw [hrole, Bool.true_or]⟩
    | list blocks => exact hblocks ⟨blocks, rfl, hrole⟩
    | other => exact hother rfl
  by_cases htype : (type == some "function_call_output") = true
  · have houtputs : Message.outputs ⟨role, type, flags, content, output, parts⟩ = output.outputs "input_text" := by
      cases content <;> simp_all [Message.outputs]
    rw [houtputs, ← harmless_truncateContent houtput]
    refine harmless_output (fun output => ?_) output
    cases content <;> simp_all [truncateMessageTools]
  have hnotType : (type == some "function_call_output") = false := by simpa using htype
  cases content with
  | list blocks =>
    have hrole := htool (by simp)
    have houtputs : Message.outputs ⟨role, type, flags, .list blocks, output,
      parts⟩ = blocks.flatMap Block.toolOutputs := by
      simp [Message.outputs, hflag, hrole, hnotType]
    rw [houtputs]
    refine Iff.trans ?_ ((harmless_each length_texts_truncateToolResult blocks).trans
      (steady_flatMap hcontent fun block => harmless_truncateToolResult))
    exact harmless_content Content.list (Pruned.each (truncateToolResult maxChars)) _
      (fun a b hab => by injection hab) (fun _ => rfl) (length_texts_each length_texts_truncateToolResult)
      (fun blocks => by simp [truncateMessageTools, hflag, hrole, hnotType]) blocks
  | text t =>
    have hrole : (role == some "tool" || role == some "function") = false := by
      rw [← Bool.not_eq_true]
      exact fun hrole => htext ⟨t, rfl, hrole⟩
    exact harmless_responses hparts (by simp [Message.outputs, hflag, hrole, hnotType]; cases parts <;> rfl)
      (fun parts => by simp [truncateMessageTools, hflag, hrole, hnotType])
      (by simp [truncateMessageTools, hflag, hrole, hnotType])
  | other =>
    exact harmless_responses hparts (by simp [Message.outputs, hflag, hnotType]; cases parts <;> rfl)
      (fun parts => by simp [truncateMessageTools, hflag, hnotType]) (by simp [truncateMessageTools, hflag, hnotType])

end Dialects

/-! ### What is left alone, and what is not -/

/-- **When pruning a message is harmless**: it makes none of its texts longer, and a second time
nothing changes. What is protected, flagged or elided is left alone in any case. -/
theorem truncateMessageTools_harmless_iff (msg : Message) (maxChars : ℕ)
    (hshort : ∀ text ∈ msg.texts, Short text) :
    (NoLonger msg.texts (truncateMessageTools msg maxChars).value.texts ∧
        (truncateMessageTools (truncateMessageTools msg maxChars).value maxChars).value = (truncateMessageTools msg maxChars).value ↔
      ∀ o ∈ msg.outputs, o.Steady maxChars) ∧
    (∀ text, hasElideMarker text = true → truncateText text maxChars = { value := text }) ∧
    (isErrorFlagged msg.flags = true → truncateMessageTools msg maxChars = { value := msg }) ∧
    (∀ block : Block, isErrorFlagged block.flags = true →
      truncateToolResult maxChars block = { value := block } ∧ truncateBlockText maxChars block = { value := block }) ∧
    (∀ (part : TextPart) wanted, isErrorFlagged part.flags = true → truncatePart maxChars wanted part = { value := part }) ∧
    (∀ part : Part, isErrorFlagged part.flags = true → truncateResponse maxChars part = { value := part }) ∧
    ∀ items o i protectedMsg, items[i]? = some protectedMsg → (items.drop i).countP isToolResult ≤ o.protectTurns →
      (pruneHistoricalTools items o).items[i]? = some protectedMsg :=
  ⟨harmless_message msg hshort, fun _ h => truncateText_of_elided h maxChars, fun h => truncateMessageTools_of_flagged h maxChars,
    fun _ h => ⟨truncateToolResult_of_flagged h maxChars, truncateBlockText_of_flagged h maxChars⟩,
    fun _ wanted h => truncatePart_of_flagged h maxChars wanted, fun _ h => truncateResponse_of_flagged h maxChars,
    fun _ _ _ _ hmsg hi => prune_protected hmsg hi⟩

def textResult (text : Text) : Message := { role := some "tool", content := .text text }

/-- A `functionResponse` whose JSON text has 892 units. -/
def responseOf892 : Message :=
  { parts := some [{ functionResponse := some (some (.sent
      (units "\x7b\"a\":\"" ++ (List.replicate 884 120 ++ units "\"\x7d")))) }] }

theorem truncateMessageTools_harmless_iff_sample :
    NoLonger (textResult (List.replicate 800 120)).texts
        (truncateMessageTools (textResult (List.replicate 800 120)) defaultMaxChars).value.texts ∧
      (truncateMessageTools (truncateMessageTools (textResult (List.replicate 800 120)) defaultMaxChars).value defaultMaxChars).value =
        (truncateMessageTools (textResult (List.replicate 800 120)) defaultMaxChars).value := by
  have hshort : ∀ text ∈ (textResult (List.replicate 800 120)).texts, Short text := by
    intro text htext
    rw [List.mem_singleton.mp htext, Short, List.length_replicate]
    decide
  refine (truncateMessageTools_harmless_iff _ defaultMaxChars hshort).1.mpr fun o ho => ?_
  rw [List.mem_singleton.mp ho]
  exact .inl (by rw [List.length_replicate]; decide)

/-- One unit more than the cap: the result of a tool grows from 801 units to 891, and changes when
it is cut again. So does a response of 892 units. -/
theorem truncateMessageTools_enlarges :
    ¬ (∀ msg maxChars, NoLonger msg.texts (truncateMessageTools msg maxChars).value.texts ∧
        (truncateMessageTools (truncateMessageTools msg maxChars).value maxChars).value = (truncateMessageTools msg maxChars).value) ∧
      (truncateMessageTools (textResult (List.replicate 801 120)) defaultMaxChars).value.texts.map List.length = [891] ∧
      (responseOf892.texts ++ (truncateMessageTools responseOf892 defaultMaxChars).value.texts).map List.length = [892, 911] := by
  have hlength : (truncateMessageTools (textResult (List.replicate 801 120)) defaultMaxChars).value.texts.map List.length = [891] := by
    decide +kernel
  refine ⟨fun h => ?_, hlength, by decide +kernel⟩
  have hle : List.Forall₂ (fun b a : Text => a.length ≤ b.length) _ _ :=
    (h (textResult (List.replicate 801 120)) defaultMaxChars).1
  exact absurd hle (by decide +kernel)

end TokenProxy.ToolPruner
