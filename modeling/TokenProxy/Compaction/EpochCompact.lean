import TokenProxy.Lib.Json
import TokenProxy.Lib.Spans
import TokenProxy.Lib.Text
import Mathlib.Data.Rat.Floor

/-!
# Automatic compaction behind the cache epoch

`autocompact` drops the messages between the epoch cut and the recent tail and puts one summary in
their place. The tail is counted in messages, and its boundary is then moved behind every tool id
that occurs on both sides of it.

* `align_eq`: the widening loop is `Span.widen`, unless an id straddles the cut itself.
* `autocompact_closed`: what is dropped, and that no tool id is both dropped and kept.
* `autocompact_keeps_latest_iff`: when the latest assistant turn and what follows it are kept.
-/

namespace TokenProxy.Compaction

open Lib

/-! ### Messages -/

/-- A message object: its value, and where it stood in the request; the summary stood nowhere. -/
structure Message where
  value : Json
  place : Option ℕ
  deriving DecidableEq

def objects (values : List Json) : List Message := values.zipIdx.map fun v => ⟨v.1, some v.2⟩

def itemsOf : Option Json → List Json
  | some (.array items) => items.toList
  | _ => []

/-- `typeof id !== "string" || !id` leaves nothing. -/
def idOf : Option Json → List String
  | some (.string id) => if id = "" then [] else [id]
  | _ => []

def blockIds (block : Json) : List String :=
  if block.field "type" = some (.string "tool_use") then idOf (block.field "id")
  else if block.field "type" = some (.string "tool_result") then idOf (block.field "tool_use_id")
  else []

/-- The ids that a message is noted with: of its calls, of the call it
answers, and of its blocks. -/
def toolIds (message : Json) : List String :=
  (itemsOf (message.field "tool_calls")).flatMap (fun call => idOf (call.field "id")) ++ idOf (message.field "tool_call_id") ++
    (itemsOf (message.field "content")).flatMap blockIds

def occurrences (messages : List Message) : List (String × ℕ) :=
  messages.zipIdx.flatMap fun m => (toolIds m.1.value).map fun id => (id, m.2)

def pairSpans (messages : List Message) : List Span := (Span.spansOf (occurrences messages)).rows.map Prod.snd

/-! ### Options -/

/-- Numbers that are not finite are `none`. -/
structure AutoOptions where
  windowTokens : Option ℚ
  usedTokens : Option ℚ
  keepRecentTurns : Option ℚ
  epochCutIndex : Option ℚ

/-- `Math.max(0, Math.floor(Number(epochCutIndex) || 0))` -/
def AutoOptions.cut (options : AutoOptions) : ℕ := ⌊options.epochCutIndex.getD 0⌋.toNat

/-- `Math.max(1, Math.floor(Number(keepRecentTurns) || 6))` -/
def AutoOptions.keep (options : AutoOptions) : ℕ :=
  match options.keepRecentTurns with
  | none => 6
  | some turns => if turns = 0 then 6 else (max 1 ⌊turns⌋).toNat

def epochAutoTrigger : ℚ := 3 / 4

/-! ### The widening loop -/

structure Bounds where
  dropStart : ℕ
  tailStart : ℕ
  moved : Bool
  deriving DecidableEq

/-- One span of a pass; `none` where the only way to keep a pair together crosses the cut. -/
def alignSpan (cut : ℕ) (b : Bounds) (span : Span) : Option Bounds :=
  if span.first = span.last then some b
  else if span.first < b.dropStart ∧ b.dropStart ≤ span.last ∧ span.first ≤ cut then none
  else
    let b := if span.first < b.dropStart ∧ b.dropStart ≤ span.last then ⟨span.first, b.tailStart, true⟩ else b
    if span.first < b.tailStart ∧ b.tailStart ≤ span.last then
      let next := max b.tailStart (span.last + 1)
      some (if next ≠ b.tailStart then ⟨b.dropStart, next, true⟩ else b)
    else some b

def alignPass (cut : ℕ) (spans : List Span) (b : Bounds) : Option Bounds := spans.foldlM (alignSpan cut) { b with moved := false }

def align (cut : ℕ) (spans : List Span) : ℕ → Bounds → Option Bounds
  | 0, b => some b
  | guard + 1, b =>
    match alignPass cut spans b with
    | none => none
    | some b => if b.moved then align cut spans guard b else some b

/-! ### The stage -/

inductive Skip where
  | invalidInput
  | noWindow
  | belowTrigger
  | nothingToDrop
  | pairAtCut
  | summaryFailed
  deriving DecidableEq

structure AutoResult where
  applied : Bool
  messages : List Message
  droppedTurns : ℕ
  summary : Option String
  skip : Option Skip

def unchanged (messages : List Message) (skip : Skip) : AutoResult := ⟨false, messages, 0, none, some skip⟩

def summaryNote (summary : String) : Message :=
  ⟨.object (.cons "role" (.string "user") (.cons "content" (.string ("## Session summary (auto-compacted)\n" ++ summary)) .nil)), none⟩

/-- `summarizeFn` is `none` where it throws, and where it returns something else than a string. -/
def autocompact (summarizeFn : List Message → Option String) (options : AutoOptions)
    (messages : List Message) : AutoResult :=
  if messages = [] then unchanged messages .invalidInput
  else
    match options.windowTokens with
    | none => unchanged messages .noWindow
    | some window =>
      if window ≤ 0 then unchanged messages .noWindow
      else
        match options.usedTokens with
        | none => unchanged messages .belowTrigger
        | some used =>
          if used < window * epochAutoTrigger then unchanged messages .belowTrigger
          else
            let cut := options.cut
            let start : Bounds := ⟨cut + 1, max (cut + 1) (messages.length - options.keep), false⟩
            match align cut (pairSpans messages) (messages.length + 1) start with
            | none => unchanged messages .pairAtCut
            | some b =>
              if b.tailStart ≤ b.dropStart then unchanged messages .nothingToDrop
              else
                match summarizeFn ((messages.take b.tailStart).drop b.dropStart) with
                | none => unchanged messages .summaryFailed
                | some summary =>
                  if trim summary.toList = [] then unchanged messages .summaryFailed
                  else
                    ⟨true, messages.take b.dropStart ++ summaryNote summary :: messages.drop b.tailStart, b.tailStart - b.dropStart,
                      some summary, none⟩

/-! ### The loop widens -/

theorem mem_occurrences {messages : List Message} {id : String} {i : ℕ} :
    (id, i) ∈ occurrences messages ↔ ∃ m, messages[i]? = some m ∧ id ∈ toolIds m.value := by
  simp only [occurrences, List.mem_flatMap, List.mem_map, Prod.mk.injEq]
  constructor
  · rintro ⟨⟨m, j⟩, hm, id', hid, rfl, rfl⟩
    exact ⟨m, List.mem_zipIdx_iff_getElem?.mp hm, hid⟩
  · rintro ⟨m, hm, hid⟩
    exact ⟨(m, i), List.mem_zipIdx_iff_getElem?.mpr hm, id, hid, rfl, rfl⟩

def Splits (messages : List Message) (b : ℕ) : Prop :=
  ∃ id i j m n, messages[i]? = some m ∧ messages[j]? = some n ∧ id ∈ toolIds m.value ∧ id ∈ toolIds n.value ∧ i < b ∧ b ≤ j

theorem closed_pairSpans_iff (messages : List Message)
    (b : ℕ) : Span.Closed (pairSpans messages) b ↔ ¬ Splits messages b := by
  unfold pairSpans
  rw [Span.spansOf_closed_iff]
  constructor
  · rintro h ⟨id, i, j, m, n, hm, hn, hi, hj, hb⟩
    exact h id i j (mem_occurrences.mpr ⟨m, hm, hi⟩) (mem_occurrences.mpr ⟨n, hn, hj⟩) hb
  · intro h id i j hi hj hb
    obtain ⟨m, hm, hi⟩ := mem_occurrences.mp hi
    obtain ⟨n, hn, hj⟩ := mem_occurrences.mp hj
    exact h ⟨id, i, j, m, n, hm, hn, hi, hj, hb⟩

theorem pairSpans_last (messages : List Message) :
    ∀ s ∈ pairSpans messages, s.last < messages.length := by
  refine Span.spansOf_last fun o ho => ?_
  obtain ⟨m, hm, -⟩ := mem_occurrences.mp ho
  exact (List.getElem?_eq_some_iff.mp hm).1

/-- The drop window begins behind the cut: a span that would move it is
one that straddles the cut. -/
theorem alignSpan_eq (cut tailStart : ℕ) (moved : Bool) (span : Span) :
    alignSpan cut ⟨cut + 1, tailStart, moved⟩ span =
      if span.Straddles (cut + 1) then none
      else some ⟨cut + 1, Span.push tailStart span, moved || decide (span.Straddles tailStart)⟩ := by
  unfold alignSpan Span.push
  by_cases hsingle : span.first = span.last
  · have hcut : ¬ span.Straddles (cut + 1) := fun h => by
      obtain ⟨h1, h2⟩ := h
      omega
    have htail : ¬ span.Straddles tailStart := fun h => by
      obtain ⟨h1, h2⟩ := h
      omega
    simp [hsingle, hcut, htail]
  · rw [if_neg hsingle]
    by_cases hcut : span.Straddles (cut + 1)
    · rw [if_pos ⟨hcut.1, hcut.2, Nat.le_of_lt_succ hcut.1⟩, if_pos hcut]
    · have hno : ¬ (span.first < cut + 1 ∧ cut + 1 ≤ span.last) := hcut
      rw [if_neg fun h => hcut ⟨h.1, h.2.1⟩, if_neg hcut]
      simp only [if_neg hno]
      by_cases htail : span.Straddles tailStart
      · obtain ⟨h1, h2⟩ := htail
        have hnext : max tailStart (span.last + 1) = span.last + 1 := by omega
        have hne : span.last + 1 ≠ tailStart := by omega
        have htail : span.Straddles tailStart := ⟨h1, h2⟩
        simp [h1, h2, hnext, hne, htail]
      · have hno : ¬ (span.first < tailStart ∧ tailStart ≤ span.last) := htail
        simp [hno, htail]

theorem alignPass_closed {cut : ℕ} {spans : List Span} (hc : Span.Closed spans (cut + 1))
    (tailStart : ℕ) (moved : Bool) :
    spans.foldlM (alignSpan cut) ⟨cut + 1, tailStart, moved⟩ =
      some ⟨cut + 1, Span.pass spans tailStart, moved || decide (Span.pass spans tailStart ≠ tailStart)⟩ := by
  induction spans generalizing tailStart moved with
  | nil => simp [Span.pass]
  | cons s spans ih =>
    have hs := hc s (by simp)
    have ih := ih (fun t ht => hc t (by simp [ht])) (Span.push tailStart s) (moved || decide (s.Straddles tailStart))
    have hpass : Span.pass (s :: spans) tailStart = Span.pass spans (Span.push tailStart s) := rfl
    rw [List.foldlM_cons, alignSpan_eq, if_neg hs, hpass]
    simp only [Option.bind_eq_bind, Option.bind_some]
    rw [ih]
    simp only [Option.some.injEq, Bounds.mk.injEq, true_and]
    have hle := Span.le_pass spans (Span.push tailStart s)
    by_cases hst : s.Straddles tailStart
    · have hpush : Span.push tailStart s = s.last + 1 := if_pos hst
      have hlast := hst.2
      have hne : Span.pass spans (Span.push tailStart s) ≠ tailStart := by omega
      simp [hst, hne]
    · have hpush : Span.push tailStart s = tailStart := if_neg hst
      rw [hpush]
      simp [hst]

theorem alignPass_straddled {cut : ℕ} {spans : List Span} (hc : ¬ Span.Closed spans (cut + 1))
    (tailStart : ℕ) (moved : Bool) :
    spans.foldlM (alignSpan cut) ⟨cut + 1, tailStart, moved⟩ = none := by
  induction spans generalizing tailStart moved with
  | nil => exact absurd (by simp [Span.Closed]) hc
  | cons s spans ih =>
    rw [List.foldlM_cons, alignSpan_eq]
    by_cases hs : s.Straddles (cut + 1)
    · rw [if_pos hs]
      rfl
    · rw [if_neg hs]
      refine ih (fun h => hc ?_) _ _
      simpa [Span.Closed, hs] using h

theorem align_eq {cut : ℕ} {spans : List Span} (hc : Span.Closed spans (cut + 1))
    (guard tailStart : ℕ) (moved : Bool) :
    ∃ moved', align cut spans guard ⟨cut + 1, tailStart, moved⟩ = some ⟨cut + 1, Span.widen spans guard tailStart, moved'⟩ := by
  induction guard generalizing tailStart moved with
  | zero => exact ⟨moved, rfl⟩
  | succ guard ih =>
    unfold align alignPass
    rw [alignPass_closed hc]
    by_cases h : Span.pass spans tailStart = tailStart
    · refine ⟨false, ?_⟩
      simp [Span.widen, h]
    · obtain ⟨moved', hm⟩ := ih (Span.pass spans tailStart) true
      refine ⟨moved', ?_⟩
      simp only [Span.widen, Bool.false_or, ne_eq, h, not_false_eq_true, decide_true, if_true]
      exact hm

theorem align_none {cut : ℕ} {spans : List Span} (hc : ¬ Span.Closed spans (cut + 1))
    (guard tailStart : ℕ) (moved : Bool) :
    align cut spans (guard + 1) ⟨cut + 1, tailStart, moved⟩ = none := by
  unfold align alignPass
  rw [alignPass_straddled hc]

/-! ### What a run does -/

def AutoOptions.countedTail (options : AutoOptions)
    (messages : List Message) : ℕ := max (options.cut + 1) (messages.length - options.keep)

def AutoOptions.Triggered (options : AutoOptions) : Prop :=
  ∃ window used, options.windowTokens = some window ∧ 0 < window ∧ options.usedTokens = some used ∧ window * epochAutoTrigger ≤ used

def blank (summary : Option String) : Prop := ∀ s, summary = some s → trim s.toList = []

def tailOf (options : AutoOptions) (messages : List Message) : ℕ :=
  Span.widen (pairSpans messages) (messages.length + 1) (options.countedTail messages)

theorem tailOf_isLeast (options : AutoOptions) (messages : List Message) :
    IsLeast {b | options.countedTail messages ≤ b ∧ ¬ Splits messages b} (tailOf options messages) := by
  have hsize : options.countedTail messages ≤ max messages.length (options.cut + 1) := by
    unfold AutoOptions.countedTail
    omega
  have hlast : ∀ s ∈ pairSpans messages, s.last < max messages.length (options.cut + 1) := by
    intro s hs
    have := pairSpans_last messages s hs
    omega
  have hrounds : max messages.length (options.cut + 1) < options.countedTail messages + (messages.length + 1) := by
    unfold AutoOptions.countedTail
    omega
  have h := Span.widen_isLeast hsize hlast hrounds
  simp only [closed_pairSpans_iff] at h
  exact h

theorem tailOf_le (options : AutoOptions) (messages : List Message) :
    tailOf options messages ≤ max messages.length (options.cut + 1) := by
  refine (tailOf_isLeast options messages).2 ⟨?_, ?_⟩
  · unfold AutoOptions.countedTail
    omega
  · rintro ⟨id, i, j, m, n, -, hn, -, -, -, hle⟩
    have := (List.getElem?_eq_some_iff.mp hn).1
    omega

theorem autocompact_cases (summarizeFn : List Message → Option String) (options : AutoOptions)
    (messages : List Message) :
    ((autocompact summarizeFn options messages).applied = false ∧ (autocompact summarizeFn options messages).messages = messages ∧
        (¬ options.Triggered ∨ Splits messages (options.cut + 1) ∨ tailOf options messages ≤ options.cut + 1 ∨
          blank (summarizeFn ((messages.take (tailOf options messages)).drop (options.cut + 1))))) ∨
      ∃ summary, (autocompact summarizeFn options messages).applied = true ∧ options.cut + 1 < tailOf options messages ∧
        options.Triggered ∧ ¬ Splits messages (options.cut + 1) ∧
        ¬ blank (summarizeFn ((messages.take (tailOf options messages)).drop (options.cut + 1))) ∧
        (autocompact summarizeFn options messages).messages =
          messages.take (options.cut + 1) ++ summaryNote summary :: messages.drop (tailOf options messages) := by
  unfold autocompact
  by_cases hnil : messages = []
  · left
    rw [if_pos hnil]
    refine ⟨rfl, rfl, Or.inr (Or.inr (Or.inl ?_))⟩
    have := tailOf_le options messages
    simp only [hnil, List.length_nil] at this ⊢
    omega
  rw [if_neg hnil]
  cases hw : options.windowTokens with
  | none =>
    refine Or.inl ⟨rfl, rfl, Or.inl ?_⟩
    rintro ⟨window, used, h, -⟩
    rw [hw] at h
    exact absurd h (by simp)
  | some window =>
    simp only
    by_cases hpos : window ≤ 0
    · rw [if_pos hpos]
      refine Or.inl ⟨rfl, rfl, Or.inl ?_⟩
      rintro ⟨window', used, h, hlt, -⟩
      rw [hw, Option.some.injEq] at h
      subst h
      exact absurd hlt (not_lt.mpr hpos)
    rw [if_neg hpos]
    cases hu : options.usedTokens with
    | none =>
      refine Or.inl ⟨rfl, rfl, Or.inl ?_⟩
      rintro ⟨window', used, -, -, h, -⟩
      rw [hu] at h
      exact absurd h (by simp)
    | some used =>
      simp only
      by_cases hlow : used < window * epochAutoTrigger
      · rw [if_pos hlow]
        refine Or.inl ⟨rfl, rfl, Or.inl ?_⟩
        rintro ⟨window', used', h, -, h', hle⟩
        rw [hw, Option.some.injEq] at h
        rw [hu, Option.some.injEq] at h'
        subst h
        subst h'
        exact absurd hlow (not_lt.mpr hle)
      rw [if_neg hlow]
      by_cases hc : Span.Closed (pairSpans messages) (options.cut + 1)
      · have hsplits := (closed_pairSpans_iff messages _).mp hc
        obtain ⟨moved, ha⟩ := align_eq hc (messages.length + 1) (options.countedTail messages) false
        unfold AutoOptions.countedTail at ha
        rw [ha]
        simp only
        have htail : Span.widen (pairSpans messages) (messages.length + 1) (max (options.cut + 1) (messages.length - options.keep)) =
            tailOf options messages := rfl
        rw [htail]
        by_cases hle : tailOf options messages ≤ options.cut + 1
        · rw [if_pos hle]
          exact Or.inl ⟨rfl, rfl, Or.inr (Or.inr (Or.inl hle))⟩
        rw [if_neg hle]
        cases hs : summarizeFn ((messages.take (tailOf options messages)).drop (options.cut + 1)) with
        | none => exact Or.inl ⟨rfl, rfl, Or.inr (Or.inr (Or.inr fun s hs => absurd hs (by simp)))⟩
        | some summary =>
          simp only
          by_cases hblank : trim summary.toList = []
          · rw [if_pos hblank]
            refine Or.inl ⟨rfl, rfl, Or.inr (Or.inr (Or.inr fun s hs => ?_))⟩
            simp only [Option.some.injEq] at hs
            rw [← hs]
            exact hblank
          · rw [if_neg hblank]
            refine Or.inr ⟨summary, rfl, by omega, ?_, hsplits, fun hb => hblank (hb summary rfl), rfl⟩
            exact ⟨window, used, hw, not_le.mp hpos, hu, not_lt.mp hlow⟩
      · rw [align_none hc]
        refine Or.inl ⟨rfl, rfl, Or.inr (Or.inl ?_)⟩
        by_contra hsplits
        exact hc ((closed_pairSpans_iff messages _).mpr hsplits)

/-! ### Nothing is torn -/

theorem toolIds_summaryNote (summary : String) : toolIds (summaryNote summary).value = [] := by
  simp [toolIds, summaryNote, Json.field, JsonFields.get, itemsOf, idOf]

theorem mem_window {messages : List Message} {m : Message} {first last : ℕ}
    (h : m ∈ (messages.take last).drop first) :
    ∃ i, first ≤ i ∧ i < last ∧ messages[i]? = some m := by
  obtain ⟨i, hi⟩ := List.mem_iff_getElem?.mp h
  rw [List.getElem?_drop, List.getElem?_take] at hi
  split at hi
  · exact ⟨first + i, by omega, by omega, hi⟩
  · exact absurd hi (by simp)

theorem mem_rest {messages : List Message} {m : Message} {first last : ℕ}
    (h : m ∈ messages.take first ∨ m ∈ messages.drop last) :
    ∃ i, (i < first ∨ last ≤ i) ∧ messages[i]? = some m := by
  rcases h with h | h
  · obtain ⟨i, hi⟩ := List.mem_iff_getElem?.mp h
    rw [List.getElem?_take] at hi
    split at hi
    · rename_i hlt
      exact ⟨i, Or.inl hlt, hi⟩
    · exact absurd hi (by simp)
  · obtain ⟨i, hi⟩ := List.mem_iff_getElem?.mp h
    rw [List.getElem?_drop] at hi
    exact ⟨last + i, Or.inr (by omega), hi⟩

/-- Either nothing changes, or one summary stands in the place of a region behind the cut that
shares no tool id with the rest; and the widening loop ends where another pass moves nothing. -/
theorem autocompact_closed (summarizeFn : List Message → Option String) (options : AutoOptions)
    (messages : List Message) :
    (((autocompact summarizeFn options messages).applied = false ∧ (autocompact summarizeFn options messages).messages = messages) ∨
      ∃ tailStart summary, options.cut + 1 < tailStart ∧ tailStart ≤ messages.length ∧
        (autocompact summarizeFn options messages).messages =
          messages.take (options.cut + 1) ++ summaryNote summary :: messages.drop tailStart ∧
        (∀ i ≤ options.cut, (autocompact summarizeFn options messages).messages[i]? = messages[i]?) ∧
        ∀ dropped ∈ (messages.take tailStart).drop (options.cut + 1), ∀ kept ∈ (autocompact summarizeFn options messages).messages,
          ∀ id ∈ toolIds dropped.value, id ∉ toolIds kept.value) ∧
    ∀ start b, align options.cut (pairSpans messages) (messages.length + 1) ⟨options.cut + 1, start, false⟩ = some b →
      alignPass options.cut (pairSpans messages) b = some { b with moved := false } := by
  constructor
  · rcases autocompact_cases summarizeFn options messages with ⟨h1, h2, -⟩ | ⟨summary, -, hlt, -, hcut, -, hout⟩
    · exact Or.inl ⟨h1, h2⟩
    · have hle := tailOf_le options messages
      refine Or.inr ⟨tailOf options messages, summary, hlt, by omega, hout, ?_, ?_⟩
      · intro i hi
        rw [hout, List.getElem?_append_left (by rw [List.length_take]; omega), List.getElem?_take, if_pos (by omega)]
      · intro dropped hd kept hk id hid hid'
        obtain ⟨i, h1, h2, hi⟩ := mem_window hd
        rw [hout, List.mem_append, List.mem_cons] at hk
        have hk : kept = summaryNote summary ∨ kept ∈ messages.take (options.cut + 1) ∨ kept ∈ messages.drop (tailOf options messages) := by
          rcases hk with hk | hk | hk
          · exact Or.inr (Or.inl hk)
          · exact Or.inl hk
          · exact Or.inr (Or.inr hk)
        rcases hk with rfl | hk
        · rw [toolIds_summaryNote] at hid'
          exact absurd hid' (by simp)
        · obtain ⟨j, hj, hjm⟩ := mem_rest hk
          rcases hj with hj | hj
          · exact hcut ⟨id, j, i, kept, dropped, hjm, hi, hid', hid, hj, h1⟩
          · exact (tailOf_isLeast options messages).1.2 ⟨id, i, j, dropped, kept, hi, hjm, hid, hid', h2, hj⟩
  · intro start b hb
    by_cases hc : Span.Closed (pairSpans messages) (options.cut + 1)
    · obtain ⟨moved, ha⟩ := align_eq hc (messages.length + 1) start false
      rw [ha, Option.some.injEq] at hb
      subst hb
      have hclosed : Span.Closed (pairSpans messages) (Span.widen (pairSpans messages) (messages.length + 1) start) := by
        refine Span.widen_closed (le_max_right messages.length start) (fun s hs => ?_) (by omega)
        exact lt_of_lt_of_le (pairSpans_last messages s hs) (le_max_left _ _)
      rw [alignPass, alignPass_closed hc, Span.pass_eq_self_iff.mpr hclosed]
      simp
    · rw [align_none hc] at hb
      exact absurd hb (by simp)

/-! ### The latest turn -/

def isAssistant (message : Json) : Prop := message.field "role" = some (.string "assistant")

instance (message : Json) : Decidable (isAssistant message) := inferInstanceAs (Decidable (_ = _))

def IsLatest (values : List Json) (latest : ℕ) : Prop :=
  (∃ v, values[latest]? = some v ∧ isAssistant v) ∧ ∀ i v, latest < i → values[i]? = some v → ¬ isAssistant v

/-- The stage leaves the messages alone: it is not triggered, an id straddles the cut, or there is
no summary of what it would drop. -/
def Rests (summarizeFn : List Message → Option String) (options : AutoOptions)
    (messages : List Message) : Prop :=
  ¬ options.Triggered ∨ Splits messages (options.cut + 1) ∨
    ∀ tailStart, IsLeast {b | options.countedTail messages ≤ b ∧ ¬ Splits messages b} tailStart →
      blank (summarizeFn ((messages.take tailStart).drop (options.cut + 1)))

theorem getElem?_objects (values : List Json)
    (i : ℕ) : (objects values)[i]? = values[i]?.map fun v => ⟨v, some i⟩ := by
  simp [objects, List.getElem?_map, List.getElem?_zipIdx, Option.map_map, Function.comp_def]

theorem mem_region_iff {values : List Json} {summary : String} {first last i : ℕ} {v : Json}
    (hv : values[i]? = some v) :
    (⟨v, some i⟩ : Message) ∈ (objects values).take first ++ summaryNote summary :: (objects values).drop last ↔ i < first ∨ last ≤ i := by
  have hplace : ∀ (j : ℕ) (m : Message), (objects values)[j]? = some m → m.place = some j := by
    intro j m hm
    rw [getElem?_objects] at hm
    obtain ⟨w, -, rfl⟩ := Option.map_eq_some_iff.mp hm
    rfl
  have hat : (objects values)[i]? = some ⟨v, some i⟩ := by rw [getElem?_objects, hv]; rfl
  constructor
  · intro h
    rw [List.mem_append, List.mem_cons] at h
    have h : (⟨v, some i⟩ : Message) ∈ (objects values).take first ∨ (⟨v,
      some i⟩ : Message) ∈ (objects values).drop last := by
      rcases h with h | h | h
      · exact Or.inl h
      · exact absurd h (by simp [summaryNote])
      · exact Or.inr h
    obtain ⟨j, hj, hm⟩ := mem_rest h
    have := hplace j _ hm
    simp only [Option.some.injEq] at this
    omega
  · rintro (h | h)
    · refine List.mem_append_left _ (List.mem_iff_getElem?.mpr ⟨i, ?_⟩)
      rw [List.getElem?_take, if_pos h, hat]
    · refine List.mem_append_right _ (List.mem_cons_of_mem _ (List.mem_iff_getElem?.mpr ⟨i - last, ?_⟩))
      rw [List.getElem?_drop, Nat.add_sub_cancel' h, hat]

/-- The latest assistant turn and what follows it are kept just when the stage rests, or a boundary
that no id straddles lies between the counted tail and that turn. -/
theorem autocompact_keeps_latest_iff (summarizeFn : List Message → Option String)
    (options : AutoOptions) (values : List Json) :
    (∀ latest, IsLatest values latest → ∀ i v, latest ≤ i → values[i]? = some v →
        ⟨v, some i⟩ ∈ (autocompact summarizeFn options (objects values)).messages) ↔
      ∀ latest, IsLatest values latest → Rests summarizeFn options (objects values) ∨
        ∃ b, options.countedTail (objects values) ≤ b ∧ b ≤ max latest (options.cut + 1) ∧ ¬ Splits (objects values) b := by
  have hleast := tailOf_isLeast options (objects values)
  have hunique : ∀ tailStart, IsLeast {b | options.countedTail (objects values) ≤ b ∧ ¬ Splits (objects values) b} tailStart →
      tailStart = tailOf options (objects values) := fun _ h => h.unique hleast
  have hsame : ∀ i v, values[i]? = some v → (⟨v, some i⟩ : Message) ∈ objects values := by
    intro i v hv
    exact List.mem_iff_getElem?.mpr ⟨i, by rw [getElem?_objects, hv]; rfl⟩
  rcases autocompact_cases summarizeFn options (objects values) with ⟨-, hout, hrest⟩ | ⟨summary, -,
    hlt, htriggered, hcut, hblank, hout⟩
  · rw [hout]
    refine iff_of_true (fun _ _ i v _ hv => hsame i v hv) fun latest _ => ?_
    rcases hrest with h | h | h | h
    · exact Or.inl (Or.inl h)
    · exact Or.inl (Or.inr (Or.inl h))
    · exact Or.inr ⟨_, hleast.1.1, h.trans (le_max_right _ _), hleast.1.2⟩
    · refine Or.inl (Or.inr (Or.inr fun tailStart ht => ?_))
      rw [hunique tailStart ht]
      exact h
  · rw [hout]
    have hrests : ¬ Rests summarizeFn options (objects values) := by
      rintro (h | h | h)
      · exact h htriggered
      · exact hcut h
      · exact hblank (h _ hleast)
    constructor
    · intro hkept latest hlatest
      obtain ⟨⟨v, hv, -⟩, -⟩ := id hlatest
      refine Or.inr ⟨_, hleast.1.1, ?_, hleast.1.2⟩
      rcases (mem_region_iff hv).mp (hkept latest hlatest latest v le_rfl hv) with hbefore | hbehind
      · -- the turn is in front of the region, which then holds messages that follow it
        have hle := tailOf_le options (objects values)
        have hlen : (objects values).length = values.length := by simp [objects]
        have hlast : tailOf options (objects values) - 1 < values.length := by omega
        have hw := List.getElem?_eq_getElem hlast
        have := (mem_region_iff hw).mp (hkept latest hlatest _ _ (by omega) hw)
        omega
      · exact hbehind.trans (le_max_left _ _)
    · intro hcond latest hlatest i v hi hv
      rcases hcond latest hlatest with h | ⟨b, hb, hmax, hno⟩
      · exact absurd h hrests
      · have hle : tailOf options (objects values) ≤ b := hleast.2 ⟨hb, hno⟩
        exact (mem_region_iff hv).mpr (Or.inr (by omega))

/-- The question, a call to seven tools at once, and their answers. -/
def parallelTools : List Json :=
  let role (name : String) (fields : JsonFields) : Json := .object (.cons "role" (.string name) fields)
  let ids := ["a", "b", "c", "d", "e", "f", "g"]
  [role "user" (.cons "content" (.string "Look around.") .nil), role "user" (.cons "content" (.string "Then act.") .nil),
    role "assistant" (.cons "tool_calls" (.array (JsonItems.ofList (ids.map fun id => .object (.cons "id" (.string id) .nil)))) .nil)] ++
    ids.map fun id => role "tool" (.cons "tool_call_id" (.string id) (.cons "content" (.string "done") .nil))

/-- With the defaults the answers straddle the counted tail, and the call goes with them. -/
theorem parallelTools_dropped :
    ¬ ∀ latest, IsLatest parallelTools latest → ∀ i v, latest ≤ i → parallelTools[i]? = some v →
      ⟨v, some i⟩ ∈ (autocompact (fun _ => some "Turns dropped: 9") ⟨some 100, some 100, none, none⟩ (objects parallelTools)).messages := by
  have hcall : ∃ v, parallelTools[2]? = some v ∧ isAssistant v ∧
      ⟨v, some 2⟩ ∉ (autocompact (fun _ => some "Turns dropped: 9") ⟨some 100, some 100, none, none⟩ (objects parallelTools)).messages :=
    ⟨_, rfl, by decide +kernel, by decide +kernel⟩
  have hlater : ∀ i < 10, 2 < i → ∀ v ∈ parallelTools[i]?, ¬ isAssistant v := by decide +kernel
  obtain ⟨call, hcall, hassistant, hdropped⟩ := hcall
  intro h
  refine hdropped (h 2 ⟨⟨call, hcall, hassistant⟩, fun i v hi hv => ?_⟩ 2 call le_rfl hcall)
  exact hlater i (List.getElem?_eq_some_iff.mp hv).1 hi v hv

end TokenProxy.Compaction
