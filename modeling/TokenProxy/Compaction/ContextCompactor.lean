import TokenProxy.Compaction.PairDropper
import TokenProxy.Lib.AppendCons
import TokenProxy.Lib.Spans
import TokenProxy.Lib.Table
import Mathlib.Data.List.Induction
import Mathlib.Data.List.TakeWhile

/-!
# Compacting the window of a conversation

The older items of a conversation are replaced by a summary. The cut in front of the recent ones
moves back until no call is parted from its result, and until every failure and every call without
an answer is behind it; system items are all kept.

* `protectedSplitIndex_isGreatest`: where the cut ends up.
* `compactContextWindow_keeps_iff`: when what is kept is well formed.
-/

namespace TokenProxy.ContextCompactor

open Lib

/-! ### Calls and results -/

def textField (value : Json) (key text : String) : Bool := value.field key = some (.string text)

def markedFailed (fields : JsonFields) : Bool :=
  fields.get "is_error" = some (.bool true) || fields.get "isError" = some (.bool true) || fields.get "error" = some (.bool true) ||
    fields.get "status" = some (.string "error") || fields.get "status" = some (.string "failed")

mutual

def errorFlagged : Json → Bool
  | .object fields => markedFailed fields || fieldsFlagged fields
  | .array items => itemsFlagged items
  | _ => false

def itemsFlagged : JsonItems → Bool
  | .nil => false
  | .cons item items => errorFlagged item || itemsFlagged items

def fieldsFlagged : JsonFields → Bool
  | .nil => false
  | .cons _ value fields => errorFlagged value || fieldsFlagged fields

end

inductive Half where
  | call (custom : Bool) (id : Option String)
  | result (custom : Bool) (id : Option String)
  deriving DecidableEq

def idOf (value : Option Json) : Option String :=
  match value with
  | some (.string id) => if id = "" then none else some id
  | _ => none

def listOf (value : Option Json) : List Json :=
  match value with
  | some (.array items) => items.toList
  | _ => []

/-- `value.id || value.name` -/
def idOrName (value : Json) : Option String := if (value.field "id").any Json.truthy then idOf (value.field "id") else idOf (value.field "name")

def blockHalves (block : Json) : List Half :=
  (if textField block "type" "tool_use" then [Half.call false (idOf (block.field "id"))] else []) ++
    if textField block "type" "tool_result" then [Half.result false (idOf (block.field "tool_use_id"))] else []

def partHalves (part : Json) : List Half :=
  (((part.field "functionCall").filter Json.truthy).map fun call => Half.call false (idOrName call)).toList ++
    (((part.field "functionResponse").filter Json.truthy).map fun response => Half.result false (idOrName response)).toList

/-- The calls and results of an item that are looked for, in any of the dialects. -/
def halves (item : Json) : List Half :=
  (listOf (item.field "tool_calls")).map (fun tool => Half.call false (idOf (tool.field "id"))) ++
    (if textField item "type" "function_call" then [Half.call false (idOf (item.field "call_id"))] else []) ++
    (if textField item "type" "function_call_output" then [Half.result false (idOf (item.field "call_id"))] else []) ++
    (if textField item "role" "tool" then [Half.result false (idOf (item.field "tool_call_id"))] else []) ++
    (listOf (item.field "content")).flatMap blockHalves ++ (listOf (item.field "parts")).flatMap partHalves

/-! ### The cut -/

/-- The calls so far, each with its item and whether it was answered; the pairs of a
call and a result; and the cut. -/
structure Scan where
  calls : Dict String (ℕ × Bool)
  edges : List Span
  split : ℕ

def Scan.half (i : ℕ) (scan : Scan) : Half → Scan
  | Half.call false (some id) => { scan with calls := scan.calls.put (id, (i, false)) }
  | Half.result false (some id) =>
    match scan.calls.lookup id with
    | some (start, _) => { scan with calls := scan.calls.put (id, (start, true)), edges := scan.edges ++ [⟨start, i⟩] }
    | none => scan
  | _ => scan

def Scan.item (scan : Scan) (item : Json × ℕ) : Scan :=
  (halves item.1).foldl (Scan.half item.2) { scan with split := if errorFlagged item.1 then min scan.split item.2 else scan.split }

def scanItems (items : List Json) (requestedSplit : ℕ) : Scan := items.zipIdx.foldl Scan.item ⟨.empty, [], requestedSplit⟩

def protectedSplitIndex (items : List Json) (requestedSplit : ℕ) : ℕ :=
  let scan := scanItems items requestedSplit
  let split := scan.calls.rows.foldl (fun split pending => if pending.2.2 then split else min split pending.2.1) scan.split
  Span.pullAll scan.edges split

/-! ### The stage -/

/-- Numbers that are missing or none are `none`. -/
structure Options where
  enabled : Bool
  thresholdTokens : Option ℚ
  recentTurnsToKeep : Option ℚ
  claudeTarget : Bool

namespace Options

def threshold (options : Options) : ℕ :=
  match options.thresholdTokens with
  | some q => if 0 < q then ⌊q⌋.toNat else 32000
  | none => 32000

def keep (options : Options) : ℕ :=
  max 1 (match options.recentTurnsToKeep with
    | some q => if 1 ≤ q then ⌊q⌋.toNat else 8
    | none => 8)

end Options

/-- `Math.ceil(JSON.stringify(items).length / 3.8)` -/
def estimateTokenCount (items : List Json) : ℕ :=
  if items = [] then 0 else (10 * (((Json.array (.ofList items)).print.map PairDropper.utf16Size).sum) + 37) / 38

def isSystem (item : Json) : Bool := textField item "role" "system"

/-- An item of the request, by its place in it, or a note of the stage. -/
inductive Entry where
  | kept (item : Json × ℕ)
  | note (role content : String)
  deriving DecidableEq

def Entry.value : Entry → Json
  | .kept item => item.1
  | .note role content => .object (.cons "role" (.string role) (.cons "content" (.string content) .nil))

def conversation (items : List Json) : List (Json × ℕ) :=
  (items.zipIdx.dropWhile fun item => isSystem item.1).filter fun item => !isSystem item.1

def systemMessages (items : List Json) : List (Json × ℕ) := items.zipIdx.takeWhile fun item => isSystem item.1

def midSystemMessages (items : List Json) : List (Json × ℕ) :=
  (items.zipIdx.dropWhile fun item => isSystem item.1).filter fun item => isSystem item.1

structure CompactResult where
  entries : List Entry
  compacted : Bool
  originalTokens : ℕ
  newTokens : ℕ
  savedTokens : ℕ

def untouched (items : List Json) (tokens : ℕ) : CompactResult := ⟨items.zipIdx.map .kept, false, tokens, tokens, 0⟩

def noticeText : String := "The summary above replaces the compacted turns above it; continue the conversation using it as context."

def summaryNotes (claudeTarget : Bool) (summary : String) : List Entry :=
  if claudeTarget then [.note "user" ("[tokenproxy context note] " ++ summary ++ "\n\n" ++ noticeText)]
  else [.note "system" summary, .note "system" noticeText]

/-- The stage on the items of a body. `buildSummary` is what is written about the older ones; on an
item that is no message it throws. -/
def compactContextWindow (buildSummary : List Json → Option String) (options : Options)
    (items : List Json) : Option CompactResult :=
  let originalTokens := estimateTokenCount items
  let conversational := conversation items
  if options.enabled = false then some (untouched items 0)
  else if items.length ≤ options.keep + 2 then some (untouched items 0)
  else if originalTokens < options.threshold then some (untouched items originalTokens)
  else if conversational.length ≤ options.keep then some (untouched items originalTokens)
  else
    let splitIndex := protectedSplitIndex (conversational.map Prod.fst) (conversational.length - options.keep)
    if splitIndex < 2 then some (untouched items originalTokens)
    else
      (buildSummary ((conversational.take splitIndex).map Prod.fst)).map fun summary =>
        let entries := (systemMessages items).map .kept ++ summaryNotes options.claudeTarget summary ++ (midSystemMessages items).map .kept ++
          (conversational.drop splitIndex).map .kept
        let newTokens := estimateTokenCount (entries.map Entry.value)
        ⟨entries, true, originalTokens, newTokens, originalTokens - newTokens⟩

/-! ### What holds of the cut -/

/-- The calls and results of freeform tools, which the cut does not look for. -/
def customHalves (item : Json) : List Half :=
  (if textField item "type" "custom_tool_call" then [Half.call true (idOf (item.field "call_id"))] else []) ++
    if textField item "type" "custom_tool_call_output" then [Half.result true (idOf (item.field "call_id"))] else []

def events (items : List Json) : List (ℕ × Half) := items.zipIdx.flatMap fun item => (halves item.1 ++ customHalves item.1).map (item.2, ·)

/-- A cut that parts none of the transactions that are looked for. -/
structure Uncut (items : List Json) (b : ℕ) : Prop where
  errors : ∀ c item, items[c]? = some item → errorFlagged item = true → b ≤ c
  /-- the last call of an id, if it has no answer -/
  pending : ∀ before c id after, events items = before ++ (c, Half.call false (some id)) :: after →
    (∀ e ∈ after, e.2 ≠ Half.call false (some id) ∧ e.2 ≠ Half.result false (some id)) → b ≤ c
  /-- a result, and the last call of its id in front of it -/
  pairs : ∀ before c id between j after, events items = before ++ (c, Half.call false (some id)) :: (between ++ (j, Half.result false (some id)) :: after) →
    (∀ e ∈ between, e.2 ≠ Half.call false (some id)) → ¬ (c < b ∧ b ≤ j)

/-- What the scan knows of a call id after some calls and results: the item of its last call, and
whether a result followed. -/
def callState (id : String) (es : List (ℕ × Half)) : Option (ℕ × Bool) :=
  es.foldl (fun state e =>
    if e.2 = Half.call false (some id) then some (e.1, false)
    else if e.2 = Half.result false (some id) then state.map fun s => (s.1, true)
    else state) none

theorem callState_snoc (id : String) (es : List (ℕ × Half)) (e : ℕ × Half) :
    callState id (es ++ [e]) =
      if e.2 = Half.call false (some id) then some (e.1, false)
      else if e.2 = Half.result false (some id) then (callState id es).map fun s => (s.1, true)
      else callState id es := by
  rw [callState, List.foldl_append]
  rfl

theorem callState_of_last {id : String} (before : List (ℕ × Half)) (c : ℕ) {after : List (ℕ × Half)}
    (h : ∀ e ∈ after, e.2 ≠ Half.call false (some id)) :
    callState id (before ++ (c, Half.call false (some id)) :: after) = some (c, after.any fun e => e.2 = Half.result false (some id)) := by
  induction after using List.reverseRecOn with
  | nil => rw [callState_snoc, if_pos rfl, List.any_nil]
  | append_singleton after e ih =>
    have hne := h e (by simp)
    rw [show before ++ (c, Half.call false (some id)) :: (after ++ [e]) = before ++ (c, Half.call false (some id)) :: after ++ [e] by simp,
      callState_snoc, if_neg hne, ih fun e' he' => h e' (by simp [he']), List.any_append]
    by_cases hresult : e.2 = Half.result false (some id) <;> simp [hresult]

theorem callState_none {id : String} {es : List (ℕ × Half)}
    (h : ∀ e ∈ es, e.2 ≠ Half.call false (some id)) : callState id es = none := by
  induction es using List.reverseRecOn with
  | nil => rfl
  | append_singleton es e ih =>
    rw [callState_snoc, if_neg (h e (by simp)), ih fun e' he' => h e' (by simp [he'])]
    simp

theorem exists_last_call {id : String} {es : List (ℕ × Half)}
    (h : ∃ e ∈ es, e.2 = Half.call false (some id)) :
    ∃ before c after, es = before ++ (c, Half.call false (some id)) :: after ∧ ∀ e ∈ after, e.2 ≠ Half.call false (some id) := by
  induction es using List.reverseRecOn with
  | nil => simp at h
  | append_singleton es e ih =>
    by_cases he : e.2 = Half.call false (some id)
    · exact ⟨es, e.1, [], by rw [← he], by simp⟩
    · obtain ⟨e', he', hcall⟩ := h
      rcases List.mem_append.1 he' with he' | he'
      · obtain ⟨before, c, after, rfl, hafter⟩ := ih ⟨e', he', hcall⟩
        refine ⟨before, c, after ++ [e], by simp, ?_⟩
        intro e'' he''
        rcases List.mem_append.1 he'' with he'' | he''
        · exact hafter e'' he''
        · rwa [List.mem_singleton.1 he'']
      · rw [List.mem_singleton.1 he'] at hcall
        exact absurd hcall he

theorem callState_eq_some {id : String} {es : List (ℕ × Half)} {c : ℕ} {answered : Bool}
    (h : callState id es = some (c, answered)) :
    ∃ before after, es = before ++ (c, Half.call false (some id)) :: after ∧ (∀ e ∈ after, e.2 ≠ Half.call false (some id)) ∧
      answered = after.any fun e => e.2 = Half.result false (some id) := by
  by_cases hcall : ∃ e ∈ es, e.2 = Half.call false (some id)
  · obtain ⟨before, c', after, rfl, hafter⟩ := exists_last_call hcall
    rw [callState_of_last before c' hafter, Option.some.injEq, Prod.mk.injEq] at h
    obtain ⟨rfl, rfl⟩ := h
    exact ⟨before, after, rfl, hafter, rfl⟩
  · rw [callState_none fun e he heq => hcall ⟨e, he, heq⟩] at h
    simp at h

structure Tracks (es : List (ℕ × Half)) (scan : Scan) : Prop where
  lookup : ∀ id, scan.calls.lookup id = callState id es
  edges : ∀ span, span ∈ scan.edges ↔ ∃ before id after answered, es = before ++ (span.last, Half.result false (some id)) :: after ∧
    callState id before = some (span.first, answered)
  sorted : scan.edges.Pairwise fun s t => s.last ≤ t.last

theorem edge_snoc {es : List (ℕ × Half)} {e : ℕ × Half} {span : Span} :
    (∃ before id after answered, es ++ [e] = before ++ (span.last, Half.result false (some id)) :: after ∧
        callState id before = some (span.first, answered)) ↔
      (∃ id answered, e = (span.last, Half.result false (some id)) ∧ callState id es = some (span.first, answered)) ∨
        ∃ before id after answered, es = before ++ (span.last, Half.result false (some id)) :: after ∧ callState id before = some (span.first, answered) := by
  constructor
  · rintro ⟨before, id, after, answered, hes, hstate⟩
    rcases snoc_eq_append_cons_iff.1 hes with ⟨-, rfl, he⟩ | ⟨rest, -, rfl⟩
    · exact .inl ⟨id, answered, he, hstate⟩
    · exact .inr ⟨before, id, rest, answered, rfl, hstate⟩
  · rintro (⟨id, answered, rfl, hstate⟩ | ⟨before, id, after, answered, rfl, hstate⟩)
    · exact ⟨es, id, [], answered, rfl, hstate⟩
    · exact ⟨before, id, after ++ [e], answered, by simp, hstate⟩

theorem Tracks.skip {es : List (ℕ × Half)} {scan : Scan} (h : Tracks es scan) {e : ℕ × Half}
    (he : ∀ id, e.2 ≠ Half.call false (some id) ∧ e.2 ≠ Half.result false (some id)) : Tracks (es ++ [e]) scan where
  lookup := by
    intro id
    rw [callState_snoc, if_neg (he id).1, if_neg (he id).2, h.lookup]
  edges := by
    intro span
    rw [edge_snoc, ← h.edges]
    constructor
    · exact .inr
    · rintro (⟨id, answered, rfl, -⟩ | hspan)
      · exact absurd rfl (he id).2
      · exact hspan
  sorted := h.sorted

theorem Tracks.call {es : List (ℕ × Half)} {scan : Scan} (h : Tracks es scan) (i : ℕ)
    (id : String) :
    Tracks (es ++ [(i, Half.call false (some id))]) { scan with calls := scan.calls.put (id, (i, false)) } where
  lookup := by
    intro id'
    rw [Table.lookup_put, callState_snoc, h.lookup]
    by_cases hid : id' = id
    · simp [hid]
    · simp [hid, Ne.symm hid]
  edges := by
    intro span
    rw [edge_snoc, ← h.edges]
    simp
  sorted := h.sorted

theorem Tracks.result {es : List (ℕ × Half)} {scan : Scan} (h : Tracks es scan) {i : ℕ}
    (hi : ∀ e ∈ es, e.1 ≤ i) {id : String} {start : ℕ}
    {answered : Bool} (hlookup : scan.calls.lookup id = some (start, answered)) :
    Tracks (es ++ [(i, Half.result false (some id))])
      { scan with calls := scan.calls.put (id, (start, true)), edges := scan.edges ++ [⟨start, i⟩] } where
  lookup := by
    intro id'
    rw [Table.lookup_put, callState_snoc, h.lookup]
    by_cases hid : id' = id
    · subst hid
      rw [h.lookup] at hlookup
      simp [hlookup]
    · simp [hid, Ne.symm hid]
  edges := by
    intro span
    have hstate := h.lookup id ▸ hlookup
    rw [edge_snoc, ← h.edges, List.mem_append, List.mem_singleton]
    constructor
    · rintro (hspan | rfl)
      · exact .inr hspan
      · exact .inl ⟨id, answered, rfl, hstate⟩
    · rintro (⟨id', answered', he, hstate'⟩ | hspan)
      · simp only [Prod.mk.injEq, Half.result.injEq, Option.some.injEq, true_and] at he
        obtain ⟨rfl, rfl⟩ := he
        rw [hstate, Option.some.injEq, Prod.mk.injEq] at hstate'
        obtain ⟨rfl, -⟩ := hstate'
        exact .inr rfl
      · exact .inl hspan
  sorted := by
    refine List.pairwise_append.2 ⟨h.sorted, List.pairwise_singleton _ _, ?_⟩
    intro span hspan last hlast
    rw [List.mem_singleton.1 hlast]
    obtain ⟨before, id', after, answered', rfl, -⟩ := (h.edges span).1 hspan
    exact hi (span.last, Half.result false (some id')) (by simp)

theorem Tracks.half {es : List (ℕ × Half)} {scan : Scan} (h : Tracks es scan) {i : ℕ}
    (hi : ∀ e ∈ es, e.1 ≤ i) (half : Half) :
    Tracks (es ++ [(i, half)]) (scan.half i half) := by
  match half with
  | Half.call true id => exact h.skip (by simp)
  | Half.call false none => exact h.skip (by simp)
  | Half.call false (some id) => exact h.call i id
  | Half.result true id => exact h.skip (by simp)
  | Half.result false none => exact h.skip (by simp)
  | Half.result false (some id) =>
    simp only [Scan.half]
    cases hlookup : scan.calls.lookup id with
    | some known =>
      obtain ⟨start, answered⟩ := known
      exact h.result hi hlookup
    | none =>
      rw [h.lookup] at hlookup
      refine ⟨?_, ?_, h.sorted⟩
      · intro id'
        rw [callState_snoc, h.lookup]
        by_cases hid : id' = id
        · simp [hid, hlookup]
        · simp [Ne.symm hid]
      · intro span
        rw [edge_snoc, ← h.edges]
        constructor
        · exact .inr
        · rintro (⟨id', answered, he, hstate⟩ | hspan)
          · simp only [Prod.mk.injEq, Half.result.injEq, Option.some.injEq, true_and] at he
            obtain ⟨-, rfl⟩ := he
            rw [hlookup] at hstate
            simp at hstate
          · exact hspan

theorem split_half (i : ℕ) (scan : Scan) (half : Half) : (scan.half i half).split = scan.split := by
  unfold Scan.half
  split
  · rfl
  · split <;> rfl
  · rfl

theorem Tracks.halves {es : List (ℕ × Half)} {scan : Scan} (h : Tracks es scan) {i : ℕ}
    (hi : ∀ e ∈ es, e.1 ≤ i) (hs : List Half) :
    Tracks (es ++ hs.map (i, ·)) (hs.foldl (Scan.half i) scan) ∧ (hs.foldl (Scan.half i) scan).split = scan.split := by
  induction hs generalizing es scan with
  | nil => exact ⟨by simpa using h, rfl⟩
  | cons half hs ih =>
    have hi' : ∀ e ∈ es ++ [(i, half)], e.1 ≤ i := by
      intro e he
      rcases List.mem_append.1 he with he | he
      · exact hi e he
      · rw [List.mem_singleton.1 he]
    obtain ⟨htracks, hsplit⟩ := ih (h.half hi half) hi'
    refine ⟨?_, hsplit.trans (split_half i scan half)⟩
    simpa using htracks

theorem foldl_customHalves (i : ℕ) (scan : Scan)
    (item : Json) : (customHalves item).foldl (Scan.half i) scan = scan := by
  unfold customHalves
  split <;> split <;> rfl

theorem events_snoc (items : List Json) (item : Json) :
    events (items ++ [item]) = events items ++ (ContextCompactor.halves item ++ customHalves item).map (items.length, ·) := by
  rw [events, List.zipIdx_append, List.flatMap_append, events]
  simp

theorem lt_of_mem_events {items : List Json} {e : ℕ × Half}
    (h : e ∈ events items) : e.1 < items.length := by
  obtain ⟨⟨item, i⟩, hitem, he⟩ := List.mem_flatMap.1 h
  obtain ⟨half, -, rfl⟩ := List.mem_map.1 he
  exact (List.getElem?_eq_some_iff.1 (List.mem_zipIdx_iff_getElem?.1 hitem)).1

/-- **What the scan finds.** -/
theorem scanItems_spec (items : List Json) (requestedSplit : ℕ) :
    Tracks (events items) (scanItems items requestedSplit) ∧
      ∀ b, b ≤ (scanItems items requestedSplit).split ↔
        b ≤ requestedSplit ∧ ∀ c item, items[c]? = some item → errorFlagged item = true → b ≤ c := by
  induction items using List.reverseRecOn with
  | nil =>
    refine ⟨⟨fun id => rfl, ?_, List.Pairwise.nil⟩, ?_⟩
    · intro span
      simp [scanItems, events]
    · intro b
      simp [scanItems]
  | append_singleton items item ih =>
    obtain ⟨htracks, hsplit⟩ := ih
    have hscan : scanItems (items ++ [item]) requestedSplit = (scanItems items requestedSplit).item (item, items.length) := by
      rw [scanItems, List.zipIdx_append, List.foldl_append, scanItems]
      simp
    rw [hscan, events_snoc]
    have hbound : ∀ e ∈ events items, e.1 ≤ items.length := fun e he => (lt_of_mem_events he).le
    have hflagged : Tracks (events items)
        { scanItems items requestedSplit with
          split := if errorFlagged item then min (scanItems items requestedSplit).split items.length else (scanItems items requestedSplit).split } :=
      ⟨htracks.lookup, htracks.edges, htracks.sorted⟩
    obtain ⟨htracks', hsplit'⟩ := hflagged.halves hbound (ContextCompactor.halves item ++ customHalves item)
    rw [List.foldl_append, foldl_customHalves] at htracks' hsplit'
    refine ⟨htracks', fun b => ?_⟩
    have hitem : ((scanItems items requestedSplit).item (item, items.length)).split
        = if errorFlagged item then min (scanItems items requestedSplit).split items.length else (scanItems items requestedSplit).split := hsplit'
    rw [hitem]
    have hlast : (∀ c item', (items ++ [item])[c]? = some item' → errorFlagged item' = true → b ≤ c) ↔
        (∀ c item', items[c]? = some item' → errorFlagged item' = true → b ≤ c) ∧ (errorFlagged item = true → b ≤ items.length) := by
      constructor
      · intro h
        refine ⟨fun c item' hc => h c item' ?_, h items.length item (by simp)⟩
        rw [List.getElem?_append_left (List.getElem?_eq_some_iff.1 hc).1, hc]
      · rintro ⟨h, h'⟩ c item' hc
        rcases lt_or_ge c items.length with hlt | hge
        · rw [List.getElem?_append_left hlt] at hc
          exact h c item' hc
        · rw [List.getElem?_append_right hge] at hc
          obtain ⟨hzero, hval⟩ := List.getElem?_eq_some_iff.1 hc
          simp only [List.length_singleton] at hzero
          have hceq : c = items.length := by omega
          subst hceq
          simp only [Nat.sub_self, List.getElem_cons_zero] at hval
          subst hval
          exact h'
    rw [hlast, ← and_assoc, ← hsplit b]
    split
    · rename_i herror
      simp [herror]
    · rename_i herror
      simp [herror]

theorem le_foldl_pending {rows : List (String × ℕ × Bool)} {split b : ℕ} :
    b ≤ rows.foldl (fun split pending => if pending.2.2 then split else min split pending.2.1) split ↔
      b ≤ split ∧ ∀ row ∈ rows, row.2.2 = false → b ≤ row.2.1 := by
  induction rows generalizing split with
  | nil => simp
  | cons row rows ih =>
    rw [List.foldl_cons, ih]
    cases hrow : row.2.2 with
    | true => simp [hrow]
    | false => simp [hrow, and_assoc]

theorem Tracks.rows {es : List (ℕ × Half)} {scan : Scan} (h : Tracks es scan) {b : ℕ} :
    (∀ row ∈ scan.calls.rows, row.2.2 = false → b ≤ row.2.1) ↔ ∀ id c, callState id es = some (c, false) → b ≤ c := by
  constructor
  · intro hrows id c hstate
    rw [← h.lookup] at hstate
    obtain ⟨row, hget, hrow⟩ := Option.map_eq_some_iff.1 hstate
    have := hrows row (Table.get?_mem hget) (by rw [hrow])
    rwa [hrow] at this
  · intro hstates row hrow hopen
    refine hstates row.1 row.2.1 ?_
    rw [← h.lookup, Table.lookup, Table.mem_rows.1 hrow, Option.map_some, ← hopen]

theorem uncut_iff {items : List Json} {scan : Scan} (h : Tracks (events items) scan) {b : ℕ} :
    Uncut items b ↔ (∀ c item, items[c]? = some item → errorFlagged item = true → b ≤ c) ∧
      (∀ row ∈ scan.calls.rows, row.2.2 = false → b ≤ row.2.1) ∧ Span.Closed scan.edges b := by
  rw [h.rows]
  constructor
  · intro hcut
    refine ⟨hcut.errors, ?_, ?_⟩
    · intro id c hstate
      obtain ⟨before, after, hes, hlast, hanswer⟩ := callState_eq_some hstate
      refine hcut.pending before c id after hes fun e he => ⟨hlast e he, fun hresult => ?_⟩
      have := List.any_eq_false.1 hanswer.symm e he
      simp [hresult] at this
    · intro span hspan
      obtain ⟨before, id, after, answered, hes, hstate⟩ := (h.edges span).1 hspan
      obtain ⟨before', between, rfl, hlast, -⟩ := callState_eq_some hstate
      exact hcut.pairs before' span.first id between span.last after (by simpa using hes) hlast
  · rintro ⟨herrors, hpending, hclosed⟩
    refine ⟨herrors, ?_, ?_⟩
    · intro before c id after hes hnone
      refine hpending id c ?_
      rw [hes, callState_of_last before c fun e he => (hnone e he).1, Option.some.injEq, Prod.mk.injEq]
      refine ⟨rfl, List.any_eq_false.2 fun e he => ?_⟩
      simpa using (hnone e he).2
    · intro before c id between j after hes hlast
      have hstate := callState_of_last before c hlast
      exact hclosed ⟨c, j⟩ ((h.edges ⟨c, j⟩).2 ⟨before ++ (c, Half.call false (some id)) :: between,
        id, after, _, by simpa using hes, hstate⟩)

/-- **Where the cut ends up**: the last boundary, not behind the requested one, that parts none of
the transactions that are looked for. -/
theorem protectedSplitIndex_isGreatest (items : List Json) (requestedSplit : ℕ) :
    IsGreatest {b | b ≤ requestedSplit ∧ Uncut items b} (protectedSplitIndex items requestedSplit) := by
  obtain ⟨htracks, hsplit⟩ := scanItems_spec items requestedSplit
  have hgreatest := Span.pullAll_isGreatest htracks.sorted ((scanItems items requestedSplit).calls.rows.foldl
    (fun split pending => if pending.2.2 then split else min split pending.2.1) (scanItems items requestedSplit).split)
  have hset : {b | b ≤ requestedSplit ∧ Uncut items b}
      = {b | b ≤ (scanItems items requestedSplit).calls.rows.foldl
          (fun split pending => if pending.2.2 then split else min split pending.2.1) (scanItems items requestedSplit).split ∧
          Span.Closed (scanItems items requestedSplit).edges b} := by
    ext b
    rw [Set.mem_ofPred_eq, Set.mem_ofPred_eq, le_foldl_pending, hsplit, uncut_iff htracks]
    simp only [and_assoc]
  rw [hset]
  exact hgreatest

/-! ### What is kept -/

/-- Of the items of a conversation, `R` holds of those that are kept: every failure and every call
without an answer is, and with a call or a result also its partner, if there was one. -/
structure WellFormed (items : List Json) (R : ℕ → Prop) : Prop where
  errors : ∀ c item, items[c]? = some item → errorFlagged item = true → R c
  pending : ∀ before c custom id after, events items = before ++ (c, Half.call custom id) :: after →
    (∀ e ∈ after, id = none ∨ e.2 ≠ Half.result custom id) → R c
  results : ∀ before j custom id after, events items = before ++ (j, Half.result custom (some id)) :: after → R j →
    (∃ c, (c, Half.call custom (some id)) ∈ before) → ∃ c, (c, Half.call custom (some id)) ∈ before ∧ R c
  calls : ∀ before c custom id after, events items = before ++ (c, Half.call custom (some id)) :: after → R c →
    (∃ j, (j, Half.result custom (some id)) ∈ after) → ∃ j, (j, Half.result custom (some id)) ∈ after ∧ R j

/-- A boundary behind which no answer is missed, and no freeform call. -/
structure Covers (items : List Json) (b : ℕ) : Prop where
  pending : ∀ before c custom id after, events items = before ++ (c, Half.call custom id) :: after →
    (∀ e ∈ after, id = none ∨ e.2 ≠ Half.result custom id) → b ≤ c
  freeform : ∀ before j id after, events items = before ++ (j, Half.result true (some id)) :: after → b ≤ j →
    (∃ c, (c, Half.call true (some id)) ∈ before) → ∃ c, (c, Half.call true (some id)) ∈ before ∧ b ≤ c

theorem events_sorted (items : List Json) : (events items).Pairwise fun e e' => e.1 ≤ e'.1 := by
  induction items using List.reverseRecOn with
  | nil => exact List.Pairwise.nil
  | append_singleton items item ih =>
    rw [events_snoc]
    refine List.pairwise_append.2 ⟨ih, ?_, ?_⟩
    · rw [List.pairwise_map]
      exact List.pairwise_of_forall fun _ _ => le_rfl
    · intro e he e' he'
      obtain ⟨half, -, rfl⟩ := List.mem_map.1 he'
      exact (lt_of_mem_events he).le

theorem wellFormed_iff_covers {items : List Json} {b : ℕ}
    (h : Uncut items b) : WellFormed items (b ≤ ·) ↔ Covers items b := by
  constructor
  · intro hw
    exact ⟨hw.pending, fun before j id after hes hj hcall => hw.results before j true id after hes hj hcall⟩
  · intro hc
    refine ⟨h.errors, hc.pending, ?_, ?_⟩
    · intro before j custom id after hes hj hcall
      cases custom with
      | true => exact hc.freeform before j id after hes hj hcall
      | false =>
        obtain ⟨c₀, hc₀⟩ := hcall
        obtain ⟨before', c, between, rfl, hlast⟩ := exists_last_call ⟨_, hc₀, rfl⟩
        refine ⟨c, by simp, ?_⟩
        have hpair := h.pairs before' c id between j after (by simpa using hes) hlast
        omega
    · intro before c custom id after hes hcb hresult
      obtain ⟨j, hj⟩ := hresult
      refine ⟨j, hj, ?_⟩
      have hsorted := events_sorted items
      rw [hes] at hsorted
      have hle : c ≤ j := (List.pairwise_cons.1 (List.pairwise_append.1 hsorted).2.1).1 _ hj
      omega

def Kept (items : List Json) (out : List Entry)
    (c : ℕ) : Prop := ∃ item, (conversation items)[c]? = some item ∧ .kept item ∈ out

/-- The output of the stage, for a request that is to keep its last `keep` items. -/
structure WellKept (keep : ℕ) (items : List Json) (out : List Entry) : Prop where
  system : ∀ i item, items[i]? = some item → isSystem item = true → .kept (item, i) ∈ out
  tail : ∃ tail, tail <:+ conversation items ∧ (keep ≤ tail.length ∨ tail = conversation items) ∧ (tail.map Entry.kept).Sublist out
  wellFormed : WellFormed ((conversation items).map Prod.fst) (Kept items out)

def Due (options : Options) (items : List Json) : Prop :=
  options.enabled = true ∧ options.keep + 2 < items.length ∧ options.threshold ≤ estimateTokenCount items ∧
    options.keep < (conversation items).length

theorem conversation_eq (items : List Json) :
    conversation items = items.zipIdx.filter fun item => !isSystem item.1 := by
  have hsplit := List.takeWhile_append_dropWhile (p := fun item : Json × ℕ => isSystem item.1) (l := items.zipIdx)
  conv_rhs => rw [← hsplit]
  rw [List.filter_append, conversation]
  have hnil : (items.zipIdx.takeWhile fun item => isSystem item.1).filter (fun item => !isSystem item.1) = [] := by
    rw [List.filter_eq_nil_iff]
    intro item hitem
    simpa using List.mem_takeWhile_imp hitem
  rw [hnil, List.nil_append]

theorem conversation_nodup (items : List Json) : (conversation items).Nodup := by
  rw [conversation_eq]
  refine List.Nodup.filter _ (List.Nodup.of_map Prod.snd ?_)
  rw [List.zipIdx_map_snd]
  exact List.nodup_range'

theorem mem_system {items : List Json} {i : ℕ} {item : Json} (h : items[i]? = some item)
    (hs : isSystem item = true) :
    (item, i) ∈ systemMessages items ∨ (item, i) ∈ midSystemMessages items := by
  have hmem : (item, i) ∈ items.zipIdx := List.mem_zipIdx_iff_getElem?.2 h
  rw [← List.takeWhile_append_dropWhile (p := fun item : Json × ℕ => isSystem item.1) (l := items.zipIdx), List.mem_append] at hmem
  rcases hmem with hmem | hmem
  · exact .inl hmem
  · exact .inr (List.mem_filter.2 ⟨hmem, hs⟩)

theorem kept_iff {items : List Json} {b : ℕ} {notes : List Entry}
    (hnotes : ∀ e ∈ notes, ∀ item, e ≠ .kept item) {c : ℕ} (hc : c < (conversation items).length) :
    Kept items ((systemMessages items).map .kept ++ notes ++ (midSystemMessages items).map .kept ++ ((conversation items).drop b).map .kept) c ↔
      b ≤ c := by
  have hitem : (conversation items)[c]? = some (conversation items)[c] := List.getElem?_eq_getElem hc
  have huser : isSystem (conversation items)[c].1 = false := by
    have := List.getElem_mem hc
    simpa using (List.mem_filter.1 this).2
  constructor
  · rintro ⟨item, hget, hmem⟩
    rw [hitem, Option.some.injEq] at hget
    subst hget
    simp only [List.mem_append, List.mem_map, Entry.kept.injEq, exists_eq_right] at hmem
    rcases hmem with ((hmem | hmem) | hmem) | hmem
    · simpa [huser] using List.mem_takeWhile_imp hmem
    · exact absurd rfl (hnotes _ hmem _)
    · simpa [huser] using (List.mem_filter.1 hmem).2
    · obtain ⟨k, hk, hkc⟩ := List.getElem_of_mem hmem
      rw [List.getElem_drop] at hkc
      have := (List.Nodup.getElem_inj_iff (conversation_nodup items)).1 hkc
      omega
  · intro hb
    refine ⟨_, hitem, ?_⟩
    simp only [List.mem_append, List.mem_map, Entry.kept.injEq, exists_eq_right]
    refine .inr (List.mem_of_getElem? (i := c - b) ?_)
    rw [List.getElem?_drop, Nat.add_sub_of_le hb, hitem]

theorem WellFormed.congr {items : List Json} {R R' : ℕ → Prop} (h : ∀ c < items.length, R c ↔ R' c)
    (hw : WellFormed items R) :
    WellFormed items R' := by
  have hlt : ∀ {before : List (ℕ × Half)} {e : ℕ × Half} {after}, events items = before ++ e :: after → e.1 < items.length := by
    intro before e after hes
    exact lt_of_mem_events (by rw [hes]; simp)
  refine ⟨?_, ?_, ?_, ?_⟩
  · intro c item hitem herror
    exact (h c (List.getElem?_eq_some_iff.1 hitem).1).1 (hw.errors c item hitem herror)
  · intro before c custom id after hes hnone
    exact (h c (hlt hes)).1 (hw.pending before c custom id after hes hnone)
  · intro before j custom id after hes hj hcall
    obtain ⟨c, hc, hR⟩ := hw.results before j custom id after hes ((h j (hlt hes)).2 hj) hcall
    refine ⟨c, hc, (h c ?_).1 hR⟩
    exact lt_of_mem_events (show (c, _) ∈ events items by rw [hes]; exact List.mem_append_left _ hc)
  · intro before c custom id after hes hc hresult
    obtain ⟨j, hj, hR⟩ := hw.calls before c custom id after hes ((h c (hlt hes)).2 hc) hresult
    refine ⟨j, hj, (h j ?_).1 hR⟩
    exact lt_of_mem_events (show (j, _) ∈ events items by rw [hes]; exact List.mem_append_right _ (List.mem_cons_of_mem _ hj))

theorem wellFormed_congr {items : List Json} {R R' : ℕ → Prop}
    (h : ∀ c < items.length, R c ↔ R' c) :
    WellFormed items R ↔ WellFormed items R' :=
  ⟨WellFormed.congr h, WellFormed.congr fun c hc => (h c hc).symm⟩

theorem wellKept_untouched (keep : ℕ) (items : List Json)
    (tokens : ℕ) : WellKept keep items (untouched items tokens).entries := by
  have hsub : ((conversation items).map Entry.kept).Sublist (items.zipIdx.map .kept) := by
    rw [conversation_eq]
    exact List.filter_sublist.map _
  refine ⟨?_, ⟨conversation items, List.suffix_rfl, .inr rfl, hsub⟩, ?_⟩
  · intro i item hitem _
    exact List.mem_map_of_mem (List.mem_zipIdx_iff_getElem?.2 hitem)
  · have hall : ∀ c < ((conversation items).map Prod.fst).length, 0 ≤ c ↔ Kept items (untouched items tokens).entries c := by
      intro c hc
      rw [List.length_map] at hc
      refine iff_of_true c.zero_le ⟨_, List.getElem?_eq_getElem hc, hsub.subset ?_⟩
      exact List.mem_map_of_mem (List.getElem_mem hc)
    rw [← wellFormed_congr hall]
    refine ⟨fun _ _ _ _ => Nat.zero_le _, fun _ _ _ _ _ _ _ => Nat.zero_le _, ?_, ?_⟩
    · rintro before j custom id after - - ⟨c, hc⟩
      exact ⟨c, hc, c.zero_le⟩
    · rintro before c custom id after - - ⟨j, hj⟩
      exact ⟨j, hj, j.zero_le⟩

theorem ne_kept_of_mem_summaryNotes {claudeTarget : Bool} {summary : String} {e : Entry}
    (h : e ∈ summaryNotes claudeTarget summary) (item : Json × ℕ) : e ≠ .kept item := by
  rintro rfl
  unfold summaryNotes at h
  split at h <;> simp at h

def cutEntries (claudeTarget : Bool) (items : List Json) (summary : String) (b : ℕ) : List Entry :=
  (systemMessages items).map .kept ++ summaryNotes claudeTarget summary ++ (midSystemMessages items).map .kept ++
    ((conversation items).drop b).map .kept

theorem wellKept_cutEntries {keep : ℕ} {claudeTarget : Bool} {items : List Json} {summary : String}
    {b : ℕ}
    (hlen : keep ≤ (conversation items).length) (hb : b ≤ (conversation items).length - keep)
    (hcut : Uncut ((conversation items).map Prod.fst) b) :
    WellKept keep items (cutEntries claudeTarget items summary b) ↔ Covers ((conversation items).map Prod.fst) b := by
  have hkept : ∀ c < ((conversation items).map Prod.fst).length, Kept items (cutEntries claudeTarget items summary b) c ↔ b ≤ c := by
    intro c hc
    rw [List.length_map] at hc
    exact kept_iff (fun e he item => ne_kept_of_mem_summaryNotes he item) hc
  constructor
  · intro hw
    exact (wellFormed_iff_covers hcut).1 ((wellFormed_congr hkept).1 hw.wellFormed)
  · intro hc
    refine ⟨?_, ⟨(conversation items).drop b, List.drop_suffix b _, .inl ?_, List.sublist_append_right _ _⟩, ?_⟩
    · intro i item hitem hs
      rcases mem_system hitem hs with hmem | hmem
      · simp [cutEntries, hmem]
      · simp [cutEntries, hmem]
    · rw [List.length_drop]
      omega
    · exact (wellFormed_congr hkept).2 ((wellFormed_iff_covers hcut).2 hc)

theorem compactContextWindow_not_due (buildSummary : List Json → Option String) {options : Options}
    {items : List Json} (h : ¬ Due options items) :
    ∃ tokens, compactContextWindow buildSummary options items = some (untouched items tokens) := by
  unfold compactContextWindow
  split
  · exact ⟨0, rfl⟩
  · split
    · exact ⟨0, rfl⟩
    · dsimp only
      split
      · exact ⟨_, rfl⟩
      · split
        · exact ⟨_, rfl⟩
        · rename_i henabled hitems htokens hconv
          exact absurd ⟨by simpa using henabled, by omega, by omega, by omega⟩ h

theorem compactContextWindow_due {buildSummary : List Json → Option String} {options : Options}
    {items : List Json} (h : Due options items) :
    compactContextWindow buildSummary options items =
      let b := protectedSplitIndex ((conversation items).map Prod.fst) ((conversation items).length - options.keep)
      if b < 2 then some (untouched items (estimateTokenCount items))
      else (buildSummary (((conversation items).take b).map Prod.fst)).map fun summary =>
        let entries := cutEntries options.claudeTarget items summary b
        let newTokens := estimateTokenCount (entries.map Entry.value)
        ⟨entries, true, estimateTokenCount items, newTokens, estimateTokenCount items - newTokens⟩ := by
  obtain ⟨henabled, hitems, htokens, hconv⟩ := h
  unfold compactContextWindow
  rw [if_neg (by simp [henabled]), if_neg (by omega), if_neg (by omega), if_neg (by omega)]
  rfl

/-- **When compaction keeps a conversation well formed**: where it is due, the last boundary
that parts nothing that is looked for has no call without an answer in front, and parts no
freeform call from its result. -/
theorem compactContextWindow_keeps_iff (buildSummary : List Json → Option String)
    (options : Options) (items : List Json) :
    (∃ result, compactContextWindow buildSummary options items = some result ∧ WellKept options.keep items result.entries) ↔
      (Due options items → ∃ b,
        IsGreatest {b | b ≤ (conversation items).length - options.keep ∧ Uncut ((conversation items).map Prod.fst) b} b ∧
          (b < 2 ∨ (buildSummary (((conversation items).take b).map Prod.fst)).isSome ∧ Covers ((conversation items).map Prod.fst) b)) := by
  by_cases hdue : Due options items
  · have hgreatest := protectedSplitIndex_isGreatest ((conversation items).map Prod.fst) ((conversation items).length - options.keep)
    rw [compactContextWindow_due hdue]
    generalize protectedSplitIndex ((conversation items).map Prod.fst) ((conversation items).length - options.keep) = b at hgreatest ⊢
    obtain ⟨hb, hcut⟩ := hgreatest.1
    have hunique : (∃ b', IsGreatest {b | b ≤ (conversation items).length - options.keep ∧ Uncut ((conversation items).map Prod.fst) b} b' ∧
        (b' < 2 ∨ (buildSummary (((conversation items).take b').map Prod.fst)).isSome ∧ Covers ((conversation items).map Prod.fst) b')) ↔
        (b < 2 ∨ (buildSummary (((conversation items).take b).map Prod.fst)).isSome ∧ Covers ((conversation items).map Prod.fst) b) := by
      constructor
      · rintro ⟨b', hb', h⟩
        rwa [hb'.unique hgreatest] at h
      · intro h
        exact ⟨b, hgreatest, h⟩
    rw [hunique, forall_prop_of_true hdue]
    by_cases hsmall : b < 2
    · simp only [hsmall, if_true, true_or, iff_true]
      exact ⟨_, rfl, wellKept_untouched _ _ _⟩
    · simp only [hsmall, if_false, false_or]
      cases hsummary : buildSummary (((conversation items).take b).map Prod.fst) with
      | none => simp
      | some summary =>
        simp only [Option.map_some, Option.some.injEq, exists_eq_left', Option.isSome_some, true_and]
        exact wellKept_cutEntries hdue.2.2.2.le hb hcut
  · obtain ⟨tokens, htokens⟩ := compactContextWindow_not_due buildSummary hdue
    simp only [hdue, false_imp_iff, iff_true]
    exact ⟨_, htokens, wellKept_untouched _ _ _⟩

def patchItems : List Json :=
  [.object (.cons "role" (.string "user") (.cons "content" (.string "Rename the function.") .nil)),
    .object (.cons "role" (.string "assistant") (.cons "content" (.string "I will patch it.") .nil)),
    .object (.cons "type" (.string "custom_tool_call") (.cons "call_id" (.string "call_1") (.cons "name" (.string "apply_patch")
      (.cons "input" (.string "*** Begin Patch") .nil)))),
    .object (.cons "type" (.string "custom_tool_call_output") (.cons "call_id" (.string "call_1") (.cons "output" (.string "Done.") .nil)))]

/-- Its answer is kept, and the call itself is not. -/
theorem patchItems_parted : ¬ ∃ result,
    compactContextWindow (fun _ => some "Earlier work.") ⟨true, some 1, some 1, false⟩ patchItems = some result ∧
      WellKept 1 patchItems result.entries := by
  rintro ⟨result, hresult, hw⟩
  have hkept : (compactContextWindow (fun _ => some "Earlier work.") ⟨true, some 1, some 1, false⟩ patchItems).all
      fun result => decide (((conversation patchItems)[3]?.all fun item => decide (.kept item ∈ result.entries)) = true) := by
    decide +kernel
  have hlost : (compactContextWindow (fun _ => some "Earlier work.") ⟨true, some 1, some 1, false⟩ patchItems).all
      fun result => decide (((conversation patchItems)[2]?.all fun item => decide (.kept item ∉ result.entries)) = true) := by
    decide +kernel
  rw [hresult, Option.all_some, decide_eq_true_eq] at hkept hlost
  have hevents : events ((conversation patchItems).map Prod.fst) = [(2, Half.call true (some "call_1"))] ++ (3, Half.result true (some "call_1")) :: [] := by
    decide +kernel
  have hanswer : Kept patchItems result.entries 3 := by
    cases hitem : (conversation patchItems)[3]? with
    | none => exact absurd hitem (by decide +kernel)
    | some item =>
      rw [hitem, Option.all_some, decide_eq_true_eq] at hkept
      exact ⟨item, hitem, hkept⟩
  obtain ⟨c, hc, item, hitem, hmem⟩ := hw.wellFormed.results _ 3 true "call_1" [] hevents hanswer ⟨2, List.mem_singleton_self _⟩
  obtain ⟨rfl, -⟩ := Prod.mk.inj (List.mem_singleton.1 hc)
  rw [hitem, Option.all_some, decide_eq_true_eq] at hlost
  exact hlost hmem

end TokenProxy.ContextCompactor
