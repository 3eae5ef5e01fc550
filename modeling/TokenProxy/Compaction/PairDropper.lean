import TokenProxy.Lib.JsonPrint
import TokenProxy.Lib.Positions
import Mathlib.Data.Rat.Floor
import Mathlib.Algebra.Order.BigOperators.Group.List
import Mathlib.Algebra.Ring.Nat

/-!
# Dropping the oldest pairs

Under a deficit of characters `dropOldestPairs` removes user and assistant turns that follow each
other, oldest first, and leaves alone whatever carries tool structure, the first user message and a
tail of recent entries. The tail is told from the start of a pair alone, and counts every entry of
the list.

* `mem_removed_iff`: which pairs are removed, as a condition on each pair.
* `dropOldestPairs_sound_iff`: what holds of every removal, and when the tail is kept too.
-/

namespace TokenProxy.PairDropper

open Lib

/-! ### Tool structure -/

def toolMarkerTypes : List String := ["tool_use", "tool_result", "function_call", "function_call_output"]

def maxDepth : ℕ := 24

mutual

/-- What lies deeper than the walk can see is taken for tool structure. -/
def containsToolMarker (depth : ℕ) : Json → Bool
  | .array items => maxDepth < depth || itemsContain (depth + 1) items
  | .object fields =>
    maxDepth < depth ||
      (match fields.get "type" with
        | some (.string type) => toolMarkerTypes.contains type
        | _ => false) ||
      fieldsContain (depth + 1) fields
  | _ => false

def itemsContain (depth : ℕ) : JsonItems → Bool
  | .nil => false
  | .cons item items => containsToolMarker depth item || itemsContain depth items

def fieldsContain (depth : ℕ) : JsonFields → Bool
  | .nil => false
  | .cons _ value fields => containsToolMarker depth value || fieldsContain depth fields

end

/-! ### The stage -/

/-- A number that is not finite is `none`; for `keepRecentTurns` it is the missing option. -/
structure Options where
  deficitChars : Option ℚ
  keepRecentTurns : Option ℚ
  protectFirstUser : Bool

/-- `Math.max(0, Math.floor(Number(keepRecentTurns ?? 6)))` -/
def Options.keep (options : Options) : ℕ := ⌊options.keepRecentTurns.getD 6⌋.toNat

def hasRole (role : String) (messages : List Json) (i : ℕ) : Bool :=
  (messages[i]?.bind fun message => message.field "role") = some (.string role)

def firstUserIdx (messages : List Json) : Option ℕ := (List.range messages.length).find? (hasRole "user" messages)

def utf16Size (c : Char) : ℕ := if c.toNat < 0x10000 then 1 else 2

/-- `JSON.stringify(messages[i]).length` -/
def stringifyLength (messages : List Json) (i : ℕ) : ℕ := ((messages.getD i .null).print.map utf16Size).sum

def hasToolMarker (messages : List Json) (i : ℕ) : Bool := containsToolMarker 0 (messages.getD i .null)

/-- A note of the log: where a pair was, and how its question began. -/
structure Note where
  pair : ℕ
  preview : String

def notesCap : ℕ := 8

structure DropState where
  removed : List ℕ
  savedChars : ℕ
  droppedPairs : ℕ
  notes : List Note
  notesTruncated : Bool

structure DropResult where
  messages : List Json
  droppedPairs : ℕ
  savedChars : ℕ
  notes : List Note
  notesTruncated : Bool

section

-- `previewOf` is the first words of a message
variable (previewOf : Json → String) (options : Options) (deficitChars : ℚ) (messages : List Json)

def DropState.remove (s : DropState) (i : ℕ) : DropState where
  removed := s.removed ++ [i, i + 1]
  savedChars := s.savedChars + (stringifyLength messages i + stringifyLength messages (i + 1))
  droppedPairs := s.droppedPairs + 1
  notes := if s.notes.length < notesCap then s.notes ++ [⟨i, previewOf (messages.getD i .null)⟩] else s.notes
  notesTruncated := if s.notes.length < notesCap then s.notesTruncated else true

/-- The loop over the entries in front of the tail; a pair that was looked
at is left behind as a whole. -/
def dropLoop (tailStart i : ℕ) (s : DropState) : DropState :=
  if i < tailStart then
    if deficitChars ≤ s.savedChars then s
    else if ¬ hasRole "user" messages i then dropLoop tailStart (i + 1) s
    else if ¬ hasRole "assistant" messages (i + 1) then dropLoop tailStart (i + 1) s
    else if options.protectFirstUser ∧ firstUserIdx messages = some i then dropLoop tailStart (i + 2) s
    else if hasToolMarker messages i ∨ hasToolMarker messages (i + 1) then dropLoop tailStart (i + 2) s
    else dropLoop tailStart (i + 2) (s.remove previewOf messages i)
  else s
termination_by tailStart - i

end

def emptyResult (messages : List Json) : DropResult := ⟨messages, 0, 0, [], false⟩

def keptOf (messages : List Json) (removed : List ℕ) : List Json :=
  (messages.zipIdx.filter fun m => !removed.contains m.2).map Prod.fst

/-- What the loop has removed when it ends; without a deficit it does not begin. -/
def runDrop (previewOf : Json → String) (options : Options) (messages : List Json) : DropState :=
  match options.deficitChars with
  | none => ⟨[], 0, 0, [], false⟩
  | some deficitChars =>
    if deficitChars ≤ 0 then ⟨[], 0, 0, [], false⟩
    else dropLoop previewOf options deficitChars messages (messages.length - options.keep) 0 ⟨[], 0, 0, [], false⟩

def dropOldestPairs (previewOf : Json → String) (options : Options)
    (messages : List Json) : DropResult :=
  let s := runDrop previewOf options messages
  if s.droppedPairs = 0 then emptyResult messages
  else ⟨keptOf messages s.removed, s.droppedPairs, s.savedChars, s.notes, s.notesTruncated⟩

/-! ### Which pairs are removed -/

section

variable (options : Options) (messages : List Json)

/-- A pair that may go: turns of both roles, without tool structure, not the protected one. -/
def droppable (p : ℕ) : Bool :=
  hasRole "user" messages p && hasRole "assistant" messages (p + 1) && !(options.protectFirstUser && decide (firstUserIdx messages = some p)) &&
    !hasToolMarker messages p && !hasToolMarker messages (p + 1)

def pairSize (p : ℕ) : ℕ := stringifyLength messages p + stringifyLength messages (p + 1)

def charsBefore (p : ℕ) : ℕ := (((List.range p).filter (droppable options messages)).map (pairSize messages)).sum

/-- The pairs that may go in front of a place, as long as those before
them do not cover the deficit. -/
def chosen (deficitChars : ℚ) (n : ℕ) : List ℕ :=
  (List.range n).filter fun p => droppable options messages p && decide ((charsBefore options messages p : ℚ) < deficitChars)

end

def indicesOf (pairs : List ℕ) : List ℕ := pairs.flatMap fun p => [p, p + 1]

variable {options : Options} {messages : List Json} {deficitChars : ℚ}

theorem droppable_roles {p : ℕ} (h : droppable options messages p = true) :
    hasRole "user" messages p = true ∧ hasRole "assistant" messages (p + 1) = true ∧ hasToolMarker messages p = false ∧
      hasToolMarker messages (p + 1) = false := by
  simp only [droppable, Bool.and_eq_true, Bool.not_eq_true'] at h
  exact ⟨h.1.1.1.1, h.1.1.1.2, h.1.2, h.2⟩

theorem not_user_of_assistant {p : ℕ} (h : hasRole "assistant" messages p = true) : hasRole "user" messages p = false := by
  simp only [hasRole, decide_eq_true_eq] at h
  simp [hasRole, h]

theorem not_droppable_of_assistant {p : ℕ} (h : hasRole "assistant" messages p = true) : droppable options messages p = false := by
  simp [droppable, not_user_of_assistant h]

theorem charsBefore_succ (p : ℕ) :
    charsBefore options messages (p + 1) = charsBefore options messages p + if droppable options messages p then pairSize messages p else 0 := by
  unfold charsBefore
  rw [List.range_succ, List.filter_append, List.map_append, List.sum_append]
  congr 1
  by_cases h : droppable options messages p <;> simp [h]

theorem charsBefore_mono {p q : ℕ} (h : p ≤ q) :
    charsBefore options messages p ≤ charsBefore options messages q := by
  induction h with
  | refl => exact le_rfl
  | step _ ih =>
    rw [Nat.succ_eq_add_one, charsBefore_succ]
    omega

theorem chosen_succ (p : ℕ) :
    chosen options messages deficitChars (p + 1) = chosen options messages deficitChars p ++
      if droppable options messages p = true ∧ (charsBefore options messages p : ℚ) < deficitChars then [p] else [] := by
  unfold chosen
  rw [List.range_succ, List.filter_append]
  congr 1
  by_cases h : droppable options messages p = true ∧ (charsBefore options messages p : ℚ) < deficitChars
  · rw [if_pos h]
    simp [h.1, h.2]
  · rw [if_neg h]
    simp only [List.filter_cons, List.filter_nil, Bool.and_eq_true, decide_eq_true_eq, if_neg h]

theorem chosen_skip {p : ℕ} (deficitChars : ℚ) (h : droppable options messages p = false) :
    chosen options messages deficitChars (p + 1) = chosen options messages deficitChars p ∧
      charsBefore options messages (p + 1) = charsBefore options messages p := by
  rw [chosen_succ, charsBefore_succ]
  simp [h]

theorem chosen_covered {p q : ℕ} (h : p ≤ q) (hc : deficitChars ≤ charsBefore options messages p) :
    chosen options messages deficitChars q = chosen options messages deficitChars p := by
  induction h with
  | refl => rfl
  | @step q hq ih =>
    have hle : (charsBefore options messages p : ℚ) ≤ charsBefore options messages q := by exact_mod_cast charsBefore_mono hq
    rw [Nat.succ_eq_add_one, chosen_succ, if_neg fun h => absurd h.2 (not_lt.mpr (hc.trans hle)),
      List.append_nil, ih]

/-- What the loop has done in front of `i`, which may be one behind the end after a pair. -/
structure Dropping (options : Options) (messages : List Json) (deficitChars : ℚ) (tailStart i : ℕ)
    (s : DropState) : Prop where
  removed : s.removed = indicesOf (chosen options messages deficitChars i)
  saved : s.savedChars = charsBefore options messages i
  pairs : s.droppedPairs = (chosen options messages deficitChars i).length
  bound : i ≤ tailStart ∨ i = tailStart + 1 ∧ droppable options messages tailStart = false

theorem Dropping.skip {tailStart i : ℕ} {s : DropState}
    (h : Dropping options messages deficitChars tailStart i s) (hi : i < tailStart)
    (hd : droppable options messages i = false) : Dropping options messages deficitChars tailStart (i + 1) s where
  removed := by rw [h.removed, (chosen_skip deficitChars hd).1]
  saved := by rw [h.saved, (chosen_skip deficitChars hd).2]
  pairs := by rw [h.pairs, (chosen_skip deficitChars hd).1]
  bound := Or.inl hi

theorem Dropping.skipAnswer {tailStart i : ℕ} {s : DropState}
    (h : Dropping options messages deficitChars tailStart (i + 1) s) (hi : i < tailStart)
    (ha : hasRole "assistant" messages (i + 1) = true) : Dropping options messages deficitChars tailStart (i + 2) s := by
  have hd : droppable options messages (i + 1) = false := not_droppable_of_assistant ha
  refine ⟨by rw [h.removed, (chosen_skip deficitChars hd).1], by rw [h.saved, (chosen_skip deficitChars hd).2], by rw [h.pairs, (chosen_skip deficitChars hd).1], ?_⟩
  by_cases hlast : i + 1 = tailStart
  · exact Or.inr ⟨by omega, hlast ▸ hd⟩
  · exact Or.inl (by omega)

theorem Dropping.remove {tailStart i : ℕ} {s : DropState} (previewOf : Json → String)
    (h : Dropping options messages deficitChars tailStart i s)
    (hi : i < tailStart) (hd : droppable options messages i = true) (hlow : (s.savedChars : ℚ) < deficitChars) :
    Dropping options messages deficitChars tailStart (i + 1) (s.remove previewOf messages i) := by
  rw [h.saved] at hlow
  refine ⟨?_, ?_, ?_, Or.inl hi⟩
  · rw [chosen_succ, if_pos ⟨hd, hlow⟩]
    simp [DropState.remove, h.removed, indicesOf]
  · rw [charsBefore_succ, if_pos hd]
    simp [DropState.remove, h.saved, pairSize]
  · rw [chosen_succ, if_pos ⟨hd, hlow⟩]
    simp [DropState.remove, h.pairs]

theorem dropLoop_spec (previewOf : Json → String) {tailStart i : ℕ} {s : DropState}
    (h : Dropping options messages deficitChars tailStart i s) :
    (dropLoop previewOf options deficitChars messages tailStart i s).removed = indicesOf (chosen options messages deficitChars tailStart) ∧
      (dropLoop previewOf options deficitChars messages tailStart i s).droppedPairs = (chosen options messages deficitChars tailStart).length := by
  fun_induction dropLoop previewOf options deficitChars messages tailStart i s with
  | case1 i s hi hcovered =>
    rw [h.saved] at hcovered
    rw [chosen_covered (Nat.le_of_lt hi) hcovered]
    exact ⟨h.removed, h.pairs⟩
  | case2 i s hi hlow huser ih => exact ih (h.skip hi (by simp [droppable, huser]))
  | case3 i s hi hlow huser hassistant ih => exact ih (h.skip hi (by simp [droppable, hassistant]))
  | case4 i s hi hlow huser hassistant hfirst ih =>
    have ha : hasRole "assistant" messages (i + 1) = true := not_not.mp hassistant
    exact ih ((h.skip hi (by simp [droppable, hfirst])).skipAnswer hi ha)
  | case5 i s hi hlow huser hassistant hfirst hmarker ih =>
    have ha : hasRole "assistant" messages (i + 1) = true := not_not.mp hassistant
    refine ih ((h.skip hi ?_).skipAnswer hi ha)
    rcases hmarker with hm | hm <;> simp [droppable, hm]
  | case6 i s hi hlow huser hassistant hfirst hmarker ih =>
    have ha : hasRole "assistant" messages (i + 1) = true := not_not.mp hassistant
    simp only [not_or, Bool.not_eq_true] at hmarker
    refine ih ((h.remove previewOf hi ?_ (not_le.mp hlow)).skipAnswer hi ha)
    have hu : hasRole "user" messages i = true := not_not.mp huser
    have hp : (options.protectFirstUser && decide (firstUserIdx messages = some i)) = false := by
      rw [Bool.and_eq_false_iff, decide_eq_false_iff_not]
      by_cases hp : options.protectFirstUser = true
      · exact Or.inr fun he => hfirst ⟨hp, he⟩
      · exact Or.inl (Bool.not_eq_true _ ▸ hp)
    simp [droppable, hu, ha, hmarker.1, hmarker.2, hp]
  | case7 i s hi =>
    have hi : chosen options messages deficitChars i = chosen options messages deficitChars tailStart := by
      rcases h.bound with hle | ⟨rfl, hd⟩
      · rw [show i = tailStart by omega]
      · exact (chosen_skip deficitChars hd).1
    rw [← hi]
    exact ⟨h.removed, h.pairs⟩

/-! ### What a removal respects -/

def removedPairs (options : Options) (messages : List Json) : List ℕ :=
  match options.deficitChars with
  | none => []
  | some deficitChars => chosen options messages deficitChars (messages.length - options.keep)

theorem charsBefore_nonneg (options : Options) (messages : List Json)
    (p : ℕ) : (0 : ℚ) ≤ charsBefore options messages p := by exact_mod_cast Nat.zero_le _

theorem runDrop_spec (previewOf : Json → String) (options : Options) (messages : List Json) :
    (runDrop previewOf options messages).removed = indicesOf (removedPairs options messages) ∧
      (runDrop previewOf options messages).droppedPairs = (removedPairs options messages).length := by
  unfold runDrop removedPairs
  cases hd : options.deficitChars with
  | none => exact ⟨rfl, rfl⟩
  | some deficitChars =>
    simp only
    by_cases hle : deficitChars ≤ 0
    · have hnil : chosen options messages deficitChars (messages.length - options.keep) = [] := by
        unfold chosen
        rw [List.filter_eq_nil_iff]
        intro p _
        have := charsBefore_nonneg options messages p
        simp [not_lt.mpr (hle.trans this)]
      rw [if_pos hle, hnil]
      exact ⟨rfl, rfl⟩
    · rw [if_neg hle]
      refine dropLoop_spec previewOf ⟨?_, ?_, ?_, Or.inl (Nat.zero_le _)⟩
      · rfl
      · rfl
      · rfl

theorem mem_removedPairs {p : ℕ} : p ∈ removedPairs options messages ↔
    p < messages.length - options.keep ∧ droppable options messages p = true ∧
      ∃ deficitChars, options.deficitChars = some deficitChars ∧ (charsBefore options messages p : ℚ) < deficitChars := by
  unfold removedPairs
  cases hd : options.deficitChars with
  | none => simp
  | some deficitChars => simp [chosen]

def isTurn (message : Json) : Bool :=
  message.field "role" = some (.string "user") ∨ message.field "role" = some (.string "assistant")

def turnsFrom (messages : List Json) (i : ℕ) : ℕ := (messages.drop i).countP isTurn

theorem turnsFrom_succ_le (messages : List Json)
    (i : ℕ) : turnsFrom messages (i + 1) ≤ turnsFrom messages i := by
  unfold turnsFrom
  rw [← List.drop_drop]
  exact (List.drop_sublist 1 _).countP_le

/-- The messages that go are whole pairs without tool structure behind the first user message and in
front of the last `keepRecentTurns` turns, what stays is a sublist of what was there, and no pair
goes once those before it cover the deficit. -/
structure Sound (previewOf : Json → String) (options : Options) (messages : List Json) : Prop where
  kept : (dropOldestPairs previewOf options messages).messages = keptOf messages (indicesOf (removedPairs options messages)) ∧
    ((dropOldestPairs previewOf options messages).messages).Sublist messages
  pairs : ∀ p ∈ removedPairs options messages, hasRole "user" messages p = true ∧ hasRole "assistant" messages (p + 1) = true ∧
    hasToolMarker messages p = false ∧ hasToolMarker messages (p + 1) = false
  head : options.protectFirstUser = true → ∀ r ∈ indicesOf (removedPairs options messages), ∀ first, firstUserIdx messages = some first → first < r
  tail : ∀ r ∈ indicesOf (removedPairs options messages), options.keep < turnsFrom messages r
  stops : ∀ before p after deficitChars, removedPairs options messages = before ++ p :: after → options.deficitChars = some deficitChars →
    ((before.map (pairSize messages)).sum : ℚ) < deficitChars

theorem keptOf_sublist (messages : List Json)
    (removed : List ℕ) : (keptOf messages removed).Sublist messages := by
  unfold keptOf
  have hall : messages.zipIdx.map Prod.fst = messages := List.zipIdx_map_fst 0 messages
  conv_rhs => rw [← hall]
  exact List.filter_sublist.map Prod.fst

theorem mem_indicesOf {pairs : List ℕ} {r : ℕ} :
    r ∈ indicesOf pairs ↔ ∃ p ∈ pairs, r = p ∨ r = p + 1 := by
  simp [indicesOf]

theorem kept_spec (previewOf : Json → String) (options : Options) (messages : List Json) :
    (dropOldestPairs previewOf options messages).messages = keptOf messages (indicesOf (removedPairs options messages)) := by
  obtain ⟨hr, hp⟩ := runDrop_spec previewOf options messages
  unfold dropOldestPairs
  simp only [hp, hr]
  by_cases h : (removedPairs options messages).length = 0
  · rw [if_pos h, List.length_eq_zero_iff.mp h]
    simp [emptyResult, keptOf, indicesOf]
  · rw [if_neg h]

theorem firstUser_lt {p first : ℕ} (hd : droppable options messages p = true)
    (hprotect : options.protectFirstUser = true)
    (hf : firstUserIdx messages = some first) : first < p := by
  have huser := (droppable_roles hd).1
  have hne : p ≠ first := by
    rintro rfl
    simp [droppable, hprotect, hf] at hd
  by_contra hlt
  have hp : p < first := by omega
  unfold firstUserIdx at hf
  have hbefore := (List.find?_range_eq_some.mp hf).2.2 p hp
  simp [huser] at hbefore

theorem chosen_split {before after : List ℕ} {p n : ℕ}
    (h : chosen options messages deficitChars n = before ++ p :: after) :
    before = chosen options messages deficitChars p := by
  induction n generalizing after with
  | zero => simp [chosen] at h
  | succ n ih =>
    rw [chosen_succ] at h
    split at h
    · rcases List.eq_nil_or_concat' after with rfl | ⟨after, last, rfl⟩
      · obtain ⟨h1, h2⟩ := List.append_inj' h rfl
        simp only [List.cons.injEq, and_true] at h2
        rw [← h1, h2]
      · rw [← List.cons_append, ← List.append_assoc] at h
        exact ih (List.append_inj' h rfl).1
    · rw [List.append_nil] at h
      exact ih h

theorem sum_before_le {before after : List ℕ} {p n : ℕ}
    (h : chosen options messages deficitChars n = before ++ p :: after) :
    (before.map (pairSize messages)).sum ≤ charsBefore options messages p := by
  rw [chosen_split h]
  refine ((List.monotone_filter_right (List.range p) fun q hq => ?_).map _).sum_le_sum fun _ _ => Nat.zero_le _
  simp only [Bool.and_eq_true] at hq
  exact hq.1

/-- All of it holds unless a pair that may go, and comes to its turn, begins in front of the last
entries but ends among the last turns. -/
theorem dropOldestPairs_sound_iff (previewOf : Json → String) (options : Options)
    (messages : List Json) :
    Sound previewOf options messages ↔
      ∀ p deficitChars, droppable options messages p = true → p < messages.length - options.keep → options.deficitChars = some deficitChars →
        (charsBefore options messages p : ℚ) < deficitChars → options.keep < turnsFrom messages (p + 1) := by
  constructor
  · intro h p deficitChars hd hp hdeficit hlow
    exact h.tail (p + 1) (mem_indicesOf.mpr ⟨p, mem_removedPairs.mpr ⟨hp, hd, deficitChars, hdeficit, hlow⟩, Or.inr rfl⟩)
  · intro h
    refine ⟨⟨kept_spec previewOf options messages, ?_⟩, ?_, ?_, ?_, ?_⟩
    · rw [kept_spec]
      exact keptOf_sublist _ _
    · intro p hp
      exact droppable_roles (mem_removedPairs.mp hp).2.1
    · intro hprotect r hr first hf
      obtain ⟨p, hp, hrp⟩ := mem_indicesOf.mp hr
      have := firstUser_lt (mem_removedPairs.mp hp).2.1 hprotect hf
      omega
    · intro r hr
      obtain ⟨p, hp, hrp⟩ := mem_indicesOf.mp hr
      obtain ⟨hlt, hd, deficitChars, hdeficit, hlow⟩ := mem_removedPairs.mp hp
      have htail := h p deficitChars hd hlt hdeficit hlow
      have := turnsFrom_succ_le messages p
      rcases hrp with rfl | rfl
      · omega
      · exact htail
    · intro before p after deficitChars hsplit hdeficit
      have hp : p ∈ removedPairs options messages := by simp [hsplit]
      obtain ⟨-, -, deficitChars', hdeficit', hlow⟩ := mem_removedPairs.mp hp
      rw [hdeficit, Option.some.injEq] at hdeficit'
      subst hdeficit'
      unfold removedPairs at hsplit
      rw [hdeficit] at hsplit
      have hle : ((before.map (pairSize messages)).sum : ℚ) ≤ charsBefore options messages p := by exact_mod_cast sum_before_le hsplit
      exact lt_of_le_of_lt hle hlow

def twoPairs : List Json :=
  let turn (role content : String) : Json := .object (.cons "role" (.string role) (.cons "content" (.string content) .nil))
  [turn "user" "One?", turn "assistant" "Yes.", turn "user" "Two?", turn "assistant" "No."]

/-- The last answer is the one entry to keep, and goes with its question. -/
theorem twoPairs_torn : (dropOldestPairs (fun _ => "") ⟨some 1, some 1, true⟩ twoPairs).messages = twoPairs.take 2 ∧
    ¬ ∀ r ∈ indicesOf (removedPairs ⟨some 1, some 1, true⟩ twoPairs), 1 < turnsFrom twoPairs r := by
  decide +kernel

end TokenProxy.PairDropper
