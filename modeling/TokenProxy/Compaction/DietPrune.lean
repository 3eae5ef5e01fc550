import TokenProxy.Lib.Json
import TokenProxy.Lib.Table
import Mathlib.Data.List.Induction
import Mathlib.Data.Rat.Floor
import Mathlib.Algebra.Ring.Nat

/-!
# Pruning expired tool results

Behind the epoch cut, the payload of an old tool result is replaced by a stub when nothing refers to
it. Results with the same text form a group: the newest one is kept, and the stub of the others
names its turn. The text leaves out whatever of a payload is not text.

* `pruneMessages_spec`: what stands at each place afterwards.
* `dietPrune_sound_iff`: when the copy that a stub names is one.
-/

namespace TokenProxy.DietPrune

open Lib

/-! ### Text -/

def units (s : String) : List ℕ :=
  s.toList.flatMap fun c =>
    if c.toNat < 0x10000 then [c.toNat] else [0xD800 + (c.toNat - 0x10000) / 0x400, 0xDC00 + (c.toNat - 0x10000) % 0x400]

def partText : Json → String
  | .string s => s
  | part =>
    match part.field "text" with
    | some (.string s) => s
    | _ => ""

def extractText : Option Json → String
  | some (.string s) => s
  | some (.array items) => items.toList.foldl (fun text part => text ++ partText part) ""
  | _ => ""

def expiredStub (n : ℕ) : String := "[pruned: " ++ n.repr ++ " chars — expired]"

def duplicateStub (n turn : ℕ) : String := "[pruned: " ++ n.repr ++ " chars, identical copy retained in turn " ++ turn.repr ++ "]"

def hasRole (role : String) (message : Json) : Bool := message.field "role" = some (.string role)

def assistantText (message : Json) : String := extractText (message.field "content")

def turnOrdinal (messages : List Json) (i : ℕ) : ℕ := (messages.take (i + 1)).countP (hasRole "assistant") + 1

/-! ### The gates -/

/-- Numbers; what is missing or not a number is `none`. -/
structure Options where
  epochCutIndex : Option ℚ
  minAgeTurns : Option ℚ
  minBlockChars : Option ℚ
  referenceScanTurns : Option ℚ

/-- `Math.max(low, Math.floor(Number(value) || default))` -/
def setting (low default : ℕ) (value : Option ℚ) : ℕ := max low ⌊if value.getD 0 = 0 then (default : ℚ) else value.getD 0⌋.toNat

namespace Options

def cut (options : Options) : ℕ := setting 0 0 options.epochCutIndex

def minAge (options : Options) : ℕ := setting 0 8 options.minAgeTurns

def minChars (options : Options) : ℕ := setting 1 2048 options.minBlockChars

def scanTurns (options : Options) : ℕ := setting 1 3 options.referenceScanTurns

end Options

def VERBATIM_MIN_CHARS : ℕ := 64

/-- The windows of `VERBATIM_MIN_CHARS` units of a text. -/
def windows (text : List ℕ) : List (List ℕ) :=
  (List.range (text.length + 1 - VERBATIM_MIN_CHARS)).map fun i => (text.drop i).take VERBATIM_MIN_CHARS

def includes (text word : List ℕ) : Bool := text.tails.any word.isPrefixOf

/-- `/error|traceback|exception|failed/i` -/
def isErrorTrace (text : String) : Bool :=
  ["error", "traceback", "exception", "failed"].any fun word => (text.toList.map Char.toLower).tails.any word.toList.isPrefixOf

def lineEnds : List Char := ['\n', '\r', '\u2028', '\u2029']

def startsHunk (line : List Char) : Bool := ["@@", "diff --git"].any fun mark => mark.toList.isPrefixOf line

def laterHunk : List Char → Bool
  | [] => false
  | c :: rest => lineEnds.contains c && startsHunk rest || laterHunk rest

/-- `/^(?:@@|diff --git)/m` -/
def hasDiffHunk (text : String) : Bool := startsHunk text.toList || laterHunk text.toList

def idsOf (items : List Json) : List String :=
  items.filterMap fun item =>
    match item.field "id" with
    | some (.string id) => some id
    | _ => none

def itemsOf (value : Option Json) : List Json :=
  match value with
  | some (.array items) => items.toList
  | _ => []

def recentToolUseIds (messages : List Json) : List String :=
  match messages.reverse.find? (hasRole "assistant") with
  | none => []
  | some tail =>
    idsOf (itemsOf (tail.field "tool_calls")) ++
      idsOf ((itemsOf (tail.field "content")).filter fun block => block.field "type" = some (.string "tool_use"))

def contextAll (scanTurns : ℕ) (messages : List Json) : List ℕ :=
  units (String.intercalate "\n" (((messages.reverse.filter (hasRole "assistant")).take scanTurns).map assistantText))

/-- A result that may be pruned; as a whole message it has no block index. -/
structure Candidate where
  i : ℕ
  blockIndex : Option ℕ
  toolUseId : Option Json
  text : String
  isError : Bool
  deriving DecidableEq

def Candidate.chars (c : Candidate) : ℕ := (units c.text).length

def isReferenced (scanTurns : ℕ) (messages : List Json) (c : Candidate) : Bool :=
  (match c.toolUseId with
    | some (.string id) => id ≠ "" && includes (contextAll scanTurns messages) (units id)
    | _ => false) ||
    (VERBATIM_MIN_CHARS ≤ c.chars && VERBATIM_MIN_CHARS ≤ (contextAll scanTurns messages).length &&
      (windows (units c.text)).any (windows (contextAll scanTurns messages)).contains)

def truthy (value : Option Json) : Bool := value.any Json.truthy

def toolCandidate (i : ℕ) (message : Json) : Candidate :=
  ⟨i, none, message.field "tool_call_id", extractText (message.field "content"), message.field "is_error" = some (.bool true)⟩

def blockCandidate (i blockIndex : ℕ) (block : Json) : Candidate :=
  ⟨i, some blockIndex, block.field "tool_use_id", extractText (block.field "content"), block.field "is_error" = some (.bool true)⟩

def isToolText (message : Json) : Bool :=
  hasRole "tool" message &&
    match message.field "content" with
    | some (.string _) => true
    | _ => false

def isToolResult (block : Json) : Bool := block.field "type" = some (.string "tool_result")

def messageCandidates (minChars i : ℕ) (message : Json) : List Candidate :=
  if isToolText message then [toolCandidate i message].filter fun c => minChars ≤ c.chars
  else if hasRole "user" message then
    ((itemsOf (message.field "content")).zipIdx.filter fun block => isToolResult block.1 && !truthy (block.1.field "cache_control")).map
      (fun block => blockCandidate i block.2 block.1) |>.filter fun c => minChars ≤ c.chars
  else []

def candidates (cut minChars : ℕ) (messages : List Json) : List Candidate :=
  messages.zipIdx.flatMap fun message => if message.2 ≤ cut then [] else messageCandidates minChars message.2 message.1

def turnsAfter (messages : List Json) (i : ℕ) : ℕ := (messages.drop (i + 1)).countP (hasRole "assistant")

def eligible (options : Options) (messages : List Json) : List Candidate :=
  (candidates options.cut options.minChars messages).filter fun c =>
    !(match c.toolUseId with
      | some (.string id) => (recentToolUseIds messages).contains id
      | _ => false) &&
    !(c.isError && isErrorTrace c.text) && !hasDiffHunk c.text && !isReferenced options.scanTurns messages c &&
      options.minAge ≤ turnsAfter messages c.i

/-! ### Groups -/

section Digest

variable {δ : Type*} [DecidableEq δ] (digest : String → δ)

def groups (eligible : List Candidate) : Dict δ (List Candidate) :=
  eligible.foldl (fun groups c => groups.put (digest c.text, (groups.lookup (digest c.text)).getD [] ++ [c])) Table.empty

/-- `c.blockIndex ?? -1` -/
def Candidate.blockOrder (c : Candidate) : ℤ := c.blockIndex.elim (-1) Nat.cast

def later (c newest : Candidate) : Bool := newest.i < c.i || c.i = newest.i && newest.blockOrder < c.blockOrder

def newestOf (first : Candidate) (group : List Candidate) : Candidate := group.foldl (fun newest c => if later c newest then c else newest) first

def groupStubs (messages : List Json) (group : List Candidate) : List (Candidate × String) :=
  match group with
  | [] => []
  | [c] => [(c, expiredStub c.chars)]
  | first :: rest =>
    let newest := newestOf first (first :: rest)
    ((first :: rest).filter fun c => c ≠ newest).map fun c => (c, duplicateStub c.chars (turnOrdinal messages newest.i))

def prunable (options : Options) (messages : List Json) : List (Candidate × String) :=
  (groups digest (eligible options messages)).rows.flatMap fun group => groupStubs messages group.2

end Digest

/-! ### The stage -/

/-- `stubByKey`: a place is pruned once. -/
def stubAt (stubs : List (Candidate × String)) (i : ℕ) (blockIndex : Option ℕ) : Option String :=
  (stubs.find? fun stub => stub.1.i = i ∧ stub.1.blockIndex = blockIndex).map Prod.snd

structure Pruned where
  value : Json
  blocks : ℕ
  chars : ℕ

def replaceContent (stub : Option String) (value : Json) : Pruned :=
  match stub, value with
  | some stub, .object fields =>
    ⟨.object (fields.put "content" (.string stub)), 1, (units (extractText (value.field "content"))).length⟩
  | _, _ => ⟨value, 0, 0⟩

def pruneBlocks (stubs : List (Candidate × String)) (i : ℕ) (blocks : List Json) : List Pruned :=
  blocks.zipIdx.map fun block => replaceContent (stubAt stubs i (some block.2)) block.1

def pruneMessage (cut : ℕ) (stubs : List (Candidate × String)) (i : ℕ) (message : Json) : Pruned :=
  if i ≤ cut then ⟨message, 0, 0⟩
  else if isToolText message then replaceContent (stubAt stubs i none) message
  else if hasRole "user" message then
    match message, message.field "content" with
    | .object fields, some (.array items) =>
      let blocks := pruneBlocks stubs i items.toList
      if (blocks.map Pruned.blocks).sum = 0 then ⟨message, 0, 0⟩
      else ⟨.object (fields.put "content" (.array (.ofList (blocks.map Pruned.value)))), (blocks.map Pruned.blocks).sum, (blocks.map Pruned.chars).sum⟩
    | _, _ => ⟨message, 0, 0⟩
  else ⟨message, 0, 0⟩

structure PruneResult where
  applied : Bool
  messages : List Json
  prunedBlocks : ℕ
  prunedChars : ℕ
  skip : Option String

def unchanged (messages : List Json) (skip : Option String) : PruneResult := ⟨false, messages, 0, 0, skip⟩

def pruneExpiredToolResults {δ : Type*} [DecidableEq δ] (digest : String → δ) (messages : List Json)
    (options : Options) : PruneResult :=
  if messages = [] then unchanged messages (some "invalid_input")
  else if options.cut = 0 then unchanged messages (some "epoch_boundary")
  else
    let stubs := prunable digest options messages
    if stubs = [] then unchanged messages none
    else
      let out := messages.zipIdx.map fun message => pruneMessage options.cut stubs message.2 message.1
      ⟨true, out.map Pruned.value, (out.map Pruned.blocks).sum, (out.map Pruned.chars).sum, none⟩

/-! ### Candidates -/

/-- The payload of the result at a place: of a tool message, or of a block. -/
def resultAt (messages : List Json) (i : ℕ) (blockIndex : Option ℕ) : Option Json :=
  messages[i]?.bind fun message =>
    match blockIndex with
    | none => if hasRole "tool" message then message.field "content" else none
    | some k =>
      if hasRole "user" message then
        (itemsOf (message.field "content"))[k]?.bind fun block => if isToolResult block then block.field "content" else none
      else none

inductive CandidateAt (messages : List Json) : Candidate → Prop
  | tool {i : ℕ} {message : Json} (hm : messages[i]? = some message) (htool : isToolText message = true) :
    CandidateAt messages (toolCandidate i message)
  | block {i k : ℕ} {message block : Json} (hm : messages[i]? = some message) (htool : isToolText message = false)
    (huser : hasRole "user" message = true) (hk : (itemsOf (message.field "content"))[k]? = some block) (hblock : isToolResult block = true) :
    CandidateAt messages (blockCandidate i k block)

theorem candidateAt_of_mem {cut minChars : ℕ} {messages : List Json} {c : Candidate}
    (h : c ∈ candidates cut minChars messages) :
    cut < c.i ∧ CandidateAt messages c := by
  obtain ⟨⟨message, i⟩, hm, h⟩ := List.mem_flatMap.1 h
  have hm := List.mem_zipIdx_iff_getElem?.1 hm
  split at h
  · simp at h
  · rename_i hcut
    simp only [not_le] at hcut
    unfold messageCandidates at h
    split at h
    · rename_i htool
      obtain ⟨h, -⟩ := List.mem_filter.1 h
      obtain rfl := List.mem_singleton.1 h
      exact ⟨hcut, .tool hm htool⟩
    · rename_i htool
      split at h
      · rename_i huser
        obtain ⟨h, -⟩ := List.mem_filter.1 h
        obtain ⟨⟨block, k⟩, hblock, rfl⟩ := List.mem_map.1 h
        obtain ⟨hblock, hresult⟩ := List.mem_filter.1 hblock
        simp only [Bool.and_eq_true] at hresult
        exact ⟨hcut, .block hm (by simpa using htool) huser (List.mem_zipIdx_iff_getElem?.1 hblock) hresult.1⟩
      · simp at h

theorem CandidateAt.unique {messages : List Json} {c d : Candidate} (hc : CandidateAt messages c)
    (hd : CandidateAt messages d) (hi : c.i = d.i) (hb : c.blockIndex = d.blockIndex) : c = d := by
  cases hc with
  | tool hm htool =>
    cases hd with
    | tool hm' htool' =>
      simp only [toolCandidate] at hi
      subst hi
      rw [hm, Option.some.injEq] at hm'
      rw [hm']
    | block hm' htool' huser hk hblock => simp [toolCandidate, blockCandidate] at hb
  | block hm htool huser hk hblock =>
    cases hd with
    | tool hm' htool' => simp [toolCandidate, blockCandidate] at hb
    | block hm' htool' huser' hk' hblock' =>
      simp only [blockCandidate, Option.some.injEq] at hi hb
      subst hi hb
      rw [hm, Option.some.injEq] at hm'
      subst hm'
      rw [hk, Option.some.injEq] at hk'
      rw [hk']

theorem CandidateAt.text {messages : List Json} {c : Candidate} (h : CandidateAt messages c) :
    c.text = extractText (resultAt messages c.i c.blockIndex) := by
  cases h with
  | tool hm htool =>
    simp only [isToolText, Bool.and_eq_true] at htool
    simp [toolCandidate, resultAt, hm, htool.1]
  | block hm htool huser hk hblock => simp [blockCandidate, resultAt, hm, huser, hk, hblock]

theorem CandidateAt.resultAt {messages : List Json} {c : Candidate} (h : CandidateAt messages c) (hchars : c.text ≠ "") :
    (resultAt messages c.i c.blockIndex).isSome := by
  by_contra hnone
  rw [Option.not_isSome_iff_eq_none] at hnone
  exact hchars (by rw [h.text, hnone]; rfl)

/-! ### Stubs -/

section Digest

variable {δ : Type*} [DecidableEq δ] (digest : String → δ)

def groupOf (eligible : List Candidate) (hash : δ) : List Candidate := eligible.filter fun c => digest c.text = hash

theorem lookup_groups (eligible : List Candidate) (hash : δ) :
    (groups digest eligible).lookup hash = if groupOf digest eligible hash = [] then none else some (groupOf digest eligible hash) := by
  induction eligible using List.reverseRecOn with
  | nil => simp [groups, groupOf, Table.lookup]
  | append_singleton eligible c ih =>
    have hsnoc : groups digest (eligible ++ [c])
        = (groups digest eligible).put (digest c.text, ((groups digest eligible).lookup (digest c.text)).getD [] ++ [c]) := by
      rw [groups, List.foldl_append]
      rfl
    rw [hsnoc, Table.lookup_put]
    by_cases h : hash = digest c.text
    · subst h
      have hgroup : groupOf digest (eligible ++ [c]) (digest c.text) = groupOf digest eligible (digest c.text) ++ [c] := by
        simp [groupOf, List.filter_append]
      rw [if_pos rfl, ih, hgroup]
      by_cases hnil : groupOf digest eligible (digest c.text) = []
      · simp [hnil]
      · simp [hnil]
    · rw [if_neg h, ih]
      simp [groupOf, List.filter_append, Ne.symm h]

theorem mem_groups {eligible : List Candidate} {row : δ × List Candidate} :
    row ∈ (groups digest eligible).rows ↔ row.2 = groupOf digest eligible row.1 ∧ row.2 ≠ [] := by
  rw [Table.mem_rows]
  have hlookup := lookup_groups digest eligible row.1
  unfold Table.lookup at hlookup
  constructor
  · intro h
    rw [h] at hlookup
    by_cases hnil : groupOf digest eligible row.1 = []
    · simp [hnil] at hlookup
    · simp only [Option.map_some, if_neg hnil, Option.some.injEq] at hlookup
      rw [hlookup]
      exact ⟨rfl, hnil⟩
  · rintro ⟨hrow, hne⟩
    rw [hrow] at hne
    rw [if_neg hne] at hlookup
    obtain ⟨row', hget, hrow'⟩ := Option.map_eq_some_iff.1 hlookup
    have hkey := Table.get?_key hget
    rw [hget]
    exact congrArg some (Prod.ext hkey (hrow'.trans hrow.symm))

theorem newestOf_mem (first : Candidate) (group : List Candidate) :
    newestOf first group ∈ first :: group := by
  induction group generalizing first with
  | nil => simp [newestOf]
  | cons c group ih =>
    rw [newestOf, List.foldl_cons]
    split
    · have := ih c
      rw [newestOf] at this
      exact List.mem_cons_of_mem _ this
    · have := ih first
      rw [newestOf] at this
      rcases List.mem_cons.1 this with h | h
      · rw [h]
        exact List.mem_cons_self
      · exact List.mem_cons_of_mem _ (List.mem_cons_of_mem _ h)

def newest (eligible : List Candidate) (c : Candidate) : Candidate :=
  newestOf ((groupOf digest eligible (digest c.text)).headD c) (groupOf digest eligible (digest c.text))

theorem mem_of_mem_groupStubs {messages : List Json} {group : List Candidate} {c : Candidate}
    {stub : String} (h : (c, stub) ∈ groupStubs messages group) : c ∈ group := by
  match group, h with
  | [e], h =>
    simp only [groupStubs, List.mem_singleton, Prod.mk.injEq] at h
    simp [h.1]
  | e :: e' :: rest, h =>
    obtain ⟨c', hc', heq⟩ := List.mem_map.1 h
    rw [← (Prod.mk.inj heq).1]
    exact (List.mem_filter.1 hc').1

theorem mem_groupStubs {messages : List Json} {group : List Candidate} {c d : Candidate}
    {stub : String} (hc : c ∈ group) :
    (c, stub) ∈ groupStubs messages group ↔
      (group = [c] ∧ stub = expiredStub c.chars) ∨
        c ≠ newestOf (group.headD d) group ∧ stub = duplicateStub c.chars (turnOrdinal messages (newestOf (group.headD d) group).i) := by
  match group, hc with
  | [e], hc =>
    obtain rfl := List.mem_singleton.1 hc
    have hnewest : newestOf c [c] = c := by simpa using newestOf_mem c [c]
    simp [groupStubs, hnewest]
  | e :: e' :: rest, hc =>
    simp only [groupStubs, List.headD_cons, List.mem_map, List.mem_filter, decide_eq_true_eq, Prod.mk.injEq]
    constructor
    · rintro ⟨c', ⟨-, hne⟩, rfl, rfl⟩
      exact .inr ⟨hne, rfl⟩
    · rintro (⟨h, -⟩ | ⟨hne, rfl⟩)
      · simp at h
      · exact ⟨c, ⟨hc, hne⟩, rfl, rfl⟩

variable (options : Options) (messages : List Json)

theorem mem_prunable {c : Candidate} {stub : String} :
    (c, stub) ∈ prunable digest options messages ↔ c ∈ eligible options messages ∧
      ((groupOf digest (eligible options messages) (digest c.text) = [c] ∧ stub = expiredStub c.chars) ∨
        c ≠ newest digest (eligible options messages) c ∧
          stub = duplicateStub c.chars (turnOrdinal messages (newest digest (eligible options messages) c).i)) := by
  unfold prunable
  rw [List.mem_flatMap]
  constructor
  · rintro ⟨row, hrow, hstub⟩
    obtain ⟨hgroup, -⟩ := (mem_groups digest).1 hrow
    have hc := mem_of_mem_groupStubs hstub
    have hc' := hc
    rw [hgroup, groupOf, List.mem_filter, decide_eq_true_eq] at hc'
    rw [mem_groupStubs (d := c) hc, hgroup, ← hc'.2] at hstub
    exact ⟨hc'.1, hstub⟩
  · rintro ⟨hc, hstub⟩
    have hmem : c ∈ groupOf digest (eligible options messages) (digest c.text) := List.mem_filter.2 ⟨hc, by simp⟩
    refine ⟨(digest c.text, groupOf digest (eligible options messages) (digest c.text)),
      (mem_groups digest).2 ⟨rfl, ?_⟩, ?_⟩
    · exact List.ne_nil_of_mem hmem
    · exact (mem_groupStubs (d := c) hmem).2 hstub

end Digest

/-! ### After the stage -/

section After

variable {δ : Type*} [DecidableEq δ] (digest : String → δ) (options : Options) (messages : List Json)

def stub (i : ℕ) (blockIndex : Option ℕ) : Option String := stubAt (prunable digest options messages) i blockIndex

theorem candidateAt_of_prunable {c : Candidate} {text : String}
    (h : (c, text) ∈ prunable digest options messages) :
    options.cut < c.i ∧ CandidateAt messages c :=
  candidateAt_of_mem (List.mem_filter.1 ((mem_prunable digest options messages).1 h).1).1

theorem stub_eq_some {i : ℕ} {blockIndex : Option ℕ} {text : String} :
    stub digest options messages i blockIndex = some text ↔
      ∃ c, (c, text) ∈ prunable digest options messages ∧ c.i = i ∧ c.blockIndex = blockIndex := by
  unfold stub stubAt
  rw [Option.map_eq_some_iff]
  constructor
  · rintro ⟨⟨c, text'⟩, hfind, rfl⟩
    have hplace := List.find?_some hfind
    simp only [decide_eq_true_eq] at hplace
    exact ⟨c, List.mem_of_find?_eq_some hfind, hplace⟩
  · rintro ⟨c, hc, hi, hb⟩
    cases hfind : (prunable digest options messages).find? fun stub => stub.1.i = i ∧ stub.1.blockIndex = blockIndex with
    | none =>
      have := List.find?_eq_none.1 hfind (c, text) hc
      simp [hi, hb] at this
    | some found =>
      obtain ⟨d, text'⟩ := found
      have hplace := List.find?_some hfind
      simp only [decide_eq_true_eq] at hplace
      have hd := List.mem_of_find?_eq_some hfind
      obtain rfl : d = c :=
        (candidateAt_of_prunable digest options messages hd).2.unique (candidateAt_of_prunable digest options messages hc).2
          (hplace.1.trans hi.symm) (hplace.2.trans hb.symm)
      refine ⟨_, rfl, ?_⟩
      obtain ⟨-, hstub⟩ := (mem_prunable digest options messages).1 hc
      obtain ⟨-, hstub'⟩ := (mem_prunable digest options messages).1 hd
      have halone : groupOf digest (eligible options messages) (digest d.text) = [d] → newest digest (eligible options messages) d = d := by
        intro hgroup
        simpa [newest, hgroup] using newestOf_mem d [d]
      rcases hstub with ⟨hgroup, rfl⟩ | ⟨hne, rfl⟩
      · rcases hstub' with ⟨-, rfl⟩ | ⟨hne, -⟩
        · rfl
        · exact absurd (halone hgroup).symm hne
      · rcases hstub' with ⟨hgroup, -⟩ | ⟨-, rfl⟩
        · exact absurd (halone hgroup).symm hne
        · rfl

theorem field_replaceContent (text : Option String) (value : Json) {key : String} (h : key ≠ "content") :
    (replaceContent text value).value.field key = value.field key := by
  unfold replaceContent
  split
  · simp [Json.field, JsonFields.get_put, Ne.symm h]
  · rfl

theorem field_pruneMessage (cut : ℕ) (stubs : List (Candidate × String)) (i : ℕ) (message : Json) {key : String} (h : key ≠ "content") :
    (pruneMessage cut stubs i message).value.field key = message.field key := by
  unfold pruneMessage
  split
  · rfl
  · split
    · exact field_replaceContent _ _ h
    · split
      · split
        · simp only
          split
          · rfl
          · simp [Json.field, JsonFields.get_put, Ne.symm h]
        · rfl
      · rfl

theorem replaceContent_none (value : Json) : replaceContent none value = ⟨value, 0, 0⟩ := by
  unfold replaceContent
  split
  · simp at *
  · rfl

theorem value_of_blocks_zero {text : Option String} {value : Json}
    (h : (replaceContent text value).blocks = 0) :
    (replaceContent text value).value = value := by
  unfold replaceContent at h ⊢
  split at h
  · simp at h
  · rfl

theorem map_value_of_sum_zero {stubs : List (Candidate × String)} {i : ℕ} {blocks : List Json}
    (h : ((pruneBlocks stubs i blocks).map Pruned.blocks).sum = 0) :
    (pruneBlocks stubs i blocks).map Pruned.value = blocks := by
  have hzero : ∀ block ∈ blocks.zipIdx, (replaceContent (stubAt stubs i (some block.2)) block.1).value = block.1 := by
    intro block hblock
    refine value_of_blocks_zero ?_
    rw [List.sum_eq_zero_iff] at h
    exact h _ (List.mem_map.2 ⟨_, List.mem_map.2 ⟨block, hblock, rfl⟩, rfl⟩)
  rw [pruneBlocks, List.map_map]
  calc blocks.zipIdx.map (Pruned.value ∘ fun block => replaceContent (stubAt stubs i (some block.2)) block.1)
      = blocks.zipIdx.map Prod.fst := List.map_congr_left hzero
    _ = blocks := List.zipIdx_map_fst 0 blocks

theorem blocks_pruneMessage {cut i : ℕ} (stubs : List (Candidate × String)) {message : Json}
    (hcut : cut < i) (huser : hasRole "user" message = true) :
    itemsOf ((pruneMessage cut stubs i message).value.field "content")
      = (pruneBlocks stubs i (itemsOf (message.field "content"))).map Pruned.value := by
  have htool : isToolText message = false := by
    unfold hasRole at huser
    simp only [decide_eq_true_eq] at huser
    simp [isToolText, hasRole, huser]
  have hnot : ¬ i ≤ cut := by omega
  unfold pruneMessage
  rw [if_neg hnot, htool, if_neg (by simp), if_pos huser]
  cases message with
  | object fields =>
    cases hcontent : (Json.object fields).field "content" with
    | none => simp [hcontent, itemsOf, pruneBlocks]
    | some content =>
      cases content with
      | array items =>
        simp only
        split
        · rename_i hzero
          rw [itemsOf, map_value_of_sum_zero hzero, hcontent]
          rfl
        · simp [Json.field, JsonFields.get_put, itemsOf]
      | _ => simp [hcontent, itemsOf, pruneBlocks]
  | _ => simp [hasRole, Json.field] at huser

def prunedMessages : List Json :=
  messages.zipIdx.map fun message => (pruneMessage options.cut (prunable digest options messages) message.2 message.1).value

theorem getElem?_prunedMessages (i : ℕ) :
    (prunedMessages digest options messages)[i]?
      = messages[i]?.map fun message => (pruneMessage options.cut (prunable digest options messages) i message).value := by
  rw [prunedMessages, List.getElem?_map, List.getElem?_zipIdx, Option.map_map]
  simp [Function.comp_def]

theorem field_prunedMessages {i : ℕ} {key : String} (h : key ≠ "content") :
    (prunedMessages digest options messages)[i]?.map (fun message => message.field key) = messages[i]?.map fun message => message.field key := by
  rw [getElem?_prunedMessages, Option.map_map]
  congr 1
  funext message
  exact field_pruneMessage _ _ _ _ h

theorem field_of_role {role : String} {message : Json} {stub : String}
    (h : hasRole role message = true) :
    (replaceContent (some stub) message).value.field "content" = some (.string stub) := by
  cases message with
  | object fields => simp [replaceContent, Json.field, JsonFields.get_put]
  | _ => simp [hasRole, Json.field] at h

theorem field_of_result {block : Json} {stub : String} (h : isToolResult block = true) :
    (replaceContent (some stub) block).value.field "content" = some (.string stub) := by
  cases block with
  | object fields => simp [replaceContent, Json.field, JsonFields.get_put]
  | _ => simp [isToolResult, Json.field] at h

theorem hasRole_pruneMessage (role : String) (cut : ℕ) (stubs : List (Candidate × String)) (i : ℕ)
    (message : Json) :
    hasRole role (pruneMessage cut stubs i message).value = hasRole role message := by
  unfold hasRole
  rw [field_pruneMessage cut stubs i message (by decide)]

theorem pruneMessage_tool {i : ℕ} {message : Json} (htool : hasRole "tool" message = true) (hstub : stub digest options messages i none = none) :
    (pruneMessage options.cut (prunable digest options messages) i message).value = message := by
  have huser : hasRole "user" message = false := by
    unfold hasRole at htool ⊢
    simp only [decide_eq_true_eq] at htool
    simp [htool]
  unfold stub at hstub
  unfold pruneMessage
  split
  · rfl
  · split
    · rw [hstub, replaceContent_none]
    · rw [huser, if_neg (by simp)]

/-- **What stands at a place afterwards**: its stub, or the payload as it was. -/
theorem pruneMessages_spec (i : ℕ) (blockIndex : Option ℕ) :
    resultAt (prunedMessages digest options messages) i blockIndex
      = match stub digest options messages i blockIndex with
        | some text => some (.string text)
        | none => resultAt messages i blockIndex := by
  cases hstub : stub digest options messages i blockIndex with
  | some text =>
    obtain ⟨c, hc, rfl, rfl⟩ := (stub_eq_some digest options messages).1 hstub
    obtain ⟨hcut, hat⟩ := candidateAt_of_prunable digest options messages hc
    unfold stub at hstub
    cases hat with
    | tool hm htool =>
      rename_i i message
      have hrole := (Bool.and_eq_true_iff.1 htool).1
      have hnot : ¬ i ≤ options.cut := not_le.2 hcut
      simp only [resultAt, toolCandidate, getElem?_prunedMessages, hm, Option.map_some,
        Option.bind_some, hasRole_pruneMessage, hrole, if_true]
      unfold pruneMessage
      rw [if_neg hnot, if_pos htool]
      simp only [toolCandidate] at hstub
      rw [hstub, field_of_role hrole]
    | block hm htool huser hk hblock =>
      rename_i i k message block
      simp only [resultAt, blockCandidate, getElem?_prunedMessages, hm, Option.map_some,
        Option.bind_some, hasRole_pruneMessage, huser, if_true]
      simp only [blockCandidate] at hcut hstub
      have hcut : options.cut < i := hcut
      rw [blocks_pruneMessage _ hcut huser, pruneBlocks, List.map_map, List.getElem?_map, List.getElem?_zipIdx, hk]
      have htype : isToolResult (replaceContent (some text) block).value = true := by
        unfold isToolResult at hblock ⊢
        rw [field_replaceContent _ _ (by decide), hblock]
      simp only [Option.map_some, Function.comp_apply, Nat.zero_add, hstub, Option.bind_some, htype,
        if_true, field_of_result hblock]
  | none =>
    simp only [resultAt, getElem?_prunedMessages]
    cases hm : messages[i]? with
    | none => rfl
    | some message =>
      simp only [Option.map_some, Option.bind_some, hasRole_pruneMessage]
      cases blockIndex with
      | none =>
        simp only
        split
        · rename_i htool
          rw [pruneMessage_tool digest options messages htool hstub]
        · rfl
      | some k =>
        simp only
        split
        · rename_i huser
          by_cases hcut : options.cut < i
          · unfold stub at hstub
            rw [blocks_pruneMessage _ hcut huser, pruneBlocks, List.map_map, List.getElem?_map,
              List.getElem?_zipIdx]
            cases (itemsOf (message.field "content"))[k]? with
            | none => rfl
            | some block => simp only [Option.map_some, Function.comp_apply, Nat.zero_add, hstub, replaceContent_none]
          · unfold pruneMessage
            rw [if_pos (not_lt.1 hcut)]
        · rfl

theorem field_blocks_pruneMessage (cut : ℕ) (stubs : List (Candidate × String)) (i : ℕ)
    (message : Json) (k : ℕ) {key : String} (h : key ≠ "content") :
    (itemsOf ((pruneMessage cut stubs i message).value.field "content"))[k]?.map (fun block => block.field key)
      = (itemsOf (message.field "content"))[k]?.map fun block => block.field key := by
  by_cases hcut : i ≤ cut
  · unfold pruneMessage
    rw [if_pos hcut]
  · by_cases huser : hasRole "user" message = true
    · rw [blocks_pruneMessage stubs (not_le.1 hcut) huser, pruneBlocks, List.map_map,
        List.getElem?_map, List.getElem?_zipIdx, Option.map_map, Option.map_map]
      congr 1
      funext block
      exact field_replaceContent _ _ h
    · unfold pruneMessage
      rw [if_neg hcut, if_neg huser]
      split
      · rename_i htool
        simp only [isToolText, Bool.and_eq_true] at htool
        obtain ⟨-, htext⟩ := htool
        have hnil : itemsOf (message.field "content") = [] := by
          unfold itemsOf
          split
          · rename_i hcontent
            simp [hcontent] at htext
          · rfl
        cases hstub : stubAt stubs i none with
        | none => rw [replaceContent_none]
        | some text =>
          cases message with
          | object fields =>
            rw [hnil]
            simp [replaceContent, Json.field, JsonFields.get_put, itemsOf]
          | _ => simp [Json.field] at htext
      · rfl

end After

/-! ### What holds of the stage -/

def blockAt (messages : List Json) (i k : ℕ) : Option Json := messages[i]?.bind fun message => (itemsOf (message.field "content"))[k]?

/-- Only payloads behind the cut are different: the messages, their blocks, and
every other field of both stay. -/
structure Kept (cut : ℕ) (messages out : List Json) : Prop where
  length : out.length = messages.length
  upTo : ∀ i ≤ cut, out[i]? = messages[i]?
  fields : ∀ (i : ℕ) (key : String), key ≠ "content" → out[i]?.map (fun message : Json => message.field key) = messages[i]?.map fun message : Json => message.field key
  blocks : ∀ (i k : ℕ) (key : String), key ≠ "content" → (blockAt out i k).map (fun block => block.field key) = (blockAt messages i k).map fun block => block.field key

/-- Where a payload was replaced by the stub of a duplicate, the turn that it names
still has the whole payload. -/
def CopyRetained (messages out : List Json) : Prop :=
  ∀ i blockIndex payload n turn, resultAt messages i blockIndex = some payload →
    resultAt out i blockIndex = some (.string (duplicateStub n turn)) → payload ≠ .string (duplicateStub n turn) →
    ∃ j blockIndex', turnOrdinal out j = turn ∧ resultAt messages j blockIndex' = some payload ∧ resultAt out j blockIndex' = some payload

/-- Every older result of a group has its whole payload in the turn of the newest one: it is that of
the newest, or of a result there that no gate lets through. -/
def NewestMatches {δ : Type*} [DecidableEq δ] (digest : String → δ) (options : Options)
    (messages : List Json) : Prop :=
  ∀ c ∈ eligible options messages, c ≠ newest digest (eligible options messages) c →
    resultAt messages c.i c.blockIndex
      ≠ some (.string (duplicateStub c.chars (turnOrdinal messages (newest digest (eligible options messages) c).i))) →
    ∃ j blockIndex, turnOrdinal messages j = turnOrdinal messages (newest digest (eligible options messages) c).i ∧
      resultAt messages j blockIndex = resultAt messages c.i c.blockIndex ∧
      ∀ d ∈ eligible options messages, d.i = j → d.blockIndex = blockIndex → d = newest digest (eligible options messages) c

/-! ### The texts of the stubs -/

theorem append_inj_of_all {p : Char → Bool} {sep : Char} (hsep : p sep = false)
    {xs ys rest rest' : List Char} (hx : ∀ c ∈ xs, p c = true)
    (hy : ∀ c ∈ ys, p c = true) (h : xs ++ sep :: rest = ys ++ sep :: rest') :
    xs = ys ∧ rest = rest' := by
  have htake : ∀ {zs : List Char} (tail : List Char), (∀ c ∈ zs, p c = true) → (zs ++ sep :: tail).takeWhile p = zs := by
    intro zs tail hz
    rw [List.takeWhile_append_of_pos hz, List.takeWhile_cons_of_neg (by simp [hsep]), List.append_nil]
  have hxy := congrArg (List.takeWhile p) h
  rw [htake rest hx, htake rest' hy] at hxy
  subst hxy
  exact ⟨rfl, by simpa using h⟩

theorem repr_inj {m n : ℕ} (h : (Nat.repr m).toList = (Nat.repr n).toList) : m = n := by
  rw [Nat.toList_repr, Nat.toList_repr] at h
  rw [← Nat.ofDigitChars_ten_toDigits (n := m), h, Nat.ofDigitChars_ten_toDigits]

theorem isDigit_of_mem_repr {n : ℕ} : ∀ c ∈ (Nat.repr n).toList, c.isDigit = true := by
  intro c hc
  rw [Nat.toList_repr] at hc
  exact Nat.isDigit_of_mem_toDigits (by decide) (by decide) hc

theorem toList_duplicateStub (n turn : ℕ) :
    (duplicateStub n turn).toList = "[pruned: ".toList ++ ((Nat.repr n).toList ++ ' ' :: ("chars, identical copy retained in turn ".toList ++
      ((Nat.repr turn).toList ++ ']' :: []))) := by
  simp [duplicateStub]

theorem toList_expiredStub (n : ℕ) :
    (expiredStub n).toList = "[pruned: ".toList ++ ((Nat.repr n).toList ++ ' ' :: "chars — expired]".toList) := by
  simp [expiredStub]

theorem turn_of_duplicateStub {n n' turn turn' : ℕ}
    (h : duplicateStub n turn = duplicateStub n' turn') : turn = turn' := by
  have hlist := congrArg String.toList h
  rw [toList_duplicateStub, toList_duplicateStub] at hlist
  have hrest := (append_inj_of_all (by decide) isDigit_of_mem_repr isDigit_of_mem_repr (List.append_cancel_left hlist)).2
  exact repr_inj (append_inj_of_all (by decide) isDigit_of_mem_repr isDigit_of_mem_repr (List.append_cancel_left hrest)).1

theorem expiredStub_ne_duplicateStub (n n' turn : ℕ) : expiredStub n ≠ duplicateStub n' turn := by
  intro h
  have hlist := congrArg String.toList h
  rw [toList_expiredStub, toList_duplicateStub] at hlist
  have hrest := (append_inj_of_all (by decide) isDigit_of_mem_repr isDigit_of_mem_repr (List.append_cancel_left hlist)).2
  have hsixth := congrArg (fun cs : List Char => cs[5]?) hrest
  simp at hsixth


/-! ### When the copy is one -/

section Sound

variable {δ : Type*} [DecidableEq δ] (digest : String → δ) (options : Options) (messages : List Json)

theorem sum_pruneBlocks_nil (i : ℕ) (blocks : List Json) :
    ((pruneBlocks [] i blocks).map Pruned.blocks).sum = 0 := by
  rw [List.sum_eq_zero_iff]
  intro n hn
  obtain ⟨pruned, hpruned, rfl⟩ := List.mem_map.1 hn
  obtain ⟨block, -, rfl⟩ := List.mem_map.1 hpruned
  simp [stubAt, replaceContent_none]

theorem pruneMessage_nil (cut i : ℕ) (message : Json) :
    (pruneMessage cut [] i message).value = message := by
  unfold pruneMessage
  split
  · rfl
  · split
    · simp [stubAt, replaceContent_none]
    · split
      · split
        · simp only
          rw [if_pos (sum_pruneBlocks_nil _ _)]
        · rfl
      · rfl

theorem messages_pruneExpiredToolResults :
    (pruneExpiredToolResults digest messages options).messages = if options.cut = 0 then messages else prunedMessages digest options messages := by
  unfold pruneExpiredToolResults
  split
  · rename_i hnil
    simp [unchanged, hnil, prunedMessages]
  · split
    · rfl
    · simp only
      split
      · rename_i hstubs
        refine List.ext_getElem? fun i => ?_
        simp [unchanged, getElem?_prunedMessages, hstubs, pruneMessage_nil]
      · simp [prunedMessages, List.map_map, Function.comp_def]

theorem kept_prunedMessages : Kept options.cut messages (prunedMessages digest options messages) where
  length := by simp [prunedMessages]
  upTo := by
    intro i hi
    rw [getElem?_prunedMessages]
    cases messages[i]? with
    | none => rfl
    | some message => simp [pruneMessage, hi]
  fields := fun i key h => field_prunedMessages digest options messages h
  blocks := by
    intro i k key h
    rw [blockAt, blockAt, getElem?_prunedMessages]
    cases messages[i]? with
    | none => rfl
    | some message => exact field_blocks_pruneMessage _ _ _ _ _ h

theorem turnOrdinal_prunedMessages (i : ℕ) :
    turnOrdinal (prunedMessages digest options messages) i = turnOrdinal messages i := by
  have hroles : (prunedMessages digest options messages).map (hasRole "assistant") = messages.map (hasRole "assistant") := by
    refine List.ext_getElem? fun j => ?_
    rw [List.getElem?_map, List.getElem?_map, getElem?_prunedMessages, Option.map_map]
    congr 1
    funext message
    exact hasRole_pruneMessage _ _ _ _ _
  have hcount : ∀ l : List Json, l.countP (hasRole "assistant") = (l.map (hasRole "assistant")).countP id := by
    intro l
    rw [List.countP_map]
    rfl
  rw [turnOrdinal, turnOrdinal, hcount, hcount, List.map_take, List.map_take, hroles]

theorem text_ne_of_eligible {c : Candidate} (h : c ∈ eligible options messages) : c.text ≠ "" := by
  have hc := (List.mem_filter.1 h).1
  obtain ⟨message, -, hc⟩ := List.mem_flatMap.1 hc
  have hmin : options.minChars ≤ c.chars := by
    split at hc
    · simp at hc
    · unfold messageCandidates at hc
      split at hc
      · simpa using (List.mem_filter.1 hc).2
      · split at hc
        · simpa using (List.mem_filter.1 hc).2
        · simp at hc
  have hone : 1 ≤ options.minChars := le_max_left _ _
  intro hempty
  have hzero : c.chars = 0 := by
    rw [Candidate.chars, hempty]
    rfl
  omega

theorem newest_mem {c : Candidate} (h : c ∈ eligible options messages) :
    newest digest (eligible options messages) c ∈ groupOf digest (eligible options messages) (digest c.text) := by
  have hmem : c ∈ groupOf digest (eligible options messages) (digest c.text) := List.mem_filter.2 ⟨h, by simp⟩
  unfold newest
  cases hgroup : groupOf digest (eligible options messages) (digest c.text) with
  | nil => simp [hgroup] at hmem
  | cons first rest =>
    rcases List.mem_cons.1 (newestOf_mem first (first :: rest)) with hfirst | hrest
    · rw [List.headD_cons, hfirst]
      exact List.mem_cons_self
    · exact hrest

theorem newest_congr {c d : Candidate} (hc : c ∈ eligible options messages)
    (h : digest d.text = digest c.text) :
    newest digest (eligible options messages) d = newest digest (eligible options messages) c := by
  have hmem : c ∈ groupOf digest (eligible options messages) (digest c.text) := List.mem_filter.2 ⟨hc, by simp⟩
  rw [newest, newest, h]
  cases hgroup : groupOf digest (eligible options messages) (digest c.text) with
  | nil => simp [hgroup] at hmem
  | cons first rest => rfl

theorem newestMatches_of_copyRetained (h : CopyRetained messages (prunedMessages digest options messages)) :
    NewestMatches digest options messages := by
  intro c hc hne hcontent
  obtain ⟨-, hat⟩ := candidateAt_of_mem (List.mem_filter.1 hc).1
  obtain ⟨payload, hpayload⟩ := Option.isSome_iff_exists.1 (hat.resultAt (text_ne_of_eligible options messages hc))
  have hstub : ∀ d ∈ eligible options messages, d ≠ newest digest (eligible options messages) d →
      resultAt (prunedMessages digest options messages) d.i d.blockIndex
        = some (.string (duplicateStub d.chars (turnOrdinal messages (newest digest (eligible options messages) d).i))) := by
    intro d hd hdne
    rw [pruneMessages_spec, (stub_eq_some digest options messages).2 ⟨d,
      (mem_prunable digest options messages).2 ⟨hd, .inr ⟨hdne, rfl⟩⟩, rfl, rfl⟩]
  rw [hpayload] at hcontent
  obtain ⟨j, blockIndex, hturn, hin, hout⟩ := h c.i c.blockIndex payload _ _ hpayload (hstub c hc hne) fun heq => hcontent (congrArg some heq)
  refine ⟨j, blockIndex, by rw [← turnOrdinal_prunedMessages digest options messages, hturn], by rw [hin, hpayload], ?_⟩
  rintro d hd rfl rfl
  by_contra hdne
  have htext : d.text = c.text := by
    rw [(candidateAt_of_mem (List.mem_filter.1 hd).1).2.text, hat.text, hin, hpayload]
  have hnewest := newest_congr digest options messages hc (congrArg digest htext)
  have hd' := hstub d hd (by rwa [hnewest])
  rw [hout, hnewest, Candidate.chars, htext, ← Candidate.chars] at hd'
  exact hcontent hd'

theorem copyRetained_of_newestMatches (h : NewestMatches digest options messages) :
    CopyRetained messages (prunedMessages digest options messages) := by
  intro i blockIndex payload n turn hpayload hout hne
  rw [pruneMessages_spec] at hout
  cases hstub : stub digest options messages i blockIndex with
  | none =>
    rw [hstub] at hout
    simp only [hpayload, Option.some.injEq] at hout
    exact absurd hout hne
  | some text =>
    rw [hstub] at hout
    simp only [Option.some.injEq, Json.string.injEq] at hout
    subst hout
    obtain ⟨c, hc, rfl, rfl⟩ := (stub_eq_some digest options messages).1 hstub
    obtain ⟨hel, hkind⟩ := (mem_prunable digest options messages).1 hc
    rcases hkind with ⟨-, hexpired⟩ | ⟨hnewest, hdup⟩
    · exact absurd hexpired.symm (expiredStub_ne_duplicateStub _ _ _)
    · have hturn := turn_of_duplicateStub hdup
      obtain ⟨j, blockIndex', hj, hsame, hspared⟩ := h c hel hnewest (by
        rw [hpayload, ← hdup]
        exact fun heq => hne (Option.some.inj heq))
      refine ⟨j, blockIndex', by rw [turnOrdinal_prunedMessages, hj, hturn], by rw [hsame, hpayload], ?_⟩
      rw [pruneMessages_spec]
      cases hstub' : stub digest options messages j blockIndex' with
      | none => simp only [hsame, hpayload]
      | some text' =>
        obtain ⟨d, hd, rfl, rfl⟩ := (stub_eq_some digest options messages).1 hstub'
        obtain ⟨hdel, hdkind⟩ := (mem_prunable digest options messages).1 hd
        have hdc := hspared d hdel rfl rfl
        have hgroup := newest_mem digest options messages hel
        rw [← hdc, groupOf, List.mem_filter, decide_eq_true_eq] at hgroup
        rcases hdkind with ⟨halone, -⟩ | ⟨hdne, -⟩
        · have hmem : c ∈ groupOf digest (eligible options messages) (digest d.text) :=
            List.mem_filter.2 ⟨hel, by simp [hgroup.2]⟩
          rw [halone, List.mem_singleton] at hmem
          exact absurd (hmem.trans hdc) hnewest
        · exact absurd (hdc.trans (newest_congr digest options messages hel hgroup.2).symm) hdne

/-- **When the copy that a stub names is one.** Whatever the messages, nothing but payloads behind
the cut changes; and every payload that a stub calls identical to one of a later turn is still there
as a whole just when the group of its text agrees in more than the text. -/
theorem dietPrune_sound_iff :
    (Kept options.cut messages (pruneExpiredToolResults digest messages options).messages ∧
        CopyRetained messages (pruneExpiredToolResults digest messages options).messages) ↔
      options.cut = 0 ∨ NewestMatches digest options messages := by
  rw [messages_pruneExpiredToolResults]
  split
  · rename_i hcut
    simp only [hcut, true_or, iff_true]
    refine ⟨⟨rfl, fun _ _ => rfl, fun _ _ _ => rfl, fun _ _ _ _ => rfl⟩, ?_⟩
    intro i blockIndex payload n turn hpayload hout hne
    rw [hpayload, Option.some.injEq] at hout
    exact absurd hout hne
  · rename_i hcut
    simp only [hcut, false_or]
    constructor
    · rintro ⟨-, h⟩
      exact newestMatches_of_copyRetained digest options messages h
    · intro h
      exact ⟨kept_prunedMessages digest options messages, copyRetained_of_newestMatches digest options messages h⟩

end Sound

/-! ### A screenshot that is lost -/

def places (messages : List Json) : List (ℕ × Option ℕ) :=
  messages.zipIdx.flatMap fun message =>
    (message.2, none) :: (List.range (itemsOf (message.1.field "content")).length).map fun k => (message.2, some k)

theorem mem_places {messages : List Json} {i : ℕ} {blockIndex : Option ℕ} {payload : Json}
    (h : resultAt messages i blockIndex = some payload) :
    (i, blockIndex) ∈ places messages := by
  obtain ⟨message, hm, h⟩ := Option.bind_eq_some_iff.1 h
  refine List.mem_flatMap.2 ⟨(message, i), List.mem_zipIdx_iff_getElem?.2 hm, ?_⟩
  cases blockIndex with
  | none => exact List.mem_cons_self
  | some k =>
    simp only at h
    split at h
    · obtain ⟨block, hk, -⟩ := Option.bind_eq_some_iff.1 h
      obtain ⟨hlt, -⟩ := List.getElem?_eq_some_iff.1 hk
      simp [hlt]
    · simp at h

def textPart (text : String) : Json := .object (.cons "type" (.string "text") (.cons "text" (.string text) .nil))

def imagePart : Json := .object (.cons "type" (.string "image") (.cons "source" (.string "screenshot") .nil))

def message (role : String) (content : List Json) : Json :=
  .object (.cons "role" (.string role) (.cons "content" (.array (.ofList content)) .nil))

def toolUse (id : String) : Json :=
  .object (.cons "type" (.string "tool_use") (.cons "id" (.string id) (.cons "name" (.string "look") .nil)))

def toolResult (id : String) (parts : List Json) : Json :=
  .object (.cons "type" (.string "tool_result") (.cons "tool_use_id" (.string id) (.cons "content" (.array (.ofList parts)) .nil)))

def page : String := "the page as it was loaded"

def screenshots : List Json :=
  [message "user" [textPart "look twice"], message "assistant" [toolUse "a"], message "user" [toolResult "a" [textPart page, imagePart]],
    message "assistant" [toolUse "b"], message "user" [toolResult "b" [textPart page]]] ++
    (List.replicate 9 [message "assistant" [textPart "ok"], message "user" [textPart "next"]]).flatten

/-- The stage behind the first call, for results from 16 characters on. -/
def behindFirstCall : Options := ⟨some 1, none, some 16, none⟩

/-- **A duplicate with an image.** The older result is replaced by the stub of a
copy that never had the image. -/
theorem screenshot_lost : ¬ CopyRetained screenshots (pruneExpiredToolResults id screenshots behindFirstCall).messages := by
  intro h
  have hnone : ∀ place ∈ places screenshots,
      resultAt (pruneExpiredToolResults id screenshots behindFirstCall).messages place.1 place.2
        ≠ some (.array (.ofList [textPart page, imagePart])) := by
    decide +kernel
  obtain ⟨j, blockIndex, -, hin, hout⟩ := h 2 (some 0) (.array (.ofList [textPart page, imagePart])) 25 3 (by decide +kernel)
    (by decide +kernel) (by simp)
  exact hnone (j, blockIndex) (mem_places hin) hout

end TokenProxy.DietPrune
