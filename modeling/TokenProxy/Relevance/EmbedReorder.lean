import TokenProxy.Lib.JsonText
import TokenProxy.Lib.Placement
import Mathlib.Data.List.SplitBy
import Mathlib.Data.List.Sort
import Mathlib.Data.UInt
import Mathlib.Order.WithBot

/-!
# Ordering the history by relevance

Whole pairs of a question and its answer change places, each within its run. A pass that has scores
for the pairs orders by them and records the order; a pass without replays what was recorded.

Every call is a rearrangement of whole pairs (`plan_rearranges`), so it loses no message, keeps the
role of every position, and leaves what is no pair of its region where it is (`rolePreserving`).
-/

namespace TokenProxy.Relevance

open Lib Lib.JsonText

universe u v

/-! ### Keys of texts -/

/-- The two parts of the key, `length:hash`. -/
abbrev Key := ℕ × UInt32

def textKey (text : Text) : Key := (text.length, text.foldl (fun h unit => (h ^^^ UInt32.ofNat unit) * 16777619) 2166136261)

/-! ### Messages -/

structure Block where
  type : String
  text : Option Text
  deriving DecidableEq

/-- A content; in a list of blocks, `none` is what is no object. -/
inductive Content where
  | text (text : Text)
  | blocks (blocks : List (Option Block))
  | other
  deriving DecidableEq

structure Message where
  role : String
  content : Content
  deriving DecidableEq

def blockedKeys : List String := ["tool_use", "tool_result", "function_call", "function_call_output"]

def allowedBlockTypes : List String := ["text", "thinking", "redacted_thinking"]

def isTextOnly (entry : Message) : Bool :=
  if entry.role != "user" && entry.role != "assistant" then false
  else
    match entry.content with
    | .text _ => true
    | .blocks blocks => blocks.all fun block =>
      match block with
      | none => false
      | some block => !blockedKeys.contains block.type && allowedBlockTypes.contains block.type
    | .other => false

def extractText (entry : Message) : Text :=
  match entry.content with
  | .text text => text
  | .blocks blocks => List.intercalate [10] (blocks.filterMap fun block => block.bind Block.text)
  | .other => []

/-! ### Pairs and runs -/

/-- A movable pair: where it begins, and the key of its two texts. -/
structure Pair where
  start : ℕ
  key : Key
  deriving DecidableEq

def isPair (user assistant : Message) : Bool :=
  user.role == "user" && assistant.role == "assistant" && isTextOnly user && isTextOnly assistant

/-- The loop of `collectPairs` from a place on. -/
def collectFrom : ℕ → List Message → List Pair
  | i, user :: assistant :: rest =>
    if isPair user assistant then ⟨i, textKey (extractText user ++ 0 :: extractText assistant)⟩ :: collectFrom (i + 2) rest
    else collectFrom (i + 1) (assistant :: rest)
  | _, _ => []

def collectPairs (messages : List Message) (histLen : ℕ) : List Pair := collectFrom 0 (messages.take histLen)

def follows (p q : Pair) : Bool := p.start + 2 == q.start

def runsOf (pairs : List Pair) : List (List Pair) := (pairs.splitBy follows).filter fun run => 2 ≤ run.length

def isPairAt (messages : List Message) (i : ℕ) : Bool :=
  match messages[i]?, messages[i + 1]? with
  | some user, some assistant => isPair user assistant
  | _, _ => false

/-- How many messages stand in front of the protected tail; a pair on the
boundary is whole and historical. -/
def histLen (messages : List Message) (keepRecentTurns : ℕ) : ℕ :=
  let histLen := messages.length - min keepRecentTurns messages.length
  if 0 < histLen && histLen < messages.length - 1 && isPairAt messages (histLen - 1) then histLen + 1 else histLen

/-! ### Orders -/

section Orders

variable {K : Type v} [LT K] [DecidableLT K]

/-- The comparison of the sorts: `a.r - b.r || a.p.start - b.p.start`, not above 0. -/
def notAfter (rank : Pair → K) (p q : Pair) : Bool :=
  if rank p < rank q then true else if rank q < rank p then false else p.start ≤ q.start

def orderBy (rank : Pair → K) (run : List Pair) : List Pair := run.insertionSort fun p q => notAfter rank p q = true

def movesOf (runs : List (List Pair)) (orderFor : List Pair → List Pair) : List PairMove :=
  runs.flatMap fun run => (run.zip (orderFor run)).map fun p => ⟨p.1.start, p.2.start⟩

/-- The memoised place of a key; an unknown one ranks after all others. -/
def rankOf (order : List Key) (key : Key) : WithTop ℕ :=
  match (order.zipIdx.filter fun entry => entry.1 == key).getLast? with
  | some entry => WithTop.some entry.2
  | none => ⊤

/-- `sim.get(p.key)`: the score of the last pair with the same key. -/
def similarity (scores : Pair → K) (pairs : List Pair) (p : Pair) : K :=
  ((pairs.filter fun q => q.key == p.key).getLast?.map scores).getD (scores p)

/-- The keys in the order of their similarities; equal ones stay as they were first seen. -/
def memoOrder (scores : Pair → K) (pairs : List Pair) : List Key :=
  ((pairs.eraseDupsBy fun p q => p.key == q.key).insertionSort fun p q => ¬ similarity scores pairs q < similarity scores pairs p).map Pair.key

/-- What a call is given. Without scores it ends before it has an order: an option is missing, the
query is short, the service fails. -/
structure Options (K : Type v) where
  keepRecentTurns : ℕ := 2
  memo : Option (List Key) := none
  recompute : Bool := false
  scores : Option (Pair → K) := none

/-- The moves of a call, and the memo that it leaves. A replay with an empty memo ranks all pairs
alike, and moves none. -/
def plan (options : Options K) (messages : List Message) : List PairMove × Option (List Key) :=
  let runs := runsOf (collectPairs messages (histLen messages options.keepRecentTurns))
  match options.memo, options.recompute with
  | some order, false => (movesOf runs (orderBy fun p => rankOf order p.key), options.memo)
  | memo, _ =>
    if runs = [] then ([], memo)
    else
      match options.scores with
      | none => ([], memo)
      | some scores => (movesOf runs (orderBy (similarity scores runs.flatten)), memo.map fun _ => memoOrder scores runs.flatten)

structure Reordered (α : Type u) where
  messages : List α
  moved : ℕ
  memo : Option (List Key)

variable {α : Type u}

/-- `read` is what the pass sees of a message. -/
def reorderByRelevance (read : α → Message) (options : Options K)
    (messages : List α) : Reordered α :=
  let moves := (plan options (messages.map read)).1
  ⟨PairMove.applyAll messages moves, moves.countP fun move => move.source ≠ move.slot, (plan options (messages.map read)).2⟩

end Orders

/-! ### The pairs of a region -/

structure RegionPairs (lower upper : ℕ) (pairs : List Pair) : Prop where
  apart : pairs.Pairwise fun p q => p.start + 2 ≤ q.start
  bounds : ∀ p ∈ pairs, lower ≤ p.start ∧ p.start + 2 ≤ upper

theorem collectFrom_region (i : ℕ) (messages : List Message) :
    RegionPairs i (i + messages.length) (collectFrom i messages) := by
  induction i, messages using collectFrom.induct with
  | case1 i user assistant rest hpair ih =>
    rw [collectFrom, if_pos hpair]
    refine ⟨List.pairwise_cons.mpr ⟨fun p hp => (ih.bounds p hp).1, ih.apart⟩, ?_⟩
    rintro p (_ | ⟨_, hp⟩)
    · simp only [List.length_cons]
      omega
    · have := ih.bounds p hp
      simp only [List.length_cons]
      omega
  | case2 i user assistant rest hpair ih =>
    rw [collectFrom, if_neg hpair]
    refine ⟨ih.apart, fun p hp => ?_⟩
    have := ih.bounds p hp
    simp only [List.length_cons] at this ⊢
    omega
  | case3 messages i h =>
    rw [collectFrom]
    · exact ⟨List.Pairwise.nil, by simp⟩
    · exact h

theorem isPair_of_mem_collectFrom {i : ℕ} {messages : List Message} {p : Pair}
    (hp : p ∈ collectFrom i messages) :
    ∃ user assistant, messages[p.start - i]? = some user ∧ messages[p.start - i + 1]? = some assistant ∧ isPair user assistant = true := by
  induction i, messages using collectFrom.induct with
  | case1 i user assistant rest hpair ih =>
    rw [collectFrom, if_pos hpair] at hp
    rcases List.mem_cons.mp hp with rfl | hp
    · simp only [Nat.sub_self]
      exact ⟨user, assistant, rfl, rfl, hpair⟩
    · have hbounds := (collectFrom_region (i + 2) rest).bounds p hp
      rw [show p.start - i = p.start - (i + 2) + 2 by omega]
      exact ih hp
  | case2 i user assistant rest hpair ih =>
    rw [collectFrom, if_neg hpair] at hp
    have hbounds := (collectFrom_region (i + 1) (assistant :: rest)).bounds p hp
    rw [show p.start - i = p.start - (i + 1) + 1 by omega]
    exact ih hp
  | case3 messages i h =>
    rw [collectFrom] at hp
    · cases hp
    · exact h

theorem histLen_le (messages : List Message) (keepRecentTurns : ℕ) :
    histLen messages keepRecentTurns ≤ messages.length := by
  unfold histLen
  simp only [Bool.and_eq_true, decide_eq_true_eq]
  split <;> omega

theorem collectPairs_region (messages : List Message) {histLen : ℕ}
    (h : histLen ≤ messages.length) :
    RegionPairs 0 histLen (collectPairs messages histLen) := by
  have hregion := collectFrom_region 0 (messages.take histLen)
  rwa [List.length_take, Nat.min_eq_left h, Nat.zero_add] at hregion

theorem getElem?_of_take {α : Type u} {items : List α} {n i : ℕ} {x : α}
    (h : (items.take n)[i]? = some x) : items[i]? = some x := by
  rw [List.getElem?_take] at h
  split at h
  · exact h
  · cases h

theorem isPair_of_mem_collectPairs {messages : List Message} {histLen : ℕ} {p : Pair}
    (hp : p ∈ collectPairs messages histLen) :
    ∃ user assistant, messages[p.start]? = some user ∧ messages[p.start + 1]? = some assistant ∧ isPair user assistant = true := by
  obtain ⟨user, assistant, huser, hassistant, hpair⟩ := isPair_of_mem_collectFrom hp
  rw [Nat.sub_zero] at huser hassistant
  exact ⟨user, assistant, getElem?_of_take huser, getElem?_of_take hassistant, hpair⟩

/-! ### Runs -/

theorem flatten_runsOf_sublist (pairs : List Pair) : ((runsOf pairs).flatten).Sublist pairs := by
  have hfilter : (runsOf pairs).flatten.Sublist (pairs.splitBy follows).flatten :=
    List.Sublist.flatten List.filter_sublist
  rwa [List.flatten_splitBy] at hfilter

def Permutes (orderFor : List Pair → List Pair) : Prop := ∀ run, (orderFor run).Perm run

theorem permutes_orderBy {K : Type v} [LT K] [DecidableLT K]
    (rank : Pair → K) : Permutes (orderBy rank) := fun _ => List.perm_insertionSort _ _

theorem slots_movesOf (runs : List (List Pair)) {orderFor : List Pair → List Pair}
    (h : Permutes orderFor) :
    (movesOf runs orderFor).map PairMove.slot = runs.flatten.map Pair.start := by
  induction runs with
  | nil => rfl
  | cons run runs ih =>
    have hrun : (run.zip (orderFor run)).map Prod.fst = run := List.map_fst_zip (le_of_eq (h run).length_eq.symm)
    rw [movesOf, List.flatMap_cons, List.map_append, ← movesOf, ih, List.flatten_cons,
      List.map_append, List.map_map]
    conv_rhs => rw [← hrun, List.map_map]
    rfl

theorem sources_movesOf (runs : List (List Pair)) {orderFor : List Pair → List Pair}
    (h : Permutes orderFor) :
    ((movesOf runs orderFor).map PairMove.source).Perm (runs.flatten.map Pair.start) := by
  induction runs with
  | nil => exact List.Perm.nil
  | cons run runs ih =>
    have hrun : (run.zip (orderFor run)).map Prod.snd = orderFor run :=
      List.map_snd_zip (le_of_eq (h run).length_eq)
    rw [movesOf, List.flatMap_cons, List.map_append, ← movesOf, List.flatten_cons, List.map_append, List.map_map]
    refine List.Perm.append ?_ ih
    have hsources : (run.zip (orderFor run)).map (PairMove.source ∘ fun p => ⟨p.1.start,
      p.2.start⟩) = (orderFor run).map Pair.start := by
      conv_rhs => rw [← hrun, List.map_map]
      rfl
    rw [hsources]
    exact (h run).map Pair.start

/-- **The runs of a region are rearranged.** -/
theorem rearranges_movesOf {lower upper : ℕ} {pairs : List Pair}
    (hregion : RegionPairs lower upper pairs) {orderFor : List Pair → List Pair}
    (h : Permutes orderFor) : Rearranges upper (movesOf (runsOf pairs) orderFor) := by
  have hsub := flatten_runsOf_sublist pairs
  refine ⟨?_, ?_, fun move hmem => ?_⟩
  · rw [slots_movesOf _ h, List.pairwise_map]
    exact (hregion.apart.sublist hsub).imp fun hle => Or.inl hle
  · rw [slots_movesOf _ h]
    exact sources_movesOf _ h
  · have hslot : move.slot ∈ (runsOf pairs).flatten.map Pair.start := by
      rw [← slots_movesOf _ h]
      exact List.mem_map_of_mem hmem
    obtain ⟨p, hp, heq⟩ := List.mem_map.mp hslot
    rw [← heq]
    exact (hregion.bounds p (hsub.subset hp)).2

/-! ### What a call returns -/

section Call

variable {K : Type v} [LT K] [DecidableLT K] {α : Type u}

theorem plan_moves (options : Options K) (messages : List Message) :
    (plan options messages).1 = [] ∨ ∃ orderFor, Permutes orderFor ∧
      (plan options messages).1 = movesOf (runsOf (collectPairs messages (histLen messages options.keepRecentTurns))) orderFor := by
  unfold plan
  simp only
  split
  · exact Or.inr ⟨_, permutes_orderBy _, rfl⟩
  · split
    · exact Or.inl rfl
    · split
      · exact Or.inl rfl
      · exact Or.inr ⟨_, permutes_orderBy _, rfl⟩

theorem plan_rearranges (options : Options K) (messages : List Message) :
    Rearranges (histLen messages options.keepRecentTurns) (plan options messages).1 := by
  rcases plan_moves options messages with hnil | ⟨orderFor, hperm, hmoves⟩
  · rw [hnil]
    exact ⟨List.Pairwise.nil, List.Perm.nil, by simp⟩
  · rw [hmoves]
    exact rearranges_movesOf (collectPairs_region messages (histLen_le _ _)) hperm

theorem isPairAt_iff {messages : List Message} {i : ℕ} :
    isPairAt messages i = true ↔ ∃ user assistant, messages[i]? = some user ∧ messages[i + 1]? = some assistant ∧ isPair user assistant = true := by
  unfold isPairAt
  split
  · next user assistant huser hassistant =>
    rw [huser, hassistant]
    constructor
    · exact fun h => ⟨user, assistant, rfl, rfl, h⟩
    · rintro ⟨_, _, ⟨⟩, ⟨⟩, h⟩
      exact h
  · next hnone =>
    refine iff_of_false (by simp) ?_
    rintro ⟨user, assistant, huser, hassistant, -⟩
    exact hnone user assistant huser hassistant

theorem isPairAt_of_mem_plan {options : Options K} {messages : List Message} {move : PairMove}
    (h : move ∈ (plan options messages).1) :
    isPairAt messages move.slot = true ∧ isPairAt messages move.source = true := by
  rcases plan_moves options messages with hnil | ⟨orderFor, hperm, hmoves⟩
  · rw [hnil] at h
    cases h
  · rw [hmoves] at h
    have hpairs : ∀ i ∈ ((runsOf (collectPairs messages (histLen messages options.keepRecentTurns))).flatten).map Pair.start,
        isPairAt messages i = true := by
      intro i hi
      obtain ⟨p, hp, rfl⟩ := List.mem_map.mp hi
      exact isPairAt_iff.mpr (isPair_of_mem_collectPairs ((flatten_runsOf_sublist _).subset hp))
    refine ⟨hpairs _ ?_, hpairs _ ?_⟩
    · rw [← slots_movesOf _ hperm]
      exact List.mem_map_of_mem h
    · exact (sources_movesOf _ hperm).subset (List.mem_map_of_mem h)

def roleAt (messages : List Message) (i : ℕ) : Option String := messages[i]?.map Message.role

theorem roleAt_of_isPairAt {messages : List Message} {i : ℕ} (h : isPairAt messages i = true) :
    roleAt messages i = some "user" ∧ roleAt messages (i + 1) = some "assistant" := by
  obtain ⟨user, assistant, huser, hassistant, hpair⟩ := isPairAt_iff.mp h
  simp only [isPair, Bool.and_eq_true, beq_iff_eq] at hpair
  exact ⟨by rw [roleAt, huser, Option.map_some, hpair.1.1.1], by rw [roleAt, hassistant, Option.map_some, hpair.1.1.2]⟩

variable (read : α → Message) (options : Options K) (messages : List α)

theorem call_rearranges : Rearranges messages.length (plan options (messages.map read)).1 := by
  have hle := histLen_le (messages.map read) options.keepRecentTurns
  rw [List.length_map] at hle
  exact (plan_rearranges options (messages.map read)).mono hle

theorem reorder_role (i : ℕ) : roleAt ((reorderByRelevance read options messages).messages.map read) i = roleAt (messages.map read) i := by
  have hcall := call_rearranges read options messages
  rw [reorderByRelevance, ← PairMove.applyAll_map]
  by_cases htouched : ∃ move ∈ (plan options (messages.map read)).1, move.Touches i
  · obtain ⟨move, hmem, htouch⟩ := htouched
    have hlength : Rearranges (messages.map read).length (plan options (messages.map read)).1 := by rwa [List.length_map]
    obtain ⟨hslot, hsource⟩ := isPairAt_of_mem_plan hmem
    obtain ⟨hfirst, hsecond⟩ := hlength.getElem?_slots hmem
    obtain ⟨hslotUser, hslotAssistant⟩ := roleAt_of_isPairAt hslot
    obtain ⟨hsourceUser, hsourceAssistant⟩ := roleAt_of_isPairAt hsource
    rcases htouch with rfl | rfl
    · rw [hslotUser, ← hsourceUser, roleAt, hfirst, roleAt]
    · rw [hslotAssistant, ← hsourceAssistant, roleAt, hsecond, roleAt]
  · have huntouched : ∀ move ∈ (plan options (messages.map read)).1, ¬ move.Touches i :=
      fun move hmem h => htouched ⟨move, hmem, h⟩
    rw [roleAt, Rearranges.getElem?_untouched huntouched, roleAt]

theorem reorder_untouched {i : ℕ} (h : ∀ move ∈ (plan options (messages.map read)).1, ¬ move.Touches i) :
    (reorderByRelevance read options messages).messages[i]? = messages[i]? := Rearranges.getElem?_untouched h

theorem reorder_tail {i : ℕ} (h : histLen (messages.map read) options.keepRecentTurns ≤ i) :
    (reorderByRelevance read options messages).messages[i]? = messages[i]? := by
  refine reorder_untouched read options messages fun move hmem htouch => ?_
  have := (plan_rearranges options (messages.map read)).bounded move hmem
  unfold PairMove.Touches at htouch
  omega

theorem reorder_not_textOnly {i : ℕ} {message : α} (h : messages[i]? = some message)
    (htext : isTextOnly (read message) = false) :
    (reorderByRelevance read options messages).messages[i]? = some message := by
  rw [← h]
  refine reorder_untouched read options messages fun move hmem htouch => ?_
  obtain ⟨user, assistant, huser, hassistant, hpair⟩ := isPairAt_iff.mp (isPairAt_of_mem_plan hmem).1
  simp only [isPair, Bool.and_eq_true] at hpair
  rcases htouch with rfl | rfl
  · rw [List.getElem?_map, h, Option.map_some, Option.some.injEq] at huser
    rw [huser, hpair.1.2] at htext
    cases htext
  · rw [List.getElem?_map, h, Option.map_some, Option.some.injEq] at hassistant
    rw [hassistant, hpair.2] at htext
    cases htext

theorem reorder_adjacent {i : ℕ} (huser : roleAt (messages.map read) i = some "user")
    (hassistant : roleAt (messages.map read) (i + 1) = some "assistant") :
    ∃ j, (reorderByRelevance read options messages).messages[j]? = messages[i]? ∧
      (reorderByRelevance read options messages).messages[j + 1]? = messages[i + 1]? := by
  have hcall := call_rearranges read options messages
  by_cases hsource : ∃ move ∈ (plan options (messages.map read)).1, move.source = i
  · obtain ⟨move, hmem, rfl⟩ := hsource
    exact ⟨move.slot, hcall.getElem?_slots hmem⟩
  · have hslot : ∀ move ∈ (plan options (messages.map read)).1, move.slot ≠ i := by
      intro move hmem heq
      obtain ⟨other, hother, hother'⟩ := List.mem_map.mp (hcall.sources.symm.subset (List.mem_map_of_mem hmem))
      exact hsource ⟨other, hother, hother'.trans heq⟩
    have hroles : ∀ move ∈ (plan options (messages.map read)).1, move.slot + 1 ≠ i ∧ move.slot ≠ i + 1 := by
      intro move hmem
      obtain ⟨hfirst, hsecond⟩ := roleAt_of_isPairAt (isPairAt_of_mem_plan hmem).1
      refine ⟨fun heq => ?_, fun heq => ?_⟩
      · rw [heq, huser] at hsecond
        exact absurd hsecond (by decide)
      · rw [heq, hassistant] at hfirst
        exact absurd hfirst (by decide)
    refine ⟨i, reorder_untouched read options messages fun move hmem htouch => ?_,
      reorder_untouched read options messages fun move hmem htouch => ?_⟩
    · have := hslot move hmem
      have := hroles move hmem
      unfold PairMove.Touches at htouch
      omega
    · have := hslot move hmem
      have := hroles move hmem
      unfold PairMove.Touches at htouch
      omega

/-- What no call changes: the messages that there are, their roles by
position, and what may not move. -/
structure RolePreserving (read : α → Message) (options : Options K) (messages : List α) : Prop where
  perm : (reorderByRelevance read options messages).messages.Perm messages
  roles : ∀ i, roleAt ((reorderByRelevance read options messages).messages.map read) i = roleAt (messages.map read) i
  tools : ∀ (i : ℕ) (message : α), messages[i]? = some message → isTextOnly (read message) = false →
    (reorderByRelevance read options messages).messages[i]? = some message
  tail : ∀ i : ℕ, histLen (messages.map read) options.keepRecentTurns ≤ i → (reorderByRelevance read options messages).messages[i]? = messages[i]?
  adjacent : ∀ i : ℕ, roleAt (messages.map read) i = some "user" → roleAt (messages.map read) (i + 1) = some "assistant" →
    ∃ j : ℕ, (reorderByRelevance read options messages).messages[j]? = messages[i]? ∧
      (reorderByRelevance read options messages).messages[j + 1]? = messages[i + 1]?

theorem rolePreserving : RolePreserving read options messages where
  perm := (call_rearranges read options messages).perm
  roles := reorder_role read options messages
  tools _ _ := reorder_not_textOnly read options messages
  tail _ := reorder_tail read options messages
  adjacent _ := reorder_adjacent read options messages

end Call

end TokenProxy.Relevance
