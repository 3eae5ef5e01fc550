import Mathlib.Data.List.Basic

/-!
# Cache marks of a Claude body

`anchorClaudeCache`: a client's plan of cache marks is kept when it is complete and leaves room for
the gateway's own marks, and dropped otherwise. The last tool and the last system block are marked
for an hour, the tail of the messages for five minutes, or for an hour with the upgrade, which also
lifts the client's marks that name no lifetime.

A mark for an hour may not stand behind one for five minutes, in the order tools, system, messages.
-/

namespace TokenProxy.Claude

/-! ### Bodies -/

/-- `cache_control`; a mark without a `ttl` lives for five minutes. A value that is no text
stands as a text of its own. -/
structure CacheControl where
  type : String
  ttl : Option String
  deriving DecidableEq

def CacheControl.fiveMinutes : CacheControl := ⟨"ephemeral", none⟩

def CacheControl.oneHour : CacheControl := ⟨"ephemeral", some "1h"⟩

def CacheControl.IsShort (cc : CacheControl) : Prop := cc.type = "ephemeral" ∧ (cc.ttl = none ∨ cc.ttl = some "5m")

def CacheControl.IsHour (cc : CacheControl) : Prop := cc.type = "ephemeral" ∧ cc.ttl = some "1h"

def CacheControl.valid (cc : CacheControl) : Bool :=
  cc.type = "ephemeral" && (cc.ttl = none || cc.ttl = some "5m" || cc.ttl = some "1h")

/-- A block of a content or of the system prompt, or a tool. Marks inside of a block's
own content are not visited. -/
structure Block where
  type : String := "text"
  deferLoading : Bool := false
  cacheControl : Option CacheControl := none
  inner : List CacheControl := []
  deriving DecidableEq

structure Message where
  role : String
  content : Option (List Block)
  deriving DecidableEq

structure Body where
  tools : Option (List Block) := none
  system : Option (List Block) := none
  messages : Option (List Message) := none
  deriving DecidableEq

def Block.isMarked (block : Block) : Bool := block.cacheControl.isSome

def Block.isThinking (block : Block) : Bool := block.type = "thinking" || block.type = "redacted_thinking"

def Block.mark (cc : CacheControl) (block : Block) : Block := { block with cacheControl := some cc }

def Block.strip (block : Block) : Block := { block with cacheControl := none }

def Message.blocks (msg : Message) : List Block := msg.content.getD []

def Message.isMarked (msg : Message) : Bool := msg.blocks.any Block.isMarked

def Message.mapBlocks (f : List Block → List Block)
    (msg : Message) : Message := { msg with content := msg.content.map f }

def Body.contents (body : Body) : List Block := (body.messages.getD []).flatMap Message.blocks

def Body.visited (body : Body) : List Block := body.system.getD [] ++ body.tools.getD [] ++ body.contents

/-! ### The client's plan -/

def lastIndex {α : Type} (p : α → Bool) : List α → Option ℕ
  | [] => none
  | a :: as =>
    match lastIndex p as with
    | some i => some (i + 1)
    | none => if p a then some 0 else none

def canCacheTool (tool : Block) : Bool := !tool.deferLoading

def lastCacheableToolIndex (tools : List Block) : Option ℕ := lastIndex canCacheTool tools

def Block.keepable (block : Block) : Bool :=
  match block.cacheControl with
  | none => true
  | some cc => !block.isThinking && !block.deferLoading && cc.valid

/-- The message whose tail would be marked: the last one of the assistant, or
else the last one with blocks. -/
def fallbackTarget (msgs : List Message) : Option ℕ :=
  lastIndex (fun msg => msg.content.isSome && msg.role = "assistant") msgs <|> lastIndex (fun msg => msg.content.isSome) msgs

def fallbackNeeded (body : Body) : ℕ :=
  (match (body.system.getD []).getLast? with
    | some block => if block.isMarked then 0 else 1
    | none => 0) +
  (match (lastCacheableToolIndex (body.tools.getD [])).bind ((body.tools.getD [])[·]?) with
    | some tool => if tool.isMarked then 0 else 1
    | none => 0) +
  (match (fallbackTarget (body.messages.getD [])).bind ((body.messages.getD [])[·]?) with
    | some msg => if msg.isMarked then 0 else 1
    | none => 0)

/-- Whether `clientCacheAnchors` returns a set, and not null. As one mark that is not valid voids
the plan, the set holds every block that has a mark. -/
def clientCacheAnchors (body : Body) : Bool :=
  let count := body.visited.countP Block.isMarked
  body.visited.all Block.keepable && 0 < count && count ≤ 4 && count + fallbackNeeded body ≤ 4

/-! ### Anchoring -/

def markLastCacheableBlock (cc : CacheControl) (blocks : List Block) : List Block :=
  match lastIndex (fun block => !block.isThinking) blocks with
  | some i => blocks.modify i (Block.mark cc)
  | none => blocks

/-- The blocks of a list with an anchor for an hour on the one at `last`. -/
def anchorHour (keep : Bool) (last : Option ℕ) (blocks : List Block) : List Block :=
  blocks.mapIdx fun i block =>
    if last = some i then (if keep && block.isMarked then block else block.mark .oneHour)
    else if keep then block else block.strip

/-- The search for the tail ends at this message: the client marked
it, or it has a block to mark. -/
def Message.endsSearch (keep : Bool) (msg : Message) : Bool :=
  msg.content.isSome && (keep && msg.isMarked || msg.blocks.any fun block => !block.isThinking)

/-- The message that has the tail: the last one of the assistant, or else the last one. -/
def tailMessage (keep : Bool) (msgs : List Message) : Option ℕ :=
  lastIndex (fun msg => msg.role = "assistant" && msg.endsSearch keep) msgs <|> lastIndex (fun msg => msg.endsSearch keep) msgs

def anchorMessages (keep : Bool) (tailControl : CacheControl)
    (msgs : List Message) : List Message :=
  let msgs := if keep then msgs else msgs.map (Message.mapBlocks (List.map Block.strip))
  match tailMessage keep msgs with
  | some m =>
    msgs.modify m fun msg => if keep && msg.isMarked then msg else msg.mapBlocks (markLastCacheableBlock tailControl)
  | none => msgs

/-- The upgrade of one mark. Of the marks that are left with another
`ttl`, the client named each. -/
def lift (keep : Bool) (block : Block) : Block :=
  match block.cacheControl with
  | none => block
  | some cc =>
    if cc.type ≠ "ephemeral" ∨ cc.ttl = some "1h" then block
    else if keep && cc.ttl.isSome then block
    else block.mark .oneHour

/-- `anchorClaudeCache`, with or without the upgrade. -/
def anchorClaudeCache (upgradeTo1h : Bool) (body : Body) : Body :=
  let keep := clientCacheAnchors body
  let tailControl := if upgradeTo1h then .oneHour else .fiveMinutes
  let system := body.system.map fun blocks => anchorHour keep (lastIndex (fun _ => true) blocks) blocks
  let tools := body.tools.map fun tools => anchorHour keep (lastCacheableToolIndex tools) tools
  let messages := body.messages.map (anchorMessages keep tailControl)
  if upgradeTo1h then
    { system := system.map (List.map (lift keep))
      tools := tools.map (List.map (lift keep))
      messages := messages.map (List.map (Message.mapBlocks (List.map (lift keep)))) }
  else { system := system, tools := tools, messages := messages }

/-! ### The order of the marks -/

inductive Place where
  | tool (i : ℕ)
  | system (i : ℕ)
  | content (m i : ℕ)
  | inner (m i k : ℕ)
  deriving DecidableEq

/-- The one place stands before the other. What is inside of a block stands
before the block's own mark. -/
def Before : Place → Place → Prop
  | .tool i, .tool j => i < j
  | .tool _, _ => True
  | .system _, .tool _ => False
  | .system i, .system j => i < j
  | .system _, _ => True
  | .content m i, .content n j => m < n ∨ m = n ∧ i < j
  | .content m i, .inner n j _ => m < n ∨ m = n ∧ i < j
  | .inner m i _, .content n j => m < n ∨ m = n ∧ i ≤ j
  | .inner m i k, .inner n j l => m < n ∨ m = n ∧ (i < j ∨ i = j ∧ k < l)
  | _, _ => False

def Body.toolAt (body : Body) (i : ℕ) : Option Block := (body.tools.getD [])[i]?

def Body.systemAt (body : Body) (i : ℕ) : Option Block := (body.system.getD [])[i]?

def Body.blockAt (body : Body) (m i : ℕ) : Option Block := (body.messages.getD [])[m]?.bind (·.blocks[i]?)

def Body.own (body : Body) : Place → Option Block
  | .tool i => body.toolAt i
  | .system i => body.systemAt i
  | .content m i => body.blockAt m i
  | .inner .. => none

def Body.markAt (body : Body) : Place → Option CacheControl
  | .inner m i k => (body.blockAt m i).bind (·.inner[k]?)
  | p => (body.own p).bind Block.cacheControl

def Body.Ordered (body : Body) : Prop :=
  ∀ p q cc cc', Before p q → body.markAt p = some cc → body.markAt q = some cc' → cc.IsShort → ¬ cc'.IsHour

/-! ### What the gateway does to a mark -/

/-- The block of a message that is marked if the message has the tail. -/
def Message.tailIndex (keep : Bool) (msg : Message) : Option ℕ :=
  if keep && msg.isMarked then none else lastIndex (fun block => !block.isThinking) msg.blocks

def tailBlock (keep : Bool) (msgs : List Message) : Option (ℕ × ℕ) :=
  (tailMessage keep msgs).bind fun m => msgs[m]?.bind fun msg => (msg.tailIndex keep).map (m, ·)

def Body.tail (body : Body) : Option (ℕ × ℕ) := tailBlock (clientCacheAnchors body) (body.messages.getD [])

def Body.anchorAt (upgradeTo1h : Bool) (body : Body) : Place → Option CacheControl
  | .tool i =>
    if lastCacheableToolIndex (body.tools.getD []) = some i ∧ ¬ (clientCacheAnchors body ∧ (body.markAt (.tool i)).isSome) then
      some .oneHour
    else none
  | .system i =>
    if lastIndex (fun _ => true) (body.system.getD []) = some i ∧ ¬ (clientCacheAnchors body ∧ (body.markAt (.system i)).isSome) then
      some .oneHour
    else none
  | .content m i => if body.tail = some (m, i) then some (if upgradeTo1h then .oneHour else .fiveMinutes) else none
  | .inner .. => none

def Body.Lifts (upgradeTo1h : Bool) (body : Body) : Place → Prop
  | .inner .. => False
  | p => upgradeTo1h ∧ clientCacheAnchors body ∧ ∃ cc, body.markAt p = some cc ∧ cc.ttl = none

/-- The gateway leaves the client's mark at the place as it is. -/
def Body.Leaves (upgradeTo1h : Bool) (body : Body) : Place → Prop
  | .inner .. => True
  | p => clientCacheAnchors body ∧ ¬ body.Lifts upgradeTo1h p

/-! ### Indices -/

theorem lastIndex_map {α β : Type} (f : β → α) (p : α → Bool)
    (bs : List β) : lastIndex p (bs.map f) = lastIndex (fun b => p (f b)) bs := by
  induction bs with
  | nil => rfl
  | cons b bs ih => simp only [List.map_cons, lastIndex, ih]

theorem lastIndex_some {α : Type} {p : α → Bool} {as : List α} {i : ℕ}
    (h : lastIndex p as = some i) : ∃ a, as[i]? = some a ∧ p a := by
  induction as generalizing i with
  | nil => simp [lastIndex] at h
  | cons a as ih =>
    rw [lastIndex] at h
    split at h
    · rename_i j hj
      obtain rfl := Option.some.inj h
      exact ih hj
    · split_ifs at h with hp
      obtain rfl := Option.some.inj h
      exact ⟨a, rfl, hp⟩

/-! ### The marks afterwards -/

/-- A block at which the gateway sets the given mark, before the upgrade. -/
def anchored (keep : Bool) (control : Option CacheControl) (block : Block) : Block :=
  match control with
  | some cc => block.mark cc
  | none => if keep then block else block.strip

def settle (keep upgradeTo1h : Bool) (control : Option CacheControl) (block : Block) : Block :=
  if upgradeTo1h then lift keep (anchored keep control block) else anchored keep control block

theorem lift_inner (keep : Bool) (block : Block) : (lift keep block).inner = block.inner := by
  unfold lift
  split
  · rfl
  · split_ifs <;> rfl

theorem anchored_inner (keep : Bool) (control : Option CacheControl) (block : Block) :
    (anchored keep control block).inner = block.inner := by
  unfold anchored
  split
  · rfl
  · split_ifs <;> rfl

theorem settle_inner (keep upgradeTo1h : Bool) (control : Option CacheControl) (block : Block) :
    (settle keep upgradeTo1h control block).inner = block.inner := by
  unfold settle
  split_ifs
  · rw [lift_inner, anchored_inner]
  · exact anchored_inner keep control block

theorem getElem?_anchorHour (keep : Bool) (last : Option ℕ) (blocks : List Block) (i : ℕ) :
    (anchorHour keep last blocks)[i]? = blocks[i]?.map fun block =>
      anchored keep (if last = some i ∧ ¬ (keep ∧ block.isMarked) then some .oneHour else none) block := by
  rw [anchorHour, List.getElem?_mapIdx]
  congr 1
  funext block
  by_cases hlast : last = some i
  · by_cases hmarked : keep ∧ block.isMarked
    · simp [hlast, hmarked, anchored]
    · simp [hlast, hmarked, anchored]
  · simp [hlast, anchored]

theorem getElem?_settled (keep upgradeTo1h : Bool) {blocks anchoredBlocks : List Block}
    {control : Option CacheControl} {i : ℕ}
    (h : anchoredBlocks[i]? = blocks[i]?.map (anchored keep control)) :
    (if upgradeTo1h then anchoredBlocks.map (lift keep) else anchoredBlocks)[i]? =
      blocks[i]?.map (settle keep upgradeTo1h control) := by
  cases upgradeTo1h
  · exact h
  · simp only [if_true, List.getElem?_map, h, Option.map_map]
    rfl

theorem anchorClaudeCache_tools (upgradeTo1h : Bool) (body : Body) :
    (anchorClaudeCache upgradeTo1h body).tools.getD [] =
      let tools := anchorHour (clientCacheAnchors body) (lastCacheableToolIndex (body.tools.getD [])) (body.tools.getD [])
      if upgradeTo1h then tools.map (lift (clientCacheAnchors body)) else tools := by
  unfold anchorClaudeCache
  cases upgradeTo1h <;> cases body.tools <;> rfl

theorem anchorClaudeCache_system (upgradeTo1h : Bool) (body : Body) :
    (anchorClaudeCache upgradeTo1h body).system.getD [] =
      let system := anchorHour (clientCacheAnchors body) (lastIndex (fun _ => true) (body.system.getD [])) (body.system.getD [])
      if upgradeTo1h then system.map (lift (clientCacheAnchors body)) else system := by
  unfold anchorClaudeCache
  cases upgradeTo1h <;> cases body.system <;> rfl

theorem toolAt_anchorClaudeCache (upgradeTo1h : Bool) (body : Body) (i : ℕ) :
    (anchorClaudeCache upgradeTo1h body).toolAt i =
      (body.toolAt i).map (settle (clientCacheAnchors body) upgradeTo1h (body.anchorAt upgradeTo1h (.tool i))) := by
  rw [Body.toolAt, anchorClaudeCache_tools]
  refine getElem?_settled _ upgradeTo1h ?_
  rw [getElem?_anchorHour]
  refine Option.map_congr fun block hblock => ?_
  simp only [Body.anchorAt, Body.markAt, Body.own, Body.toolAt, hblock, Option.bind_some, Block.isMarked]
  congr

theorem systemAt_anchorClaudeCache (upgradeTo1h : Bool) (body : Body) (i : ℕ) :
    (anchorClaudeCache upgradeTo1h body).systemAt i =
      (body.systemAt i).map (settle (clientCacheAnchors body) upgradeTo1h (body.anchorAt upgradeTo1h (.system i))) := by
  rw [Body.systemAt, anchorClaudeCache_system]
  refine getElem?_settled _ upgradeTo1h ?_
  rw [getElem?_anchorHour]
  refine Option.map_congr fun block hblock => ?_
  simp only [Body.anchorAt, Body.markAt, Body.own, Body.systemAt, hblock, Option.bind_some, Block.isMarked]
  congr

theorem blocks_mapBlocks {f : List Block → List Block} (hf : f [] = [])
    (msg : Message) : (msg.mapBlocks f).blocks = f msg.blocks := by
  unfold Message.blocks Message.mapBlocks
  cases msg.content
  · exact hf.symm
  · rfl

theorem getElem?_markLastCacheableBlock (cc : CacheControl) (blocks : List Block) (i : ℕ) :
    (markLastCacheableBlock cc blocks)[i]? =
      blocks[i]?.map fun block => if lastIndex (fun block => !block.isThinking) blocks = some i then block.mark cc else block := by
  unfold markLastCacheableBlock
  split
  · rename_i k hk
    rw [List.getElem?_modify, hk]
    by_cases h : k = i
    · simp [h]
    · simp [h]
  · rename_i hnone
    simp [hnone]

theorem endsSearch_strip (msg : Message) :
    (msg.mapBlocks (List.map Block.strip)).endsSearch false = msg.endsSearch false := by
  unfold Message.endsSearch Message.blocks Message.mapBlocks
  cases msg.content
  · rfl
  · simp only [Block.strip, Block.isThinking, Option.map_some, Option.isSome_some, Bool.false_and,
      Bool.false_or, Option.getD_some, List.any_map, Function.comp_def]
    rfl

theorem tailMessage_strip (msgs : List Message) :
    tailMessage false (msgs.map (Message.mapBlocks (List.map Block.strip))) = tailMessage false msgs := by
  unfold tailMessage
  simp only [lastIndex_map, endsSearch_strip]
  rfl

theorem anchored_true : anchored true none = id := rfl

theorem getElem?_dressed (keep : Bool) (msgs : List Message) (m : ℕ) :
    (if keep then msgs else msgs.map (Message.mapBlocks (List.map Block.strip)))[m]? =
      msgs[m]?.map (Message.mapBlocks (List.map (anchored keep none))) := by
  cases keep
  · simp only [Bool.false_eq_true, if_false, List.getElem?_map]
    rfl
  · have hid : Message.mapBlocks (List.map (anchored true none)) = id := by
      funext msg
      simp [Message.mapBlocks, anchored_true]
    simp [hid]

theorem lastIndex_dressed (keep : Bool) (blocks : List Block) :
    lastIndex (fun block => !block.isThinking) (blocks.map (anchored keep none)) = lastIndex (fun block => !block.isThinking) blocks := by
  rw [lastIndex_map]
  cases keep <;> rfl

theorem anchored_mark (keep : Bool) (cc : CacheControl) (block : Block) :
    (anchored keep none block).mark cc = anchored keep (some cc) block := by
  cases keep <;> rfl

theorem getElem?_tail (keep : Bool) (cc : CacheControl) (msg : Message) (i : ℕ) :
    (if keep && (msg.mapBlocks (List.map (anchored keep none))).isMarked then msg.mapBlocks (List.map (anchored keep none))
      else (msg.mapBlocks (List.map (anchored keep none))).mapBlocks (markLastCacheableBlock cc)).blocks[i]? =
    msg.blocks[i]?.map (anchored keep (if msg.tailIndex keep = some i then some cc else none)) := by
  have hmarked : (keep && (msg.mapBlocks (List.map (anchored keep none))).isMarked) = (keep && msg.isMarked) := by
    cases keep
    · rfl
    · simp [Message.isMarked, blocks_mapBlocks, anchored_true]
  rw [hmarked, Message.tailIndex]
  cases keep && msg.isMarked
  case true => simp [blocks_mapBlocks]
  case false =>
    simp only [Bool.false_eq_true, if_false]
    rw [blocks_mapBlocks rfl, getElem?_markLastCacheableBlock, blocks_mapBlocks rfl,
      List.getElem?_map, Option.map_map, lastIndex_dressed]
    congr 1
    funext block
    by_cases hi : lastIndex (fun block => !block.isThinking) msg.blocks = some i
    · simp [hi, anchored_mark]
    · simp [hi]

theorem blockAt_anchorMessages (keep : Bool) (cc : CacheControl) (msgs : List Message) (m i : ℕ) :
    (anchorMessages keep cc msgs)[m]?.bind (·.blocks[i]?) =
      (msgs[m]?.bind (·.blocks[i]?)).map (anchored keep (if tailBlock keep msgs = some (m, i) then some cc else none)) := by
  have hsearch : tailMessage keep (if keep then msgs else msgs.map (Message.mapBlocks (List.map Block.strip))) = tailMessage keep msgs := by
    cases keep
    · exact tailMessage_strip msgs
    · rfl
  have hother : ∀ msg : Message, (msg.mapBlocks (List.map (anchored keep none))).blocks[i]? = msg.blocks[i]?.map (anchored keep none) := by
    intro msg
    rw [blocks_mapBlocks rfl, List.getElem?_map]
  unfold anchorMessages
  dsimp only
  rw [hsearch]
  cases htail : tailMessage keep msgs with
  | none =>
    simp only [tailBlock, htail, Option.bind_none, getElem?_dressed, Option.bind_map]
    cases msgs[m]? with
    | none => rfl
    | some msg => exact hother msg
  | some k =>
    simp only [tailBlock, htail, Option.bind_some, List.getElem?_modify, getElem?_dressed]
    by_cases hk : k = m
    · subst hk
      cases msgs[k]? with
      | none => rfl
      | some msg =>
        have hpair : (msg.tailIndex keep).map (k, ·) = some (k, i) ↔ msg.tailIndex keep = some i := by
          cases msg.tailIndex keep <;> simp
        simp only [Option.map_eq_map, Option.map_some, Option.bind_some, if_true, hpair]
        exact getElem?_tail keep cc msg i
    · have hnot : (msgs[k]?.bind fun msg => (msg.tailIndex keep).map (k, ·)) ≠ some (m, i) := by
        intro h
        obtain ⟨msg, -, h⟩ := Option.bind_eq_some_iff.1 h
        obtain ⟨l, -, h⟩ := Option.map_eq_some_iff.1 h
        exact hk (Prod.mk.inj h).1
      rw [if_neg hnot]
      cases msgs[m]? with
      | none => rfl
      | some msg =>
        simp only [Option.map_eq_map, Option.map_some, Option.bind_some, if_neg hk]
        exact hother msg

theorem anchorClaudeCache_messages (upgradeTo1h : Bool) (body : Body) :
    (anchorClaudeCache upgradeTo1h body).messages.getD [] =
      let msgs := anchorMessages (clientCacheAnchors body) (if upgradeTo1h then .oneHour else .fiveMinutes) (body.messages.getD [])
      if upgradeTo1h then msgs.map (Message.mapBlocks (List.map (lift (clientCacheAnchors body)))) else msgs := by
  have hnil : ∀ keep cc, anchorMessages keep cc [] = [] := by
    intro keep cc
    cases keep <;> rfl
  unfold anchorClaudeCache
  cases upgradeTo1h <;> cases body.messages <;> simp [hnil]

theorem blockAt_anchorClaudeCache (upgradeTo1h : Bool) (body : Body) (m i : ℕ) :
    (anchorClaudeCache upgradeTo1h body).blockAt m i =
      (body.blockAt m i).map (settle (clientCacheAnchors body) upgradeTo1h (body.anchorAt upgradeTo1h (.content m i))) := by
  have hbefore := blockAt_anchorMessages (clientCacheAnchors body) (if upgradeTo1h then .oneHour else .fiveMinutes)
    (body.messages.getD []) m i
  have hlift : ∀ msg : Message, (msg.mapBlocks (List.map (lift (clientCacheAnchors body)))).blocks[i]? =
      msg.blocks[i]?.map (lift (clientCacheAnchors body)) := by
    intro msg
    rw [blocks_mapBlocks rfl, List.getElem?_map]
  rw [Body.blockAt, anchorClaudeCache_messages]
  cases upgradeTo1h
  · exact hbefore
  · simp only [if_true] at hbefore ⊢
    simp only [List.getElem?_map, Option.bind_map, Function.comp_def, hlift]
    refine Eq.trans Option.map_bind.symm ?_
    rw [hbefore, Option.map_map]
    rfl

theorem own_anchorClaudeCache (upgradeTo1h : Bool) (body : Body) (p : Place) :
    (anchorClaudeCache upgradeTo1h body).own p =
      (body.own p).map (settle (clientCacheAnchors body) upgradeTo1h (body.anchorAt upgradeTo1h p)) := by
  cases p with
  | tool i => exact toolAt_anchorClaudeCache upgradeTo1h body i
  | system i => exact systemAt_anchorClaudeCache upgradeTo1h body i
  | content m i => exact blockAt_anchorClaudeCache upgradeTo1h body m i
  | inner m i k => rfl

/-! ### One mark -/

theorem settle_some (keep : Bool) {upgradeTo1h : Bool} {cc : CacheControl}
    (h : upgradeTo1h → cc = .oneHour) (block : Block) :
    (settle keep upgradeTo1h (some cc) block).cacheControl = some cc := by
  unfold settle
  split_ifs with hup
  · obtain rfl := h hup
    simp [lift, anchored, Block.mark, CacheControl.oneHour]
  · rfl

theorem settle_dropped (upgradeTo1h : Bool) (block : Block) :
    (settle false upgradeTo1h none block).cacheControl = none := by
  unfold settle
  split_ifs
  · rfl
  · rfl

theorem settle_kept (upgradeTo1h : Bool) {block : Block} (h : block.keepable) :
    (settle true upgradeTo1h none block).cacheControl =
      block.cacheControl.map fun cc => if upgradeTo1h ∧ cc.ttl = none then .oneHour else cc := by
  unfold settle anchored lift
  unfold Block.keepable at h
  cases upgradeTo1h with
  | false => cases hcc : block.cacheControl <;> simp [hcc]
  | true =>
    cases hcc : block.cacheControl with
    | none => simp [hcc]
    | some cc =>
      simp only [hcc, CacheControl.valid, Bool.and_eq_true, decide_eq_true_eq] at h
      cases httl : cc.ttl with
      | none => simp [hcc, h.2.1, httl, Block.mark]
      | some ttl => simp [hcc, httl]

theorem keepable_of_kept {body : Body} (hkeep : clientCacheAnchors body) {p : Place} {block : Block}
    (hblock : body.own p = some block) :
    block.keepable := by
  have hmem : block ∈ body.visited := by
    cases p with
    | tool i =>
      exact List.mem_append_left _ (List.mem_append_right _ (List.mem_of_getElem? hblock))
    | system i =>
      exact List.mem_append_left _ (List.mem_append_left _ (List.mem_of_getElem? hblock))
    | content m i =>
      obtain ⟨msg, hmsg, hblock⟩ := Option.bind_eq_some_iff.1 hblock
      exact List.mem_append_right _ (List.mem_flatMap.2 ⟨msg, List.mem_of_getElem? hmsg,
        List.mem_of_getElem? hblock⟩)
    | inner m i k => simp [Body.own] at hblock
  simp only [clientCacheAnchors, Bool.and_eq_true, List.all_eq_true] at hkeep
  exact hkeep.1.1.1 block hmem

theorem lastIndex_getElem? {α : Type} {p : α → Bool} {as : List α} {i : ℕ}
    (h : lastIndex p as = some i) : ∃ a, as[i]? = some a := by
  obtain ⟨a, ha, -⟩ := lastIndex_some h
  exact ⟨a, ha⟩

theorem tail_spec {body : Body} {m i : ℕ} (h : body.tail = some (m, i)) :
    ∃ msg block, (body.messages.getD [])[m]? = some msg ∧ msg.blocks[i]? = some block ∧ (clientCacheAnchors body → ¬ msg.isMarked) := by
  obtain ⟨k, -, h⟩ := Option.bind_eq_some_iff.1 h
  obtain ⟨msg, hmsg, h⟩ := Option.bind_eq_some_iff.1 h
  obtain ⟨l, hl, hpair⟩ := Option.map_eq_some_iff.1 h
  obtain ⟨rfl, rfl⟩ := Prod.mk.inj hpair
  unfold Message.tailIndex at hl
  split_ifs at hl with hkept
  obtain ⟨block, hblock⟩ := lastIndex_getElem? hl
  refine ⟨msg, block, hmsg, hblock, ?_⟩
  intro hkeep hmarked
  exact hkept (by rw [hkeep, hmarked]; rfl)

/-- What is known of a place that the gateway marks: with the upgrade the mark is for an hour, the
block is there, and no mark of a plan that is kept is replaced. -/
theorem anchorAt_spec {upgradeTo1h : Bool} {body : Body} {p : Place} {cc : CacheControl}
    (h : body.anchorAt upgradeTo1h p = some cc) :
    (upgradeTo1h → cc = .oneHour) ∧ (∃ block, body.own p = some block) ∧ (clientCacheAnchors body → body.markAt p = none) := by
  cases p with
  | tool i =>
    simp only [Body.anchorAt] at h
    split_ifs at h with hlast
    refine ⟨fun _ => (Option.some.inj h).symm, lastIndex_getElem? hlast.1, fun hkeep => ?_⟩
    simpa [hkeep] using hlast.2
  | system i =>
    simp only [Body.anchorAt] at h
    split_ifs at h with hlast
    refine ⟨fun _ => (Option.some.inj h).symm, lastIndex_getElem? hlast.1, fun hkeep => ?_⟩
    simpa [hkeep] using hlast.2
  | content m i =>
    simp only [Body.anchorAt, Option.ite_none_right_eq_some] at h
    obtain ⟨msg, block, hmsg, hblock, hunmarked⟩ := tail_spec h.1
    have hown : body.own (.content m i) = some block := Option.bind_eq_some_iff.2 ⟨msg, hmsg, hblock⟩
    refine ⟨fun hup => ?_, ⟨block, hown⟩, fun hkeep => ?_⟩
    · rw [← Option.some.inj h.2, if_pos hup]
    · have hnone := hunmarked hkeep
      simp only [Message.isMarked, List.any_eq_true, not_exists, not_and] at hnone
      have hblock' := hnone block (List.mem_of_getElem? hblock)
      simpa [Body.markAt, hown, Block.isMarked] using hblock'
  | inner m i k => simp [Body.anchorAt] at h

theorem markAt_eq_own (body : Body) {p : Place}
    (h : ∀ m i k, p ≠ .inner m i k) : body.markAt p = (body.own p).bind Block.cacheControl := by
  cases p with
  | inner m i k => exact absurd rfl (h m i k)
  | _ => rfl

theorem markAt_of_anchorAt {upgradeTo1h : Bool} {body : Body} {p : Place} {cc : CacheControl}
    (h : body.anchorAt upgradeTo1h p = some cc) :
    (anchorClaudeCache upgradeTo1h body).markAt p = some cc := by
  have hown : ∀ m i k, p ≠ .inner m i k := by
    rintro m i k rfl
    simp [Body.anchorAt] at h
  obtain ⟨hhour, ⟨block, hblock⟩, -⟩ := anchorAt_spec h
  rw [markAt_eq_own _ hown, own_anchorClaudeCache, hblock, h]
  exact settle_some _ hhour block

theorem lifts_iff {upgradeTo1h : Bool} {body : Body} {p : Place} (h : ∀ m i k, p ≠ .inner m i k) :
    body.Lifts upgradeTo1h p ↔ upgradeTo1h ∧ clientCacheAnchors body ∧ ∃ cc, body.markAt p = some cc ∧ cc.ttl = none := by
  cases p with
  | inner m i k => exact absurd rfl (h m i k)
  | _ => rfl

theorem leaves_iff {upgradeTo1h : Bool} {body : Body} {p : Place} (h : ∀ m i k, p ≠ .inner m i k) :
    body.Leaves upgradeTo1h p ↔ clientCacheAnchors body ∧ ¬ body.Lifts upgradeTo1h p := by
  cases p with
  | inner m i k => exact absurd rfl (h m i k)
  | _ => rfl

theorem markAt_of_visited {upgradeTo1h : Bool} {body : Body} {p : Place} {cc : CacheControl}
    (hown : ∀ m i k, p ≠ .inner m i k) (h : body.anchorAt upgradeTo1h p = none) :
    (anchorClaudeCache upgradeTo1h body).markAt p = some cc ↔
      body.Leaves upgradeTo1h p ∧ body.markAt p = some cc ∨ body.Lifts upgradeTo1h p ∧ cc = .oneHour := by
  rw [leaves_iff hown, lifts_iff hown, markAt_eq_own _ hown, markAt_eq_own _ hown, own_anchorClaudeCache, h]
  cases hblock : body.own p with
  | none => simp
  | some block =>
    cases hkeep : clientCacheAnchors body with
    | false => simp [settle_dropped]
    | true =>
      simp only [Option.map_some, Option.bind_some, settle_kept upgradeTo1h (keepable_of_kept hkeep hblock)]
      cases block.cacheControl with
      | none => simp
      | some mark =>
        by_cases hlift : upgradeTo1h ∧ mark.ttl = none
        · simp [hlift, eq_comm]
        · rw [Option.map_some, if_neg hlift]
          constructor
          · intro hcc
            refine Or.inl ⟨⟨trivial, ?_⟩, hcc⟩
            rintro ⟨hup, -, mark', hmark, httl⟩
            exact hlift ⟨hup, Option.some.inj hmark ▸ httl⟩
          · rintro (⟨-, hcc⟩ | ⟨⟨hup, -, mark', hmark, httl⟩, -⟩)
            · exact hcc
            · exact absurd ⟨hup, Option.some.inj hmark ▸ httl⟩ hlift

theorem markAt_inner (upgradeTo1h : Bool) (body : Body) (m i k : ℕ) :
    (anchorClaudeCache upgradeTo1h body).markAt (.inner m i k) = body.markAt (.inner m i k) := by
  simp only [Body.markAt, blockAt_anchorClaudeCache, Option.bind_map, Function.comp_def, settle_inner]

theorem markAt_of_not_anchorAt {upgradeTo1h : Bool} {body : Body} {p : Place} {cc : CacheControl}
    (h : body.anchorAt upgradeTo1h p = none) :
    (anchorClaudeCache upgradeTo1h body).markAt p = some cc ↔
      body.Leaves upgradeTo1h p ∧ body.markAt p = some cc ∨ body.Lifts upgradeTo1h p ∧ cc = .oneHour := by
  cases p with
  | inner m i k => simp [markAt_inner, Body.Leaves, Body.Lifts]
  | tool i => exact markAt_of_visited (by simp) h
  | system i => exact markAt_of_visited (by simp) h
  | content m i => exact markAt_of_visited (by simp) h

theorem anchorAt_eq_none {upgradeTo1h : Bool} {body : Body} {p : Place} {cc : CacheControl}
    (h : body.Leaves upgradeTo1h p ∨ body.Lifts upgradeTo1h p) (hmark : body.markAt p = some cc) :
    body.anchorAt upgradeTo1h p = none := by
  by_cases hown : ∀ m i k, p ≠ .inner m i k
  · rw [leaves_iff hown, lifts_iff hown] at h
    have hkeep : clientCacheAnchors body := by
      rcases h with h | h
      · exact h.1
      · exact h.2.1
    cases hanchor : body.anchorAt upgradeTo1h p with
    | none => rfl
    | some control =>
      have := (anchorAt_spec hanchor).2.2 hkeep
      rw [hmark] at this
      simp at this
  · simp only [not_forall, not_not] at hown
    obtain ⟨m, i, k, rfl⟩ := hown
    rfl

theorem markAt_of_leaves {upgradeTo1h : Bool} {body : Body} {p : Place} {cc : CacheControl}
    (h : body.Leaves upgradeTo1h p)
    (hmark : body.markAt p = some cc) : (anchorClaudeCache upgradeTo1h body).markAt p = some cc :=
  (markAt_of_not_anchorAt (anchorAt_eq_none (Or.inl h) hmark)).2 (Or.inl ⟨h, hmark⟩)

theorem markAt_of_lifts {upgradeTo1h : Bool} {body : Body} {p : Place}
    (h : body.Lifts upgradeTo1h p) :
    (anchorClaudeCache upgradeTo1h body).markAt p = some .oneHour := by
  have hmark : ∃ cc, body.markAt p = some cc := by
    cases p with
    | inner m i k => exact h.elim
    | _ =>
      obtain ⟨-, -, cc, hcc, -⟩ := h
      exact ⟨cc, hcc⟩
  obtain ⟨cc, hcc⟩ := hmark
  exact (markAt_of_not_anchorAt (anchorAt_eq_none (Or.inr h) hcc)).2 (Or.inr ⟨h, rfl⟩)

/-- Without the upgrade only tools and system blocks are marked for an hour, and only
the tail is for five minutes. -/
theorem anchorAt_cases {upgradeTo1h : Bool} {body : Body} {p : Place} {cc : CacheControl}
    (h : body.anchorAt upgradeTo1h p = some cc) :
    (cc = .oneHour ∧ (upgradeTo1h ∨ ∀ m i, ¬ Before (.content m i) p)) ∨
      (cc = .fiveMinutes ∧ upgradeTo1h = false ∧ ∃ m i, p = .content m i ∧ body.tail = some (m, i)) := by
  cases p with
  | tool i =>
    simp only [Body.anchorAt, Option.ite_none_right_eq_some] at h
    exact Or.inl ⟨(Option.some.inj h.2).symm, Or.inr fun m j hbefore => hbefore⟩
  | system i =>
    simp only [Body.anchorAt, Option.ite_none_right_eq_some] at h
    exact Or.inl ⟨(Option.some.inj h.2).symm, Or.inr fun m j hbefore => hbefore⟩
  | content m i =>
    simp only [Body.anchorAt, Option.ite_none_right_eq_some] at h
    cases upgradeTo1h with
    | true => exact Or.inl ⟨(Option.some.inj h.2).symm, Or.inl rfl⟩
    | false => exact Or.inr ⟨(Option.some.inj h.2).symm, rfl, m, i, rfl, h.1⟩
  | inner m i k => simp [Body.anchorAt] at h

theorem isHour_oneHour : CacheControl.IsHour .oneHour := ⟨rfl, rfl⟩

theorem isShort_fiveMinutes : CacheControl.IsShort .fiveMinutes := ⟨rfl, Or.inl rfl⟩

theorem not_isShort_oneHour : ¬ CacheControl.IsShort .oneHour := by
  rintro ⟨-, h | h⟩ <;> simp [CacheControl.oneHour] at h

theorem not_isHour_fiveMinutes : ¬ CacheControl.IsHour .fiveMinutes := by
  rintro ⟨-, h⟩
  simp [CacheControl.fiveMinutes] at h

theorem not_upgraded_of_lifts {upgradeTo1h : Bool} {body : Body} {p : Place}
    (h : body.Lifts upgradeTo1h p) : upgradeTo1h = true := by
  cases p with
  | inner m i k => exact h.elim
  | _ => exact h.1

/-! ### The order -/

/-- No mark that is left at five minutes stands before one that the gateway sets or lifts to an
hour, and none that is left at an hour behind a tail that it marks for five minutes. -/
structure Body.KeepsOrder (upgradeTo1h : Bool) (body : Body) : Prop where
  hours : ∀ p q cc, Before p q → body.Leaves upgradeTo1h p → body.markAt p = some cc → cc.IsShort →
    body.anchorAt upgradeTo1h q ≠ some .oneHour ∧ ¬ body.Lifts upgradeTo1h q
  tail : upgradeTo1h = false → ∀ m i q cc, body.tail = some (m, i) → Before (.content m i) q → body.Leaves upgradeTo1h q →
    body.markAt q = some cc → ¬ cc.IsHour

/-- **Marks and their lifetimes.** Of a body whose own marks are in order, the marks are in order
afterwards exactly when it meets `KeepsOrder`. -/
theorem anchorClaudeCache_ordered_iff (upgradeTo1h : Bool) (body : Body) (hordered : body.Ordered) :
    (anchorClaudeCache upgradeTo1h body).Ordered ↔ body.KeepsOrder upgradeTo1h := by
  constructor
  · intro h
    refine ⟨fun p q cc hbefore hleaves hmark hshort => ⟨fun hanchor => ?_, fun hlifts => ?_⟩, ?_⟩
    · exact h p q cc .oneHour hbefore (markAt_of_leaves hleaves hmark) (markAt_of_anchorAt hanchor) hshort isHour_oneHour
    · exact h p q cc .oneHour hbefore (markAt_of_leaves hleaves hmark) (markAt_of_lifts hlifts) hshort isHour_oneHour
    · rintro rfl m i q cc htail hbefore hleaves hmark
      have hanchor : body.anchorAt false (.content m i) = some .fiveMinutes := by
        rw [Body.anchorAt, if_pos htail]
        rfl
      exact h _ q .fiveMinutes cc hbefore (markAt_of_anchorAt hanchor) (markAt_of_leaves hleaves hmark) isShort_fiveMinutes
  · intro h p q cc cc' hbefore hp hq hshort hhour
    cases hanchor : body.anchorAt upgradeTo1h p with
    | none =>
      -- a short mark that the gateway did not set is the client's
      rcases (markAt_of_not_anchorAt hanchor).1 hp with ⟨hleaves, hmark⟩ | ⟨-, rfl⟩
      · have hafter := h.hours p q cc hbefore hleaves hmark hshort
        cases hanchor' : body.anchorAt upgradeTo1h q with
        | none =>
          rcases (markAt_of_not_anchorAt hanchor').1 hq with ⟨-, hmark'⟩ | ⟨hlifts, -⟩
          · exact hordered p q cc cc' hbefore hmark hmark' hshort hhour
          · exact hafter.2 hlifts
        | some control =>
          obtain rfl := Option.some.inj ((markAt_of_anchorAt hanchor').symm.trans hq)
          rcases anchorAt_cases hanchor' with ⟨rfl, -⟩ | ⟨rfl, -⟩
          · exact hafter.1 hanchor'
          · exact not_isHour_fiveMinutes hhour
      · exact not_isShort_oneHour hshort
    | some control =>
      -- one that it did set is the tail's
      obtain rfl := Option.some.inj ((markAt_of_anchorAt hanchor).symm.trans hp)
      rcases anchorAt_cases hanchor with ⟨rfl, -⟩ | ⟨-, hup, m, i, rfl, htail⟩
      · exact not_isShort_oneHour hshort
      · cases hanchor' : body.anchorAt upgradeTo1h q with
        | none =>
          rcases (markAt_of_not_anchorAt hanchor').1 hq with ⟨hleaves, hmark'⟩ | ⟨hlifts, -⟩
          · exact h.tail hup m i q cc' htail hbefore hleaves hmark' hhour
          · exact absurd (not_upgraded_of_lifts hlifts) (by simp [hup])
        | some control' =>
          obtain rfl := Option.some.inj ((markAt_of_anchorAt hanchor').symm.trans hq)
          rcases anchorAt_cases hanchor' with ⟨-, hup' | hnot⟩ | ⟨rfl, -⟩
          · simp [hup] at hup'
          · exact hnot m i hbefore
          · exact not_isHour_fiveMinutes hhour

def twoTools (cc : CacheControl) : Body := { tools := some [{ cacheControl := some cc }, {}] }

theorem marked_twoTools {cc mark : CacheControl} {p : Place}
    (h : (twoTools cc).markAt p = some mark) : p = .tool 0 ∧ mark = cc := by
  cases p with
  | tool i =>
    match i with
    | 0 => exact ⟨rfl, (Option.some.inj h).symm⟩
    | 1 => simp [Body.markAt, Body.own, Body.toolAt, twoTools] at h
    | i + 2 => simp [Body.markAt, Body.own, Body.toolAt, twoTools] at h
  | _ => simp [Body.markAt, Body.own, Body.systemAt, Body.blockAt, twoTools] at h

theorem ordered_twoTools (cc : CacheControl) : (twoTools cc).Ordered := by
  intro p q mark mark' hbefore hp hq
  obtain ⟨rfl, -⟩ := marked_twoTools hp
  obtain ⟨rfl, -⟩ := marked_twoTools hq
  exact absurd hbefore (Nat.lt_irrefl 0)

theorem anchorClaudeCache_ordered_twoTools :
    (anchorClaudeCache false (twoTools .oneHour)).Ordered := by
  refine (anchorClaudeCache_ordered_iff false (twoTools .oneHour) (ordered_twoTools .oneHour)).2 ⟨?_, ?_⟩
  · intro p q mark _ _ hmark hshort
    obtain ⟨-, rfl⟩ := marked_twoTools hmark
    exact absurd hshort not_isShort_oneHour
  · intro _ m i q mark htail
    have hnone : (twoTools .oneHour).tail = none := by decide +kernel
    simp [hnone] at htail

/-- The last tool is marked for an hour behind one that the client marked for five minutes. -/
theorem twoTools_inverted : ¬ ∀ body : Body, body.Ordered → (anchorClaudeCache false body).Ordered := by
  intro h
  exact h (twoTools .fiveMinutes) (ordered_twoTools .fiveMinutes) (.tool 0) (.tool 1) .fiveMinutes .oneHour Nat.zero_lt_one
    (by decide +kernel) (by decide +kernel) isShort_fiveMinutes isHour_oneHour

end TokenProxy.Claude
