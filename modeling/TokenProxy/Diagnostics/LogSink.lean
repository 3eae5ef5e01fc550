import Mathlib.Algebra.Ring.Nat
import TokenProxy.Lib.Run

/-!
# The bounded sink of diagnostics

`boundedLogSink.js`: records are written one after the other, by a drain that is started with the
first of them and ends with an empty queue. The sink holds at most `maxRecords` records and
`maxBytes` bytes, the record being written among them; what does not fit is dropped, or makes room
for itself among the records that are not protected.

* Every await of the source is the end of a step: the drain waits to be scheduled, and then for each
  write.
* `offered`, `taken` and `handed` record the calls of `enqueue`, the records that it took and those
  that were handed to `write`; no operation reads them.

`sink_accounts` is what holds of the counters and the bounds in every reachable state,
`handed_in_order` that records are written in their order, and that no protected record is lost to
others.
-/

namespace TokenProxy.Diagnostics

open Lib

structure Settings where
  maxRecords : ℕ
  maxBytes : ℕ

structure Item (α : Type) where
  value : α
  bytes : ℕ
  protect : Bool

structure Stats where
  accepted : ℕ := 0
  written : ℕ := 0
  dropped : ℕ := 0
  failed : ℕ := 0
  bytes : ℕ := 0
  records : ℕ := 0
  peakBytes : ℕ := 0
  peakRecords : ℕ := 0
  deriving DecidableEq

/-- Where the drain stands; `running` is that it is not idle. -/
inductive Drain (α : Type) where
  | idle
  | scheduled
  | writing (item : Item α)

structure Sink (α : Type) where
  queue : List (Item α) := []
  stats : Stats := {}
  drain : Drain α := .idle
  closed : Bool := false
  offered : ℕ := 0
  taken : List (Item α) := []
  handed : List (Item α) := []

variable {α : Type}

def Stats.drop (stats : Stats) (item : Item α) : Stats :=
  { stats with records := stats.records - 1, bytes := stats.bytes - item.bytes, dropped := stats.dropped + 1 }

/-- `stats.records >= maxRecords || bytes > maxBytes - stats.bytes` -/
def Settings.full (settings : Settings) (stats : Stats) (bytes : ℕ) : Bool :=
  settings.maxRecords ≤ stats.records ∨ settings.maxBytes < stats.bytes + bytes

/-- The last record that is not protected, and the queue without it:
`findLastIndex` and `splice`. -/
def spliceLast : List (Item α) → Option (Item α × List (Item α))
  | [] => none
  | item :: queue =>
    match spliceLast queue with
    | some (discarded, rest) => some (discarded, item :: rest)
    | none => if item.protect then none else some (item, queue)

/-- The loop that makes room; each of its turns takes a record out of the queue. -/
def evict (settings : Settings) (bytes : ℕ) : ℕ → Sink α → Sink α
  | 0, s => s
  | turns + 1, s =>
    if settings.full s.stats bytes then
      match spliceLast s.queue with
      | none => s
      | some (discarded, queue) => evict settings bytes turns { s with queue, stats := s.stats.drop discarded }
    else s

/-- The record is put at the end of the queue, and the drain is started. -/
def Sink.push (s : Sink α) (item : Item α) : Sink α where
  queue := s.queue ++ [item]
  stats :=
    { s.stats with
      records := s.stats.records + 1
      bytes := s.stats.bytes + item.bytes
      accepted := s.stats.accepted + 1
      peakBytes := max s.stats.peakBytes (s.stats.bytes + item.bytes)
      peakRecords := max s.stats.peakRecords (s.stats.records + 1) }
  drain :=
    match s.drain with
    | .idle => .scheduled
    | drain => drain
  closed := s.closed
  offered := s.offered + 1
  taken := s.taken ++ [item]
  handed := s.handed

def Sink.refuse (s : Sink α) : Sink α := { s with stats := { s.stats with dropped := s.stats.dropped + 1 }, offered := s.offered + 1 }

/-- A size is nothing where it is not a safe integer, or negative. -/
def enqueue (settings : Settings) (s : Sink α) (value : α) (size : Option ℕ)
    (evictPending protect : Bool) : Sink α :=
  match size with
  | none => s.refuse
  | some bytes =>
    let s := if evictPending ∧ !s.closed ∧ bytes ≤ settings.maxBytes then evict settings bytes s.queue.length s else s
    if s.closed ∨ settings.full s.stats bytes then s.refuse else s.push { value, bytes, protect }

def Sink.next (s : Sink α) : Sink α :=
  match s.queue with
  | [] => { s with drain := .idle }
  | item :: queue => { s with queue, drain := .writing item, handed := s.handed ++ [item] }

/-- `write` resolves, to `false` where it dropped the record itself, or throws. -/
inductive WriteResult where
  | written
  | dropped
  | failed

def WriteResult.count (stats : Stats) : WriteResult → Stats
  | .written => { stats with written := stats.written + 1 }
  | .dropped => { stats with dropped := stats.dropped + 1 }
  | .failed => { stats with failed := stats.failed + 1 }

def Stats.finish (stats : Stats) (item : Item α) (result : WriteResult) : Stats :=
  { result.count stats with records := stats.records - 1, bytes := stats.bytes - item.bytes }

def Sink.discard (s : Sink α) : Sink α := { s with queue := [], stats := s.queue.foldl Stats.drop s.stats }

inductive SinkOp (α : Type) where
  | enqueue (value : α) (size : Option ℕ) (evictPending protect : Bool)
  /-- The scheduled drain starts. -/
  | start
  /-- The write that is awaited ends. -/
  | settle (result : WriteResult)
  | discard
  | close (discardPending : Bool)
  /-- The flush of `close` ends, and what it left is discarded. -/
  | closeEnds

def sinkStep (settings : Settings) (s : Sink α) : SinkOp α → Sink α
  | .enqueue value size evictPending protect => enqueue settings s value size evictPending protect
  | .start =>
    match s.drain with
    | .scheduled => s.next
    | _ => s
  | .settle result =>
    match s.drain with
    | .writing item => Sink.next { s with stats := s.stats.finish item result }
    | _ => s
  | .discard => s.discard
  | .close discardPending =>
    if s.closed then s
    else if discardPending then Sink.discard { s with closed := true }
    else { s with closed := true }
  | .closeEnds => if s.closed then s.discard else s

/-! ### What the sink holds -/

def Drain.items : Drain α → List (Item α)
  | .writing item => [item]
  | _ => []

/-- The records in the sink: the one being written, and the queue. -/
def Sink.held (s : Sink α) : List (Item α) := s.drain.items ++ s.queue

def sizes (items : List (Item α)) : ℕ := (items.map Item.bytes).sum

@[simp] theorem sizes_nil : sizes ([] : List (Item α)) = 0 := rfl

@[simp] theorem sizes_cons (item : Item α) (items : List (Item α)) : sizes (item :: items) = item.bytes + sizes items := rfl

@[simp] theorem sizes_append (xs ys : List (Item α)) : sizes (xs ++ ys) = sizes xs + sizes ys := by
  simp [sizes]

/-- The counters are those of what is held, within the bounds, and every record that
was offered is in one of them. -/
structure Accounted (settings : Settings) (s : Sink α) : Prop where
  records : s.stats.records = s.held.length
  bytes : s.stats.bytes = sizes s.held
  recordsBound : s.stats.records ≤ s.stats.peakRecords ∧ s.stats.peakRecords ≤ settings.maxRecords
  bytesBound : s.stats.bytes ≤ s.stats.peakBytes ∧ s.stats.peakBytes ≤ settings.maxBytes
  offered : s.offered = s.stats.written + s.stats.failed + s.stats.dropped + s.stats.records
  /-- No record waits for a drain that nothing will start. -/
  running : s.queue ≠ [] → s.drain ≠ .idle

theorem spliceLast_some {queue rest : List (Item α)} {discarded : Item α}
    (h : spliceLast queue = some (discarded, rest)) :
    ∃ before after, queue = before ++ discarded :: after ∧ rest = before ++ after ∧ discarded.protect = false := by
  induction queue generalizing rest discarded with
  | nil => exact absurd h (by simp [spliceLast])
  | cons item queue ih =>
    rw [spliceLast] at h
    split at h
    · rename_i d r hsplice
      obtain ⟨before, after, hqueue, hrest, hprotect⟩ := ih hsplice
      rw [Option.some.injEq, Prod.mk.injEq] at h
      obtain ⟨rfl, rfl⟩ := h
      exact ⟨item :: before, after, by rw [hqueue]; rfl, by rw [hrest]; rfl, hprotect⟩
    · split at h
      · exact absurd h (by simp)
      · rename_i hprotect
        rw [Option.some.injEq, Prod.mk.injEq] at h
        obtain ⟨rfl, rfl⟩ := h
        exact ⟨[], queue, rfl, rfl, by simpa using hprotect⟩

theorem foldl_drop (items : List (Item α)) : ∀ stats : Stats,
    items.foldl Stats.drop stats =
      { stats with
        records := stats.records - items.length
        bytes := stats.bytes - sizes items
        dropped := stats.dropped + items.length } := by
  induction items with
  | nil => exact fun _ => rfl
  | cons item items ih =>
    intro stats
    rw [List.foldl_cons, ih, Stats.drop, List.length_cons, sizes_cons, Nat.sub_sub, Nat.sub_sub, Nat.add_assoc, Nat.add_comm 1]

theorem evict_spec (settings : Settings) (bytes turns : ℕ) (s : Sink α) :
    ∃ kept lost, evict settings bytes turns s = { s with queue := kept, stats := lost.foldl Stats.drop s.stats } ∧
      (kept ++ lost).Perm s.queue ∧ kept.Sublist s.queue ∧ kept.filter Item.protect = s.queue.filter Item.protect := by
  induction turns generalizing s with
  | zero => exact ⟨s.queue, [], rfl, by simp, List.Sublist.refl _, rfl⟩
  | succ turns ih =>
    rw [evict]
    split
    · split
      · exact ⟨s.queue, [], rfl, by simp, List.Sublist.refl _, rfl⟩
      · rename_i discarded queue hsplice
        obtain ⟨before, after, hqueue, rfl, hprotect⟩ := spliceLast_some hsplice
        obtain ⟨kept, lost, he, hperm, hsub, hfilter⟩ := ih { s with queue := before ++ after, stats := s.stats.drop discarded }
        refine ⟨kept, discarded :: lost, he, ?_, ?_, ?_⟩
        · calc (kept ++ discarded :: lost).Perm (discarded :: (kept ++ lost)) := List.perm_middle
            _ |>.Perm (discarded :: (before ++ after)) := hperm.cons discarded
            _ |>.Perm s.queue := hqueue ▸ List.perm_middle.symm
        · rw [hqueue]
          exact hsub.trans (List.Sublist.append_left (List.sublist_cons_self _ _) before)
        · rw [hfilter, hqueue]
          simp [hprotect]
    · exact ⟨s.queue, [], rfl, by simp, List.Sublist.refl _, rfl⟩

/-- What a call of `enqueue` does: it may make room, and then it refuses the record or takes it. -/
theorem enqueue_cases (settings : Settings) (s : Sink α) (value : α) (size : Option ℕ)
    (evictPending protect : Bool) :
    ∃ room : Sink α, (room = s ∨ ∃ bytes turns, room = evict settings bytes turns s) ∧
      (enqueue settings s value size evictPending protect = room.refuse ∨
        ∃ item, settings.full room.stats item.bytes = false ∧ enqueue settings s value size evictPending protect = room.push item) := by
  unfold enqueue
  cases size with
  | none => exact ⟨s, Or.inl rfl, Or.inl rfl⟩
  | some bytes =>
    simp only
    generalize hroom : (if evictPending ∧ !s.closed ∧ bytes ≤ settings.maxBytes then evict settings bytes s.queue.length s else s) = room
    refine ⟨room, ?_, ?_⟩
    · split at hroom
      · exact Or.inr ⟨bytes, s.queue.length, hroom.symm⟩
      · exact Or.inl hroom.symm
    · split
      · exact Or.inl rfl
      · rename_i hfull
        exact Or.inr ⟨_, by simpa using fun he => hfull (Or.inr he), rfl⟩

variable {settings : Settings}

theorem Accounted.lose {s : Sink α} {kept lost : List (Item α)} (h : Accounted settings s)
    (hperm : (kept ++ lost).Perm s.queue) :
    Accounted settings { s with queue := kept, stats := lost.foldl Stats.drop s.stats } := by
  have hlength : kept.length + lost.length = s.queue.length := by rw [← List.length_append, hperm.length_eq]
  have hsizes : sizes kept + sizes lost = sizes s.queue := by
    rw [← sizes_append]
    exact (hperm.map Item.bytes).sum_nat
  have hrecords := h.records
  have hbytes := h.bytes
  have hrecordsBound := h.recordsBound
  have hbytesBound := h.bytesBound
  have hoffered := h.offered
  rw [Sink.held, List.length_append] at hrecords
  rw [Sink.held, sizes_append] at hbytes
  rw [foldl_drop]
  constructor
  case records =>
    rw [Sink.held, List.length_append]
    simp only
    omega
  case bytes =>
    rw [Sink.held, sizes_append]
    simp only
    omega
  case recordsBound =>
    simp only
    omega
  case bytesBound =>
    simp only
    omega
  case offered =>
    simp only
    omega
  case running =>
    intro hkept
    apply h.running
    intro hqueue
    rw [hqueue, List.perm_nil, List.append_eq_nil_iff] at hperm
    exact hkept hperm.1

theorem Accounted.evict {s : Sink α} (h : Accounted settings s) (bytes turns : ℕ) :
    Accounted settings (evict settings bytes turns s) := by
  obtain ⟨kept, lost, he, hperm, -⟩ := evict_spec settings bytes turns s
  rw [he]
  exact h.lose hperm

theorem Accounted.refuse {s : Sink α} (h : Accounted settings s) : Accounted settings s.refuse where
  records := h.records
  bytes := h.bytes
  recordsBound := h.recordsBound
  bytesBound := h.bytesBound
  offered := by
    have := h.offered
    simp only [Sink.refuse]
    omega
  running := h.running

theorem Accounted.push {s : Sink α} {item : Item α} (h : Accounted settings s)
    (hfull : settings.full s.stats item.bytes = false) :
    Accounted settings (s.push item) := by
  have hrecords := h.records
  have hbytes := h.bytes
  have hrecordsBound := h.recordsBound
  have hbytesBound := h.bytesBound
  have hoffered := h.offered
  simp only [Settings.full, decide_eq_false_iff_not, not_or, Nat.not_le, Nat.not_lt] at hfull
  have hdrain : (s.push item).drain.items = s.drain.items := by
    unfold Sink.push
    cases s.drain <;> rfl
  constructor
  case records =>
    rw [Sink.held, hdrain]
    simp only [Sink.push, ← List.append_assoc, List.length_append, List.length_singleton]
    rw [hrecords, Sink.held, List.length_append]
  case bytes =>
    rw [Sink.held, hdrain]
    simp only [Sink.push, ← List.append_assoc, sizes_append, sizes_cons, sizes_nil, Nat.add_zero]
    rw [hbytes, Sink.held, sizes_append]
  case recordsBound =>
    simp only [Sink.push]
    omega
  case bytesBound =>
    simp only [Sink.push]
    omega
  case offered =>
    simp only [Sink.push]
    omega
  case running =>
    intro _
    unfold Sink.push
    cases s.drain <;> simp

theorem Accounted.enqueue {s : Sink α} (h : Accounted settings s) (value : α) (size : Option ℕ)
    (evictPending protect : Bool) :
    Accounted settings (enqueue settings s value size evictPending protect) := by
  obtain ⟨room, hroom, henqueue⟩ := enqueue_cases settings s value size evictPending protect
  have hroom : Accounted settings room := by
    rcases hroom with rfl | ⟨bytes, turns, rfl⟩
    · exact h
    · exact h.evict bytes turns
  rcases henqueue with he | ⟨item, hfull, he⟩
  · rw [he]
    exact hroom.refuse
  · rw [he]
    exact hroom.push hfull

theorem Accounted.next {s : Sink α} (hrecords : s.stats.records = s.queue.length)
    (hbytes : s.stats.bytes = sizes s.queue)
    (hrecordsBound : s.stats.records ≤ s.stats.peakRecords ∧ s.stats.peakRecords ≤ settings.maxRecords)
    (hbytesBound : s.stats.bytes ≤ s.stats.peakBytes ∧ s.stats.peakBytes ≤ settings.maxBytes)
    (hoffered : s.offered = s.stats.written + s.stats.failed + s.stats.dropped + s.stats.records) :
    Accounted settings s.next := by
  unfold Sink.next
  split
  · rename_i hqueue
    exact ⟨by simp [Sink.held, Drain.items, hrecords, hqueue], by simp [Sink.held, Drain.items, hbytes, hqueue], hrecordsBound, hbytesBound,
      hoffered, fun hne => absurd hqueue hne⟩
  · rename_i item queue hqueue
    exact ⟨by simp [Sink.held, Drain.items, hrecords, hqueue, Nat.add_comm], by simp [Sink.held, Drain.items, hbytes, hqueue], hrecordsBound,
      hbytesBound, hoffered, fun _ => by simp⟩

theorem Accounted.discard {s : Sink α} (h : Accounted settings s) : Accounted settings s.discard := h.lose (by simp)

theorem Accounted.settle {s : Sink α} {item : Item α} (h : Accounted settings s)
    (hwriting : s.drain = .writing item) (result : WriteResult) :
    Accounted settings (Sink.next { s with stats := s.stats.finish item result }) := by
  have hrecords := h.records
  have hbytes := h.bytes
  have hrecordsBound := h.recordsBound
  have hbytesBound := h.bytesBound
  have hoffered := h.offered
  simp only [Sink.held, hwriting, Drain.items, List.singleton_append, List.length_cons, sizes_cons] at hrecords hbytes
  apply Accounted.next
  all_goals cases result <;> simp only [Stats.finish, WriteResult.count] <;> omega

theorem Accounted.step {s : Sink α} (h : Accounted settings s)
    (op : SinkOp α) : Accounted settings (sinkStep settings s op) := by
  cases op with
  | enqueue value size evictPending protect => exact h.enqueue value size evictPending protect
  | start =>
    rw [sinkStep]
    split
    · rename_i hscheduled
      refine Accounted.next ?_ ?_ h.recordsBound h.bytesBound h.offered
      · rw [h.records, Sink.held, hscheduled]
        rfl
      · rw [h.bytes, Sink.held, hscheduled]
        rfl
    · exact h
  | settle result =>
    rw [sinkStep]
    split
    · rename_i item hwriting
      exact h.settle hwriting result
    · exact h
  | discard => exact h.discard
  | close discardPending =>
    rw [sinkStep]
    have hclosed : Accounted settings { s with closed := true } := ⟨h.records, h.bytes, h.recordsBound, h.bytesBound, h.offered, h.running⟩
    split
    · exact h
    · split
      · exact hclosed.discard
      · exact hclosed
  | closeEnds =>
    rw [sinkStep]
    split
    · exact h.discard
    · exact h

/-! ### What the sink does with the records -/

/-- The records are handed to `write` in the order they were taken in. -/
def InOrder (s : Sink α) : Prop := (s.handed ++ s.queue).Sublist s.taken

/-- Every protected record that was taken in was handed to `write`, or waits. -/
def Sheltered (s : Sink α) : Prop := (s.handed ++ s.queue).filter Item.protect = s.taken.filter Item.protect

theorem InOrder.evict {s : Sink α} (h : InOrder s)
    (bytes turns : ℕ) : InOrder (evict settings bytes turns s) := by
  obtain ⟨kept, lost, he, -, hsub, -⟩ := evict_spec settings bytes turns s
  rw [he]
  exact (hsub.append_left s.handed).trans h

theorem Sheltered.evict {s : Sink α} (h : Sheltered s)
    (bytes turns : ℕ) : Sheltered (evict settings bytes turns s) := by
  obtain ⟨kept, lost, he, -, -, hfilter⟩ := evict_spec settings bytes turns s
  rw [he]
  unfold Sheltered at h ⊢
  rw [List.filter_append] at h ⊢
  rw [hfilter]
  exact h

theorem InOrder.push {s : Sink α} (h : InOrder s) (item : Item α) : InOrder (s.push item) := by
  unfold InOrder Sink.push
  rw [← List.append_assoc]
  exact h.append_right [item]

theorem Sheltered.push {s : Sink α} (h : Sheltered s)
    (item : Item α) : Sheltered (s.push item) := by
  unfold Sheltered Sink.push at *
  rw [← List.append_assoc, List.filter_append, h, List.filter_append]

theorem handed_next (s : Sink α) :
    s.next.handed ++ s.next.queue = s.handed ++ s.queue ∧ s.next.taken = s.taken := by
  unfold Sink.next
  split
  · exact ⟨rfl, rfl⟩
  · rename_i item queue hqueue
    exact ⟨by simp [hqueue], rfl⟩

theorem InOrder.next {s : Sink α} (h : InOrder s) : InOrder s.next := by
  obtain ⟨hsame, htaken⟩ := handed_next s
  unfold InOrder
  rw [hsame, htaken]
  exact h

theorem Sheltered.next {s : Sink α} (h : Sheltered s) : Sheltered s.next := by
  obtain ⟨hsame, htaken⟩ := handed_next s
  unfold Sheltered
  rw [hsame, htaken]
  exact h

theorem InOrder.discard {s : Sink α} (h : InOrder s) : InOrder s.discard := by
  unfold InOrder Sink.discard
  exact (List.Sublist.append_left (List.nil_sublist s.queue) s.handed).trans h

theorem InOrder.step {s : Sink α} (h : InOrder s)
    (op : SinkOp α) : InOrder (sinkStep settings s op) := by
  cases op with
  | enqueue value size evictPending protect =>
    obtain ⟨room, hroom, henqueue⟩ := enqueue_cases settings s value size evictPending protect
    have hroom : InOrder room := by
      rcases hroom with rfl | ⟨bytes, turns, rfl⟩
      · exact h
      · exact h.evict bytes turns
    rw [sinkStep]
    rcases henqueue with he | ⟨item, -, he⟩
    · rw [he]
      exact hroom
    · rw [he]
      exact hroom.push item
  | start =>
    rw [sinkStep]
    split
    · exact h.next
    · exact h
  | settle result =>
    rw [sinkStep]
    split
    · exact InOrder.next h
    · exact h
  | discard => exact h.discard
  | close discardPending =>
    rw [sinkStep]
    split
    · exact h
    · split
      · exact InOrder.discard h
      · exact h
  | closeEnds =>
    rw [sinkStep]
    split
    · exact h.discard
    · exact h

def SinkOp.discards : SinkOp α → Bool
  | .discard => true
  | .close discardPending => discardPending
  | .closeEnds => true
  | _ => false

theorem Sheltered.step {s : Sink α} (h : Sheltered s) {op : SinkOp α}
    (hop : op.discards = false) : Sheltered (sinkStep settings s op) := by
  cases op with
  | enqueue value size evictPending protect =>
    obtain ⟨room, hroom, henqueue⟩ := enqueue_cases settings s value size evictPending protect
    have hroom : Sheltered room := by
      rcases hroom with rfl | ⟨bytes, turns, rfl⟩
      · exact h
      · exact h.evict bytes turns
    rw [sinkStep]
    rcases henqueue with he | ⟨item, -, he⟩
    · rw [he]
      exact hroom
    · rw [he]
      exact hroom.push item
  | start =>
    rw [sinkStep]
    split
    · exact h.next
    · exact h
  | settle result =>
    rw [sinkStep]
    split
    · exact Sheltered.next h
    · exact h
  | discard => exact absurd hop (by simp [SinkOp.discards])
  | close discardPending =>
    rw [sinkStep]
    have hkeep : discardPending = false := hop
    subst hkeep
    split
    · exact h
    · exact h
  | closeEnds => exact absurd hop (by simp [SinkOp.discards])

/-! ### What a run of the sink guarantees -/

def SinkOp.offers : SinkOp α → Bool
  | .enqueue _ _ _ _ => true
  | _ => false

theorem offered_evict (settings : Settings) (bytes turns : ℕ)
    (s : Sink α) : (evict settings bytes turns s).offered = s.offered := by
  obtain ⟨kept, lost, he, -⟩ := evict_spec settings bytes turns s
  rw [he]

theorem offered_next (s : Sink α) : s.next.offered = s.offered := by
  unfold Sink.next
  split <;> rfl

theorem offered_step (s : Sink α) (op : SinkOp α) :
    (sinkStep settings s op).offered = s.offered + if op.offers then 1 else 0 := by
  cases op with
  | enqueue value size evictPending protect =>
    obtain ⟨room, hroom, henqueue⟩ := enqueue_cases settings s value size evictPending protect
    have hroom : room.offered = s.offered := by
      rcases hroom with rfl | ⟨bytes, turns, rfl⟩
      · rfl
      · exact offered_evict settings bytes turns s
    rw [sinkStep, ← hroom]
    rcases henqueue with he | ⟨item, -, he⟩
    · rw [he]
      rfl
    · rw [he]
      rfl
  | start =>
    rw [sinkStep]
    split
    · exact offered_next s
    · rfl
  | settle result =>
    rw [sinkStep]
    split
    · exact offered_next _
    · rfl
  | discard => rfl
  | close discardPending =>
    rw [sinkStep]
    split
    · rfl
    · split <;> rfl
  | closeEnds =>
    rw [sinkStep]
    split <;> rfl

theorem offered_run (s : Sink α) (ops : List (SinkOp α)) :
    (run (sinkStep settings) s ops).offered = s.offered + ops.countP SinkOp.offers := by
  induction ops generalizing s with
  | nil => rfl
  | cons op ops ih =>
    rw [run_cons, ih, offered_step, List.countP_cons]
    omega

/-- In every reachable state the counters are those of the records in the sink, within its bounds;
each record that was ever offered was written, failed, was dropped or is in the sink, and only one
of these; and where records wait, a drain is on its way. -/
theorem sink_accounts (settings : Settings) (ops : List (SinkOp α)) :
    Accounted settings (run (sinkStep settings) {} ops) ∧ (run (sinkStep settings) ({} : Sink α) ops).offered = ops.countP SinkOp.offers := by
  constructor
  · apply run_inv (fun s op (h : Accounted settings s) => h.step op)
    exact ⟨rfl, rfl, ⟨Nat.le_refl _, Nat.zero_le _⟩, ⟨Nat.le_refl _, Nat.zero_le _⟩, rfl, fun h => absurd rfl h⟩
  · rw [offered_run]
    exact Nat.zero_add _

/-- In every run records reach `write` in the order in which they were taken in; and as long as
nothing is discarded, no protected record is lost to make room for others. -/
theorem handed_in_order (settings : Settings) (ops : List (SinkOp α)) :
    InOrder (run (sinkStep settings) {} ops) ∧
      ((∀ op ∈ ops, op.discards = false) → Sheltered (run (sinkStep settings) {} ops)) := by
  constructor
  · apply run_inv (fun s op (h : InOrder s) => h.step op)
    exact List.Sublist.refl []
  · have hkept : ∀ s : Sink α, Sheltered s → (∀ op ∈ ops, op.discards = false) → Sheltered (run (sinkStep settings) s ops) := by
      induction ops with
      | nil => exact fun _ h _ => h
      | cons op ops ih =>
        intro s h hops
        exact ih _ (h.step (hops op (by simp))) fun op' hop' => hops op' (by simp [hop'])
    exact hkept {} rfl

/-- A protected record and another, and a third that takes the other's place. -/
def sheltered : List (SinkOp String) :=
  [.enqueue "first" (some 1) false true, .enqueue "second" (some 1) false false, .enqueue "third" (some 1) true false]

theorem handed_in_order_sheltered : Sheltered (run (sinkStep ⟨2, 10⟩) {} sheltered) :=
  (handed_in_order ⟨2, 10⟩ sheltered).2 (by simp [sheltered, SinkOp.discards])

end TokenProxy.Diagnostics
