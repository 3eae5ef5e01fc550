import TokenProxy.FrontOutcome.Applying
import TokenProxy.Lib.Run

/-!
# One ingest

What an ingest reads, given that the checkpoints say what was read before (`Checkpointed`), and what
it leaves: the new lines of every segment are read, the checkpoints say so, and nothing else of the
journal has changed. So in every schedule each complete line is read at most once, and in the order
of its segment (`consistent_run`).
-/

namespace TokenProxy.FrontOutcome

open TokenProxy.Lib

variable {rt : Runtime} {names : List String}

/-! ### The segments an ingest sees -/

def JournalState.seenFile (st : JournalState) (seen : String → Nat) (n : String) : SegmentFile :=
  { st.files n with content := (st.files n).content.take (seen n) }

def JournalState.newLines (st : JournalState) (seen : String → Nat) (n : String) : List Bytes :=
  FrontOutcome.newLines (st.seenFile seen n) (st.consumed n)

def OutcomeDb.checkpoint (db : OutcomeDb) (n : String) : Option Checkpoint := (db.checkpoints.get? n).map Prod.snd

/-- The data of a segment, `read` of which was read before. -/
def readData (rt : Runtime) (n : String) (file : SegmentFile)
    (read : List Bytes) : SegmentData where
  name := n
  file := file
  lines := newLines file read
  events := eventsOf rt n (newLines file read)
  nextOffset := (unlines (read ++ newLines file read)).length
  prefixSha256 := rt.checksum (unlines (read ++ newLines file read))
  pendingBytes := (splitLines (file.content.drop (unlines read).length)).2.length

theorem readSegment_readData {n : String} {checkpoint : Option Checkpoint} {file : SegmentFile}
    {read : List Bytes}
    (h : Checkpointed rt n checkpoint file read) (hsize : ¬ maxSegmentBytes < file.content.length)
    (hvalid : ValidLines rt n (newLines file read)) :
    readSegment rt n checkpoint file = .ok (readData rt n file read) := by
  rw [readSegment_eq h hsize, mapM_readLine_of_valid hvalid]
  rfl

theorem Checkpointed.seen {n : String} {checkpoint : Option Checkpoint} {file : SegmentFile}
    {read : List Bytes} (h : Checkpointed rt n checkpoint file read) {k : Nat} {data : SegmentData}
    (hread : readSegment rt n checkpoint { file with content := file.content.take k } = .ok data) :
    Checkpointed rt n checkpoint { file with content := file.content.take k } read := by
  refine ⟨h.lines, h.valid, ?_, h.missing, h.checkpoint⟩
  apply List.prefix_of_prefix_length_le h.text (List.take_prefix _ _)
  by_contra hshort
  have hoffset := h.offset
  unfold readSegment at hread
  simp only at hread
  split at hread
  · cases hread
  rw [hoffset, if_pos (not_le.mp hshort)] at hread
  cases hread

theorem mapM_except_ok {ε α β : Type} {f : α → Except ε β} {l : List α} {ys : List β}
    (h : l.mapM f = .ok ys) {x : α} (hx : x ∈ l) : ∃ y, f x = .ok y := by
  induction l generalizing ys with
  | nil => cases hx
  | cons a l ih =>
    rw [List.mapM_cons] at h
    obtain ⟨y, hy, h⟩ := bind_ok h
    obtain ⟨ys', hys, -⟩ := bind_ok h
    rcases List.mem_cons.mp hx with rfl | hx
    · exact ⟨y, hy⟩
    · exact ih hys hx

theorem mapM_except_of_ok {ε α β : Type} {f : α → Except ε β} {g : α → β} {l : List α}
    (h : ∀ x ∈ l, f x = .ok (g x)) :
    l.mapM f = .ok (l.map g) := by
  induction l with
  | nil => rfl
  | cons a l ih =>
    rw [List.mapM_cons, h a List.mem_cons_self, ih fun x hx => h x (List.mem_cons_of_mem _ hx)]
    rfl

/-! ### What is read -/

/-- The segments are readable: not too long, and what is new in them is valid. -/
def Readable (rt : Runtime) (names : List String) (st : JournalState)
    (seen : String → Nat) : Prop :=
  ∀ n ∈ names, ¬ maxSegmentBytes < (st.seenFile seen n).content.length ∧ ValidLines rt n (st.newLines seen n)

def SeenRead (rt : Runtime) (names : List String) (st : JournalState)
    (seen : String → Nat) : Prop :=
  ∀ n ∈ names, Checkpointed rt n (st.db.checkpoint n) (st.seenFile seen n) (st.consumed n)

def JournalState.segmentData (rt : Runtime) (names : List String) (st : JournalState)
    (seen : String → Nat) :
    List SegmentData := names.map fun n => readData rt n (st.seenFile seen n) (st.consumed n)

def JournalState.newEvents (rt : Runtime) (names : List String) (st : JournalState)
    (seen : String → Nat) : List Event :=
  names.flatMap fun n => eventsOf rt n (st.newLines seen n)

theorem segmentData_events (st : JournalState) (seen : String → Nat) :
    (st.segmentData rt names seen).flatMap SegmentData.events = st.newEvents rt names seen := by
  unfold JournalState.segmentData
  rw [List.flatMap_map]
  rfl

theorem readable_of_ok {st : JournalState} {seen : String → Nat} (hseen : SeenRead rt names st seen)
    (h : ∀ n ∈ names, ∃ d, readSegment rt n (st.db.checkpoint n) (st.seenFile seen n) = .ok d) :
    Readable rt names st seen := by
  intro n hn
  obtain ⟨d, hd⟩ := h n hn
  obtain ⟨hsize, hvalid, -⟩ := readSegment_ok (hseen n hn) hd
  exact ⟨hsize, hvalid⟩

/-- **An ingest of readable segments** comes down to applying the new records. -/
theorem ingest_eq {st : JournalState} {seen : String → Nat} (hseen : SeenRead rt names st seen)
    (hreadable : Readable rt names st seen) :
    (ingestFrontOutcomeJournal rt (st.view names seen) st.db).map (fun r => (r.1, r.2.1)) =
      (collectOperations rt st.db (st.newEvents rt names seen)).map fun collected =>
        ((st.segmentData rt names seen).foldl writeCheckpoint (writeOperations rt st.db st.active collected.operations).1,
          st.segmentData rt names seen) := by
  have hread : (st.view names seen).segments.mapM
      (fun s => readSegment rt s.1 ((st.db.checkpoints.get? s.1).map Prod.snd) s.2) =
      .ok (st.segmentData rt names seen) := by
    show (names.map fun n => (n, st.seenFile seen n)).mapM _ = _
    rw [List.mapM_map]
    exact mapM_except_of_ok fun n hn =>
      readSegment_readData (hseen n hn) (hreadable n hn).1 (hreadable n hn).2
  unfold ingestFrontOutcomeJournal
  rw [hread]
  show Except.map _ (collectOperations rt st.db ((st.segmentData rt names seen).flatMap SegmentData.events) >>= _) = _
  rw [segmentData_events]
  cases collectOperations rt st.db (st.newEvents rt names seen) with
  | error e => rfl
  | ok c => rfl

/-! ### Checkpoints -/

theorem foldl_writeCheckpoint (data : List SegmentData) (db : OutcomeDb) :
    (data.foldl writeCheckpoint db).outcomes = db.outcomes ∧ (data.foldl writeCheckpoint db).spans = db.spans := by
  induction data generalizing db with
  | nil => exact ⟨rfl, rfl⟩
  | cons d data ih =>
    rw [List.foldl_cons, (ih _).1, (ih _).2]
    unfold writeCheckpoint
    split
    · exact ⟨rfl, rfl⟩
    · exact ⟨rfl, rfl⟩

theorem writeCheckpoint_checkpoint (db : OutcomeDb) (d : SegmentData) (n : String) :
    (writeCheckpoint db d).checkpoint n =
      if 0 < d.nextOffset ∧ d.name = n then some ⟨d.file.dev, d.file.ino, d.nextOffset, d.prefixSha256⟩
      else db.checkpoint n := by
  unfold writeCheckpoint OutcomeDb.checkpoint
  by_cases hoffset : 0 < d.nextOffset
  · rw [if_pos hoffset]
    simp only [Table.get?_put]
    by_cases hname : d.name = n
    · rw [if_pos hname.symm, if_pos ⟨hoffset, hname⟩]
      rfl
    · rw [if_neg (Ne.symm hname), if_neg fun h => hname h.2]
  · rw [if_neg hoffset, if_neg fun h => hoffset h.1]

theorem foldl_writeCheckpoint_checkpoint {data : List SegmentData}
    (hnodup : (data.map SegmentData.name).Nodup)
    {d : SegmentData} (hd : d ∈ data) (db : OutcomeDb) :
    (data.foldl writeCheckpoint db).checkpoint d.name =
      if 0 < d.nextOffset then some ⟨d.file.dev, d.file.ino, d.nextOffset, d.prefixSha256⟩ else db.checkpoint d.name := by
  have hothers : ∀ (l : List SegmentData) (db : OutcomeDb), (∀ x ∈ l, x.name ≠ d.name) →
      (l.foldl writeCheckpoint db).checkpoint d.name = db.checkpoint d.name := by
    intro l
    induction l with
    | nil => exact fun db _ => rfl
    | cons x l ih =>
      intro db hl
      rw [List.foldl_cons, ih _ fun y hy => hl y (List.mem_cons_of_mem _ hy), writeCheckpoint_checkpoint,
        if_neg fun h => hl x List.mem_cons_self h.2]
  induction data generalizing db with
  | nil => cases hd
  | cons x data ih =>
    rw [List.map_cons, List.nodup_cons] at hnodup
    rw [List.foldl_cons]
    rcases List.mem_cons.mp hd with rfl | hd
    · rw [hothers data _ fun y hy heq => hnodup.1 (heq ▸ List.mem_map_of_mem hy), writeCheckpoint_checkpoint]
      simp only [and_true]
    · rw [ih hnodup.2 hd, writeCheckpoint_checkpoint, if_neg (c := 0 < x.nextOffset ∧ x.name = d.name)]
      rintro ⟨-, hname⟩
      exact hnodup.1 (hname ▸ List.mem_map_of_mem hd)

theorem writeOperations_checkpoint (db : OutcomeDb) (active : ActiveClock)
    (operations : List Operation) (n : String) :
    (writeOperations rt db active operations).1.checkpoint n = db.checkpoint n := by
  show (operations.foldl (writeOperation rt) db).checkpoint n = db.checkpoint n
  induction operations generalizing db with
  | nil => rfl
  | cons op operations ih =>
    rw [List.foldl_cons, ih]
    cases op with
    | start row => rfl
    | link row =>
      rw [writeOperation]
      split <;> rfl
    | terminal row record =>
      rw [writeOperation]
      split <;> rfl

/-! ### One step -/

def Consistent (rt : Runtime) (names : List String) (st : JournalState) : Prop :=
  ∀ n ∈ names, Checkpointed rt n (st.db.checkpoint n) (st.files n) (st.consumed n)

/-- The state after an ingest that collected `c`. -/
def JournalState.ingested (rt : Runtime) (names : List String) (st : JournalState)
    (seen : String → Nat) (c : Collected) :
    JournalState :=
  { st with
    db := (st.segmentData rt names seen).foldl writeCheckpoint (writeOperations rt st.db st.active c.operations).1
    consumed := fun n =>
      st.consumed n ++ (((st.segmentData rt names seen).filter fun d => d.name = n).flatMap SegmentData.lines) }

theorem ingested_consumed (hnames : names.Nodup) (st : JournalState) (seen : String → Nat)
    (c : Collected) {n : String}
    (hn : n ∈ names) : (st.ingested rt names seen c).consumed n = st.consumed n ++ st.newLines seen n := by
  have hfilter : (st.segmentData rt names seen).filter (fun d => d.name = n) =
      [readData rt n (st.seenFile seen n) (st.consumed n)] := by
    unfold JournalState.segmentData
    rw [List.filter_map, show ((fun d : SegmentData => decide (d.name = n)) ∘ fun n =>
      readData rt n (st.seenFile seen n) (st.consumed n)) = fun m => decide (m = n) from rfl, List.filter_eq,
      List.count_eq_one_of_mem hnames hn]
    rfl
  show st.consumed n ++ _ = _
  rw [hfilter, List.flatMap_singleton]
  rfl

theorem ingested_outcomes (st : JournalState) (seen : String → Nat) (c : Collected) :
    (st.ingested rt names seen c).db.outcomes = (writeOperations rt st.db st.active c.operations).1.outcomes :=
  (foldl_writeCheckpoint _ _).1

theorem ingested_spans (st : JournalState) (seen : String → Nat) (c : Collected) :
    (st.ingested rt names seen c).db.spans = (c.operations.foldl (writeOperation rt) st.db).spans :=
  (foldl_writeCheckpoint _ _).2

theorem ingested_checkpoint (hnames : names.Nodup) (st : JournalState) (seen : String → Nat)
    (c : Collected) {n : String} (hn : n ∈ names) : (st.ingested rt names seen c).db.checkpoint n =
      if 0 < (unlines (st.consumed n ++ st.newLines seen n)).length then
        some ⟨(st.files n).dev, (st.files n).ino, (unlines (st.consumed n ++ st.newLines seen n)).length,
          rt.checksum (unlines (st.consumed n ++ st.newLines seen n))⟩
      else st.db.checkpoint n := by
  have hnodup : ((st.segmentData rt names seen).map SegmentData.name).Nodup := by
    unfold JournalState.segmentData
    rw [List.map_map]
    exact (List.map_id names).symm ▸ hnames
  have hmem : readData rt n (st.seenFile seen n) (st.consumed n) ∈ st.segmentData rt names seen :=
    List.mem_map.mpr ⟨n, hn, rfl⟩
  have := foldl_writeCheckpoint_checkpoint hnodup hmem (writeOperations rt st.db st.active c.operations).1
  rw [writeOperations_checkpoint] at this
  exact this

/-- **What an ingest does**: nothing, or it reads and applies what is new. -/
theorem journalStep_ingest {st : JournalState} (hst : Consistent rt names st)
    (seen : String → Nat) :
    ((∃ e, ingestFrontOutcomeJournal rt (st.view names seen) st.db = .error e) ∧
      journalStep rt names st (.ingest seen) = st) ∨
    (SeenRead rt names st seen ∧ Readable rt names st seen ∧ ∃ c,
      collectOperations rt st.db (st.newEvents rt names seen) = .ok c ∧
      journalStep rt names st (.ingest seen) = st.ingested rt names seen c) := by
  simp only [journalStep]
  cases hingest : ingestFrontOutcomeJournal rt (st.view names seen) st.db with
  | error e => exact Or.inl ⟨⟨e, rfl⟩, rfl⟩
  | ok r =>
    right
    obtain ⟨db, data, report⟩ := r
    have hread : ∀ n ∈ names, ∃ d, readSegment rt n (st.db.checkpoint n) (st.seenFile seen n) = .ok d := by
      intro n hn
      unfold ingestFrontOutcomeJournal at hingest
      obtain ⟨data', hdata, -⟩ := bind_ok hingest
      exact mapM_except_ok hdata (x := (n, st.seenFile seen n)) (List.mem_map.mpr ⟨n, hn, rfl⟩)
    have hseen : SeenRead rt names st seen := by
      intro n hn
      obtain ⟨d, hd⟩ := hread n hn
      exact (hst n hn).seen hd
    have hreadable := readable_of_ok hseen hread
    refine ⟨hseen, hreadable, ?_⟩
    have heq := ingest_eq hseen hreadable
    rw [hingest] at heq
    cases hcollect : collectOperations rt st.db (st.newEvents rt names seen) with
    | error e =>
      rw [hcollect] at heq
      cases heq
    | ok c =>
      rw [hcollect] at heq
      cases heq
      exact ⟨c, rfl, rfl⟩

theorem ingest_isOk {st : JournalState} {seen : String → Nat} {c : Collected}
    (hseen : SeenRead rt names st seen)
    (hreadable : Readable rt names st seen) (hcollect : collectOperations rt st.db (st.newEvents rt names seen) = .ok c) :
    ∃ r, ingestFrontOutcomeJournal rt (st.view names seen) st.db = .ok r := by
  have heq := ingest_eq hseen hreadable
  rw [hcollect] at heq
  cases hingest : ingestFrontOutcomeJournal rt (st.view names seen) st.db with
  | error e =>
    rw [hingest] at heq
    cases heq
  | ok r => exact ⟨r, rfl⟩

theorem Checkpointed.append {n : String} {checkpoint : Option Checkpoint} {file : SegmentFile}
    {read : List Bytes}
    (h : Checkpointed rt n checkpoint file read) (bytes : Bytes) :
    Checkpointed rt n checkpoint (file.append bytes) read :=
  ⟨h.lines, h.valid, h.text.trans (List.prefix_append _ _), h.missing, h.checkpoint⟩

theorem unlines_eq_nil {lines : List Bytes} (h : (unlines lines).length = 0) : lines = [] := by
  cases lines with
  | nil => rfl
  | cons l ls => simp at h

theorem Checkpointed.advance {n : String} {checkpoint : Option Checkpoint} {file : SegmentFile}
    {read : List Bytes}
    (h : Checkpointed rt n checkpoint file read) (hvalid : ValidLines rt n (newLines file read)) {full : SegmentFile}
    (hdev : full.dev = file.dev) (hino : full.ino = file.ino) (hfull : file.content <+: full.content) :
    Checkpointed rt n
      (if 0 < (unlines (read ++ newLines file read)).length then
        some ⟨full.dev, full.ino, (unlines (read ++ newLines file read)).length,
          rt.checksum (unlines (read ++ newLines file read))⟩
      else checkpoint) full (read ++ newLines file read) where
  lines := by
    intro l hl
    rcases List.mem_append.mp hl with hl | hl
    · exact h.lines l hl
    · exact (newline_notMem_splitLines _).1 l hl
  valid := by
    intro l hl
    rcases List.mem_append.mp hl with hl | hl
    · exact h.valid l hl
    · exact hvalid l hl
  text := by
    refine List.IsPrefix.trans ?_ hfull
    exact ⟨_, h.unlines_content⟩
  missing := by
    split
    · intro hnone
      cases hnone
    · intro _
      exact unlines_eq_nil (by omega)
  checkpoint := by
    split
    · rintro c ⟨⟩
      exact ⟨rfl, rfl, rfl, rfl⟩
    · intro c hc
      have hnil : read ++ newLines file read = [] := unlines_eq_nil (by omega)
      obtain ⟨hcdev, hcino, hcoffset, hcprefix⟩ := h.checkpoint c hc
      rw [(List.append_eq_nil_iff.mp hnil).1] at hcoffset hcprefix
      rw [hnil, hdev, hino]
      exact ⟨hcdev, hcino, hcoffset, hcprefix⟩

theorem consistent_step (hnames : names.Nodup) {st : JournalState} (hst : Consistent rt names st)
    (op : JournalOp) :
    Consistent rt names (journalStep rt names st op) := by
  cases op with
  | append name bytes =>
    intro n hn
    show Checkpointed rt n _ (if n = name then (st.files n).append bytes else st.files n) _
    split
    · exact (hst n hn).append bytes
    · exact hst n hn
  | activate active => exact hst
  | ingest seen =>
    rcases journalStep_ingest hst seen with ⟨-, h⟩ | ⟨hseen, hreadable, c, -, h⟩
    · rw [h]
      exact hst
    · rw [h]
      intro n hn
      rw [ingested_consumed hnames st seen c hn, ingested_checkpoint hnames st seen c hn]
      exact (hseen n hn).advance (hreadable n hn).2 rfl rfl (List.take_prefix _ _)

theorem consistent_run (hnames : names.Nodup) {st : JournalState} (hst : Consistent rt names st)
    (ops : List JournalOp) :
    Consistent rt names (run (journalStep rt names) st ops) :=
  run_inv (fun _ op h => consistent_step hnames h op) hst

theorem consistent_start (active : ActiveClock) (files : String → SegmentFile) :
    Consistent rt names { active, files } :=
  fun _ _ => ⟨fun l hl => absurd hl List.not_mem_nil, fun l hl => absurd hl List.not_mem_nil, List.nil_prefix,
    fun _ => rfl, fun c hc => by cases hc⟩

/-- **Each complete line is read at most once**, in the order of its segment. -/
theorem Consistent.consumed_prefix {st : JournalState} (hst : Consistent rt names st) {n : String}
    (hn : n ∈ names) :
    st.consumed n <+: (splitLines (st.files n).content).1 := by
  rw [(hst n hn).content]
  exact List.prefix_append _ _

theorem Consistent.consumed_append {st : JournalState} (hst : Consistent rt names st) {n : String}
    (hn : n ∈ names) {seen : String → Nat} (hwhole : (st.files n).content.length ≤ seen n) :
    st.consumed n ++ st.newLines seen n = (splitLines (st.files n).content).1 := by
  rw [(hst n hn).content]
  unfold JournalState.newLines JournalState.seenFile
  rw [List.take_of_length_le hwhole]

end TokenProxy.FrontOutcome
