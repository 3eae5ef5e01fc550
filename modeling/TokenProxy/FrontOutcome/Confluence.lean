import TokenProxy.FrontOutcome.Schedules

/-!
# The import does not depend on its schedule

Of the rows, what an orderly schedule changes is when an interruption was noticed; the lines are
read once each in every schedule.
-/

namespace TokenProxy.FrontOutcome

open TokenProxy.Lib

/-- **The import does not depend on its schedule.** In every schedule each complete line is read at
most once, and an ingest at the end that succeeds has read them all. In an orderly one, the ingest
at the end succeeds if one ingest of the whole segments does, and leaves its spans, and its rows up
to when an interruption was noticed. -/
theorem import_schedule (rt : Runtime) {names : List String} (hnames : names.Nodup)
    (active : ActiveClock)
    (files : String → SegmentFile) (ops : List JournalOp) (seen : String → Nat)
    (hwhole : SeesAll names (run (journalStep rt names) { active, files } ops) seen) :
    let st := run (journalStep rt names) { active, files } ops
    let last := run (journalStep rt names) { active, files } (ops ++ [JournalOp.ingest seen])
    let whole := run (journalStep rt names) { active, files } (ops.filter JournalOp.isWrite)
    let single := run (journalStep rt names) { active, files } (ops.filter JournalOp.isWrite ++ [JournalOp.ingest seen])
    (∀ n ∈ names, st.consumed n <+: (splitLines (st.files n).content).1) ∧
    (Accepted rt names st seen → ∀ n ∈ names, last.consumed n = (splitLines (st.files n).content).1) ∧
    (Meets (journalStep rt names) (Orderly rt names) { active, files } (ops ++ [JournalOp.ingest seen]) →
      OneClock (st.journalEvents rt names) → DistinctSpans rt (st.journalEvents rt names) →
      (∀ row ∈ st.db.outcomes.rows, row.marked → row.clockDomain ≠ st.active.clockDomain) →
      Accepted rt names whole seen → Accepted rt names st seen ∧
      (∀ id, (last.db.outcomes.get? id).map OutcomeRow.untimed = (single.db.outcomes.get? id).map OutcomeRow.untimed) ∧
      ∀ id, last.db.spans.get? id = single.db.spans.get? id) := by
  intro st last whole single
  have hstart : Consistent rt names { active, files } := consistent_start active files
  have hst : Consistent rt names st := consistent_run hnames hstart ops
  have hlast : last = journalStep rt names st (.ingest seen) := run_snoc _ _ _ _
  have hwholeSt : whole = { active := st.active, files := st.files } := run_isWrite ops { active, files }
  have hsingle : single = journalStep rt names { active := st.active, files := st.files } (.ingest seen) := by
    rw [← hwholeSt]
    exact run_snoc _ _ _ _
  refine ⟨fun n hn => hst.consumed_prefix hn, ?_, ?_⟩
  · intro haccepted n hn
    obtain ⟨r, hr⟩ := accepted_iff.mp haccepted
    rcases journalStep_ingest hst seen with ⟨⟨e, he⟩, -⟩ | ⟨-, -, c, -, hstep⟩
    · rw [hr] at he
      cases he
    · rw [hlast, hstep, ingested_consumed hnames st seen c hn, hst.consumed_append hn (hwhole n hn)]
  · intro hmeets hclock hdistinct hactive haccepted
    have hscheduled : Scheduled rt names st :=
      run_inv_of_meets (scheduled_step hnames) hmeets.append_left ⟨hstart, fun _ _ => imported_start active files⟩
    rw [hlast, hsingle]
    rw [hwholeSt] at haccepted
    exact ingest_agrees hnames hst (hscheduled.2 hclock hdistinct) hmeets.last hwhole hclock hdistinct hactive haccepted

/-- A journal of which some lines say something: requests that start, are linked and end. -/
def sampleRuntime : Runtime where
  parse
    | [1] => .ok (.start ⟨"first", "01", "start-a", "a", none, "01", "live", none⟩)
    | [2] => .ok (.terminal ⟨"first", "02", "end-a", "a", none, .succeeded, "01", "02", some 200, 1, 1, 1, 3, "live", none⟩)
    | [3] => .ok (.link ⟨"second", "03", "link-a", "a", "logical-a"⟩)
    | [4] => .ok (.start ⟨"second", "04", "start-b", "b", none, "04", "live", none⟩)
    | [5] => .ok (.terminal ⟨"second", "05", "end-b", "b", none, .failed, "04", "05", some 500, 1, 1, 1, 3, "live", none⟩)
    | _ => fail "segment JSON"
  checksum bytes := String.ofList (bytes.map fun b => Char.ofNat b.toNat)
  spanId receiptId stage := receiptId ++ ":" ++ stage
  localeCompare := compare

def noFiles : String → SegmentFile := fun _ => ⟨1, 1, []⟩

def sampleRun (names : List String) (ops : List JournalOp) : JournalState :=
  run (journalStep sampleRuntime names) { active := ⟨"first", "00"⟩, files := noFiles } ops

/-- One request is interrupted and another ends, and a line is read when it is complete. -/
theorem import_schedule_twoSegments :
    let names := ["first-1", "second-1"]
    let ops : List JournalOp := [.append "first-1" [1, 10], .ingest fun _ => 9, .activate ⟨"second", "03"⟩,
      .append "second-1" [4, 10, 5], .ingest fun _ => 9, .append "second-1" [10]]
    let last := sampleRun names (ops ++ [JournalOp.ingest fun _ => 9])
    let single := sampleRun names (ops.filter JournalOp.isWrite ++ [JournalOp.ingest fun _ => 9])
    Accepted sampleRuntime names (sampleRun names ops) (fun _ => 9) ∧
    (∀ id, (last.db.outcomes.get? id).map OutcomeRow.untimed = (single.db.outcomes.get? id).map OutcomeRow.untimed) ∧
    ∀ id, last.db.spans.get? id = single.db.spans.get? id :=
  (@import_schedule sampleRuntime ["first-1", "second-1"] (by decide) ⟨"first", "00"⟩ noFiles
    [.append "first-1" [1, 10], .ingest fun _ => 9, .activate ⟨"second", "03"⟩, .append "second-1" [4, 10, 5],
      .ingest fun _ => 9, .append "second-1" [10]] (fun _ => 9) (by decide +kernel)).2.2
    (by decide +kernel) (by decide +kernel) (by decide +kernel) (by decide +kernel) (by decide +kernel)

/-- **Some schedules matter.** An interruption is dated when it is noticed, and stays when
its clock returns; an end that is read after that is refused for good, and so is a start
that an earlier segment repeats after the end, and an end that was written before the link
that another clock carries. -/
theorem import_schedule_matters :
    -- the clock that notices the interruption
    (let ops : List JournalOp := [.append "s" [1, 10], .activate ⟨"second", "03"⟩, .ingest fun _ => 9,
       .activate ⟨"third", "06"⟩]
     let last := sampleRun ["s"] (ops ++ [JournalOp.ingest fun _ => 9])
     let single := sampleRun ["s"] (ops.filter JournalOp.isWrite ++ [JournalOp.ingest fun _ => 9])
     ((last.db.outcomes.get? "a").bind OutcomeRow.terminalAt, (single.db.outcomes.get? "a").bind OutcomeRow.terminalAt) =
       (some "03", some "06")) ∧
    -- the clock of the request is active again in the end
    (let ops : List JournalOp := [.append "s" [1, 10], .activate ⟨"second", "03"⟩, .ingest fun _ => 9,
       .activate ⟨"first", "06"⟩]
     let last := sampleRun ["s"] (ops ++ [JournalOp.ingest fun _ => 9])
     let single := sampleRun ["s"] (ops.filter JournalOp.isWrite ++ [JournalOp.ingest fun _ => 9])
     ((last.db.outcomes.get? "a").map OutcomeRow.state, (single.db.outcomes.get? "a").map OutcomeRow.state) =
       (some .interrupted, some .pending)) ∧
    -- the end of a request that was interrupted
    (let ops : List JournalOp := [.append "s" [1, 10], .activate ⟨"second", "03"⟩, .ingest fun _ => 9,
       .append "s" [2, 10]]
     Accepted sampleRuntime ["s"] (sampleRun ["s"] (ops.filter JournalOp.isWrite)) (fun _ => 9) ∧
       ¬ Accepted sampleRuntime ["s"] (sampleRun ["s"] ops) (fun _ => 9)) ∧
    -- an earlier segment that is behind a later one
    (let ops : List JournalOp := [.append "t" [1, 10, 2, 10], .ingest fun _ => 9, .append "s" [1, 10]]
     Accepted sampleRuntime ["s", "t"] (sampleRun ["s", "t"] (ops.filter JournalOp.isWrite)) (fun _ => 9) ∧
       ¬ Accepted sampleRuntime ["s", "t"] (sampleRun ["s", "t"] ops) (fun _ => 9)) ∧
    -- a link under another clock
    (let ops : List JournalOp := [.append "s" [1, 10, 3, 10], .ingest fun _ => 9, .append "s" [2, 10]]
     Accepted sampleRuntime ["s"] (sampleRun ["s"] (ops.filter JournalOp.isWrite)) (fun _ => 9) ∧
       ¬ Accepted sampleRuntime ["s"] (sampleRun ["s"] ops) (fun _ => 9)) := by
  decide +kernel

end TokenProxy.FrontOutcome
