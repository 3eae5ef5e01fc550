import TokenProxy.FrontOutcome.Marks

/-!
# Schedules of ingests

A schedule is a list of appends, new active clocks and ingests. If the records of a request are read
in the order of the segments, and none but a link is read after the request was marked as
interrupted (`Orderly`), the store holds at every point of the schedule what the records that were
read make of it, up to the marks (`Imported`). So the ingest at the end leaves the rows and the
spans that one ingest of the whole segments leaves (`ingest_schedule`).
-/

namespace TokenProxy.FrontOutcome

open TokenProxy.Lib

variable {rt : Runtime} {names : List String}

/-! ### Records of a request in several segments -/

def Event.sameRequest (e e' : Event) : Bool := e.frontIngressId.isSome && e.frontIngressId = e'.frontIngressId

/-- What an ingest meets in an orderly schedule: a request of which a later segment has
been read has nothing new in an earlier one, and a request that is marked as
interrupted has nothing new but links. -/
def Orderly (rt : Runtime) (names : List String) (st : JournalState) : JournalOp → Prop
  | .ingest seen =>
    names.Pairwise (fun n n' => ∀ e ∈ eventsOf rt n (st.newLines seen n), ∀ e' ∈ eventsOf rt n' (st.consumed n'),
      ¬ e.sameRequest e') ∧
    ∀ row ∈ st.db.outcomes.rows, row.marked → ∀ e ∈ st.newEvents rt names seen,
      e.frontIngressId = some row.frontIngressId → e.isLink
  | _ => True

instance (st : JournalState) (op : JournalOp) : Decidable (Orderly rt names st op) := by
  cases op with
  | append name bytes => exact isTrue trivial
  | activate active => exact isTrue trivial
  | ingest seen => exact inferInstanceAs (Decidable (_ ∧ _))

theorem flatMap_append_of_pairwise {α β : Type} {l : List α} {f g : α → List β}
    (h : l.Pairwise fun a b => g a = [] ∨ f b = []) :
    l.flatMap (fun a => f a ++ g a) = l.flatMap f ++ l.flatMap g := by
  induction l with
  | nil => rfl
  | cons a l ih =>
    rw [List.pairwise_cons] at h
    rw [List.flatMap_cons, List.flatMap_cons, List.flatMap_cons, ih h.2]
    by_cases ha : g a = []
    · rw [ha, List.append_nil, List.nil_append, List.append_assoc]
    · have hrest : l.flatMap f = [] := by
        rw [List.flatMap_eq_nil_iff]
        exact fun b hb => (h.1 b hb).resolve_left ha
      rw [hrest, List.nil_append, List.append_nil, List.append_assoc]

theorem recordsOf_flatMap {α : Type} (id : String) (l : List α) (f : α → List Event) :
    recordsOf id (l.flatMap f) = l.flatMap fun a => recordsOf id (f a) := List.filter_flatMap

def JournalState.readEvents (rt : Runtime) (names : List String) (st : JournalState) : List Event :=
  names.flatMap fun n => eventsOf rt n (st.consumed n)

def JournalState.journalEvents (rt : Runtime) (names : List String)
    (st : JournalState) : List Event :=
  names.flatMap fun n => eventsOf rt n (splitLines (st.files n).content).1

theorem recordsOf_read_append {st : JournalState} {seen : String → Nat}
    (h : Orderly rt names st (.ingest seen))
    (id : String) : recordsOf id (names.flatMap fun n => eventsOf rt n (st.consumed n ++ st.newLines seen n)) =
      recordsOf id (st.readEvents rt names) ++ recordsOf id (st.newEvents rt names seen) := by
  unfold JournalState.readEvents JournalState.newEvents
  rw [recordsOf_flatMap, recordsOf_flatMap, recordsOf_flatMap]
  simp only [eventsOf_append, recordsOf_append]
  refine flatMap_append_of_pairwise (h.1.imp fun {n n'} hapart => ?_)
  by_contra hboth
  rw [not_or] at hboth
  obtain ⟨e, he⟩ := List.exists_mem_of_ne_nil _ hboth.1
  obtain ⟨e', he'⟩ := List.exists_mem_of_ne_nil _ hboth.2
  obtain ⟨he, hid⟩ := List.mem_filter.mp he
  obtain ⟨he', hid'⟩ := List.mem_filter.mp he'
  rw [decide_eq_true_eq] at hid hid'
  refine hapart e he e' he' ?_
  unfold Event.sameRequest
  rw [hid, hid', Option.isSome_some, Bool.true_and, decide_eq_true_eq]

theorem mem_read_append {st : JournalState} {seen : String → Nat} (e : Event) :
    (e ∈ names.flatMap fun n => eventsOf rt n (st.consumed n ++ st.newLines seen n)) ↔
      e ∈ st.readEvents rt names ++ st.newEvents rt names seen := by
  unfold JournalState.readEvents JournalState.newEvents
  simp only [eventsOf_append, List.mem_flatMap, List.mem_append]
  constructor
  · rintro ⟨n, hn, h | h⟩
    · exact Or.inl ⟨n, hn, h⟩
    · exact Or.inr ⟨n, hn, h⟩
  · rintro (⟨n, hn, h⟩ | ⟨n, hn, h⟩)
    · exact ⟨n, hn, Or.inl h⟩
    · exact ⟨n, hn, Or.inr h⟩

theorem flatMap_congr_mem {α β : Type} {l : List α} {f g : α → List β} (h : ∀ a ∈ l, f a = g a) :
    l.flatMap f = l.flatMap g := by
  induction l with
  | nil => rfl
  | cons a l ih =>
    rw [List.flatMap_cons, List.flatMap_cons, h a List.mem_cons_self, ih fun b hb => h b (List.mem_cons_of_mem _ hb)]

theorem ingested_readEvents (hnames : names.Nodup) (st : JournalState) (seen : String → Nat)
    (c : Collected) :
    (st.ingested rt names seen c).readEvents rt names =
      names.flatMap fun n => eventsOf rt n (st.consumed n ++ st.newLines seen n) :=
  flatMap_congr_mem fun n hn => by rw [ingested_consumed hnames st seen c hn]

theorem Consistent.readEvents_subset {st : JournalState} (hst : Consistent rt names st) :
    st.readEvents rt names ⊆ st.journalEvents rt names := by
  intro e he
  obtain ⟨n, hn, he⟩ := List.mem_flatMap.mp he
  refine List.mem_flatMap.mpr ⟨n, hn, ?_⟩
  obtain ⟨rest, hrest⟩ := hst.consumed_prefix hn
  rw [← hrest, eventsOf_append]
  exact List.mem_append_left _ he

theorem eventsOf_terminal {n : String} {lines : List Bytes} {r : TerminalRecord}
    (h : .terminal r ∈ eventsOf rt n lines) :
    r.state ≠ .pending := by
  obtain ⟨l, -, hl⟩ := List.mem_filterMap.mp h
  cases hread : readLine rt n l with
  | error e =>
    rw [hread] at hl
    cases hl
  | ok e =>
    rw [hread] at hl
    cases hl
    exact readLine_terminal hread

theorem flatMap_eventsOf_terminal {lines : String → List Bytes} {r : TerminalRecord}
    (h : .terminal r ∈ names.flatMap fun n => eventsOf rt n (lines n)) : r.state ≠ .pending := by
  obtain ⟨n, -, hr⟩ := List.mem_flatMap.mp h
  exact eventsOf_terminal hr

/-! ### The store -/

/-- The store holds what the records that were read make of it, up to the marks. -/
structure Imported (rt : Runtime) (names : List String) (st : JournalState) : Prop where
  unique : UniqueLinks st.db.outcomes.get?
  rows : ∀ id, ∃ recorded, rowRun none (recordsOf id (st.readEvents rt names)) = some recorded ∧
    MarkOf recorded (st.db.outcomes.get? id)
  spans : SpansOf rt (st.readEvents rt names) st.db.spans

theorem undecided_of_run {st : JournalState} {id : String} {recorded : Option OutcomeRow}
    (h : rowRun none (recordsOf id (st.readEvents rt names)) = some recorded) :
    Undecided recorded :=
  rowRun_undecided (fun x hx => by cases hx) (fun _ hr => flatMap_eventsOf_terminal (List.mem_filter.mp hr).1) h

theorem MarkOf.marked {recorded stored : Option OutcomeRow} (h : MarkOf recorded stored)
    (hundecided : Undecided recorded)
    (hne : stored ≠ recorded) : ∃ row, stored = some row ∧ row.marked = true := by
  obtain ⟨row, t, u, rfl, hpending, rfl⟩ := h.resolve_left hne
  refine ⟨_, rfl, ?_⟩
  unfold OutcomeRow.marked
  rw [Bool.and_eq_true, decide_eq_true_eq, decide_eq_true_eq]
  exact ⟨rfl, hundecided row rfl hpending⟩

theorem Orderly.links {st : JournalState} {seen : String → Nat}
    (h : Orderly rt names st (.ingest seen)) {id : String}
    {recorded : Option OutcomeRow} (hrun : rowRun none (recordsOf id (st.readEvents rt names)) = some recorded)
    (hmark : MarkOf recorded (st.db.outcomes.get? id)) (hne : st.db.outcomes.get? id ≠ recorded) :
    ∀ e ∈ recordsOf id (st.newEvents rt names seen), e.isLink := by
  intro e he
  obtain ⟨he, hid⟩ := List.mem_filter.mp he
  rw [decide_eq_true_eq] at hid
  obtain ⟨row, hrow, hmarked⟩ := hmark.marked (undecided_of_run hrun) hne
  exact h.2 row (Table.get?_mem hrow) hmarked e he (by rw [hid, Table.get?_key hrow])

theorem UniqueLinks.congr {f g : String → Option OutcomeRow} (h : UniqueLinks f)
    (hsame : ∀ id, (g id).bind OutcomeRow.logicalRequestId = (f id).bind OutcomeRow.logicalRequestId) : UniqueLinks g := by
  have hback : ∀ id row l, g id = some row → row.logicalRequestId = some l →
      ∃ row', f id = some row' ∧ row'.logicalRequestId = some l := by
    intro id row l hrow hl
    have := hsame id
    rw [hrow, Option.bind_some, hl] at this
    exact Option.bind_eq_some_iff.mp this.symm
  intro a b ra rb l ha hb hla hlb
  obtain ⟨ra', ha', hla'⟩ := hback a ra l ha hla
  obtain ⟨rb', hb', hlb'⟩ := hback b rb l hb hlb
  exact h a b ra' rb' l ha' hb' hla' hlb'

theorem ingested_get? {st : JournalState} {seen : String → Nat} {c : Collected}
    (hcollect : collectOperations rt st.db (st.newEvents rt names seen) = .ok c) (id : String) :
    (st.ingested rt names seen c).db.outcomes.get? id = (c.rows.get? id).map (OutcomeRow.interrupt st.active) := by
  have hwritten : Written rt st.db c := Written.foldlM (c := ⟨st.db.outcomes, linkedRequests st.db.outcomes, []⟩) rfl hcollect
  rw [ingested_outcomes]
  unfold writeOperations
  simp only
  rw [Table.get?_mapRows, hwritten]

/-- **What an ingest does to the store**, in an orderly schedule. -/
theorem Imported.ingested (hnames : names.Nodup) {st : JournalState} {seen : String → Nat}
    {c : Collected} (h : Imported rt names st) (horderly : Orderly rt names st (.ingest seen))
    (hclock : OneClock (st.newEvents rt names seen))
    (hdistinct : DistinctSpans rt (st.readEvents rt names ++ st.newEvents rt names seen))
    (hcollect : collectOperations rt st.db (st.newEvents rt names seen) = .ok c) :
    Imported rt names (st.ingested rt names seen c) := by
  obtain ⟨hlinked, hrows⟩ := foldlM_applyEvent (linked_linkedRequests h.unique) hcollect
  refine ⟨?_, fun id => ?_, ?_⟩
  · refine hlinked.unique.congr fun id => ?_
    rw [ingested_get? hcollect]
    cases c.rows.get? id with
    | none => rfl
    | some row => exact OutcomeRow.interrupt_logical st.active row
  · obtain ⟨recorded, hrun, hmark⟩ := h.rows id
    have hlinks := horderly.links hrun hmark
    have hnew := hrows id
    rw [recordsOf_orderEvents hclock] at hnew
    obtain ⟨recorded', hrecorded'⟩ := hmark.run_recorded hlinks hnew
    obtain ⟨stored', hstored', hmark', -⟩ := hmark.run hlinks hrecorded'
    refine ⟨recorded', ?_, ?_⟩
    · rw [ingested_readEvents hnames, recordsOf_read_append horderly, rowRun_append, hrun]
      exact hrecorded'
    · rw [ingested_get? hcollect, ← Option.some.inj (hstored'.symm.trans hnew)]
      exact hmark'.interrupt st.active
  · have hmem : ∀ e, e ∈ st.readEvents rt names ++ orderEvents rt (st.newEvents rt names seen) ↔
        e ∈ (st.ingested rt names seen c).readEvents rt names := by
      intro e
      rw [ingested_readEvents hnames, mem_read_append, List.mem_append, List.mem_append, mem_orderEvents]
    rw [ingested_spans]
    refine SpansOf.congr hmem (spans_foldlM hcollect ?_ h.spans)
    refine hdistinct.mono fun e he => ?_
    rw [List.mem_append, mem_orderEvents] at he
    exact List.mem_append.mpr he

/-! ### Whole schedules -/

theorem Consistent.newEvents_subset (hnames : names.Nodup) {st : JournalState}
    (hst : Consistent rt names st) {seen : String → Nat} {c : Collected}
    (hstep : journalStep rt names st (.ingest seen) = st.ingested rt names seen c) :
    st.readEvents rt names ++ st.newEvents rt names seen ⊆ st.journalEvents rt names := by
  have hafter : Consistent rt names (st.ingested rt names seen c) := hstep ▸ consistent_step hnames hst (.ingest seen)
  intro e he
  rw [← mem_read_append, ← ingested_readEvents hnames st seen c] at he
  exact hafter.readEvents_subset he

theorem journalEvents_append (st : JournalState) (name : String) (bytes : Bytes) :
    st.journalEvents rt names ⊆ (journalStep rt names st (.append name bytes)).journalEvents rt names := by
  intro e he
  obtain ⟨n, hn, he⟩ := List.mem_flatMap.mp he
  refine List.mem_flatMap.mpr ⟨n, hn, ?_⟩
  have hgrown : (st.files n).content <+: ((journalStep rt names st (.append name bytes)).files n).content := by
    show _ <+: (if n = name then (st.files n).append bytes else st.files n).content
    split
    · exact List.prefix_append _ _
    · exact List.prefix_refl _
  obtain ⟨rest, hrest⟩ := splitLines_prefix hgrown
  rw [← hrest, eventsOf_append]
  exact List.mem_append_left _ he

theorem OneClock.mono {xs ys : List Event} (hsub : xs ⊆ ys) (h : OneClock ys) : OneClock xs :=
  fun e he e' he' => h e (hsub he) e' (hsub he')

/-- What holds in every state of an orderly schedule, if the segments are
in order as far as they go. -/
def Scheduled (rt : Runtime) (names : List String) (st : JournalState) : Prop :=
  Consistent rt names st ∧
    (OneClock (st.journalEvents rt names) → DistinctSpans rt (st.journalEvents rt names) → Imported rt names st)

theorem scheduled_step (hnames : names.Nodup) (st : JournalState) (op : JournalOp)
    (horderly : Orderly rt names st op)
    (h : Scheduled rt names st) : Scheduled rt names (journalStep rt names st op) := by
  obtain ⟨hst, himported⟩ := h
  refine ⟨consistent_step hnames hst op, ?_⟩
  cases op with
  | append name bytes =>
    intro hclock hdistinct
    have hgrown := @journalEvents_append rt names st name bytes
    obtain ⟨hunique, hrows, hspans⟩ := himported (hclock.mono hgrown) (hdistinct.mono hgrown)
    exact ⟨hunique, hrows, hspans⟩
  | activate active =>
    intro hclock hdistinct
    obtain ⟨hunique, hrows, hspans⟩ := himported hclock hdistinct
    exact ⟨hunique, hrows, hspans⟩
  | ingest seen =>
    rcases journalStep_ingest hst seen with ⟨-, hstep⟩ | ⟨-, -, c, hcollect, hstep⟩
    · rw [hstep]
      exact himported
    · rw [hstep]
      intro hclock hdistinct
      have hsub := hst.newEvents_subset hnames hstep
      have hnew : st.newEvents rt names seen ⊆ st.journalEvents rt names :=
        fun e he => hsub (List.mem_append_right _ he)
      exact (himported hclock hdistinct).ingested hnames horderly (hclock.mono hnew) (hdistinct.mono hsub) hcollect

theorem imported_start (active : ActiveClock)
    (files : String → SegmentFile) : Imported rt names { active, files } := by
  have hnone : JournalState.readEvents rt names { active, files } = [] := by
    unfold JournalState.readEvents
    rw [List.flatMap_eq_nil_iff]
    exact fun n _ => rfl
  constructor
  · intro a b ra rb l ha
    cases ha
  · intro id
    rw [hnone]
    exact ⟨none, rfl, MarkOf.refl none⟩
  · intro x
    rw [hnone]
    exact Iff.rfl

def JournalOp.isWrite : JournalOp → Bool
  | .ingest _ => false
  | _ => true

theorem run_isWrite (ops : List JournalOp) (st : JournalState) :
    run (journalStep rt names) { active := st.active, files := st.files } (ops.filter JournalOp.isWrite) =
      { active := (run (journalStep rt names) st ops).active, files := (run (journalStep rt names) st ops).files } := by
  induction ops generalizing st with
  | nil => rfl
  | cons op ops ih =>
    cases op with
    | append name bytes => exact ih (journalStep rt names st (.append name bytes))
    | activate active => exact ih (journalStep rt names st (.activate active))
    | ingest seen =>
      have hsame : (journalStep rt names st (.ingest seen)).active = st.active ∧
          (journalStep rt names st (.ingest seen)).files = st.files := by
        simp only [journalStep]
        split
        · exact ⟨rfl, rfl⟩
        · exact ⟨rfl, rfl⟩
      have := ih (journalStep rt names st (.ingest seen))
      rw [hsame.1, hsame.2] at this
      exact this

def Accepted (rt : Runtime) (names : List String) (st : JournalState)
    (seen : String → Nat) : Prop :=
  (ingestFrontOutcomeJournal rt (st.view names seen) st.db).isOk

instance (st : JournalState) (seen : String → Nat) : Decidable (Accepted rt names st seen) :=
  inferInstanceAs (Decidable (_ = true))

theorem accepted_iff {st : JournalState} {seen : String → Nat} :
    Accepted rt names st seen ↔ ∃ r, ingestFrontOutcomeJournal rt (st.view names seen) st.db = .ok r := by
  unfold Accepted
  cases ingestFrontOutcomeJournal rt (st.view names seen) st.db with
  | error e => exact ⟨nofun, fun ⟨_, h⟩ => by cases h⟩
  | ok r => exact ⟨fun _ => ⟨r, rfl⟩, fun _ => rfl⟩

def SeesAll (names : List String) (st : JournalState) (seen : String → Nat) : Prop :=
  ∀ n ∈ names, (st.files n).content.length ≤ seen n

instance (st : JournalState) (seen : String → Nat) : Decidable (SeesAll names st seen) :=
  inferInstanceAs (Decidable (∀ n ∈ names, _))

theorem whole_readEvents {st : JournalState} (hst : Consistent rt names st) {seen : String → Nat}
    (hwhole : SeesAll names st seen) :
    (names.flatMap fun n => eventsOf rt n (st.consumed n ++ st.newLines seen n)) = st.journalEvents rt names :=
  flatMap_congr_mem fun n hn => by rw [hst.consumed_append hn (hwhole n hn)]

theorem seenFile_whole {st : JournalState} {seen : String → Nat} (hwhole : SeesAll names st seen)
    {n : String} (hn : n ∈ names) : st.seenFile seen n = st.files n := by
  unfold JournalState.seenFile
  rw [List.take_of_length_le (hwhole n hn)]

theorem orderly_start (active : ActiveClock) (files : String → SegmentFile) (seen : String → Nat) :
    Orderly rt names { active, files } (.ingest seen) := by
  constructor
  · refine List.pairwise_of_forall fun n n' e _ e' he' => ?_
    exact absurd he' List.not_mem_nil
  · intro row hrow
    exact absurd hrow List.not_mem_nil

theorem Readable.rest {st : JournalState} {seen : String → Nat} (hst : Consistent rt names st)
    (hwhole : SeesAll names st seen) (h : Readable rt names { active := st.active, files := st.files } seen) :
    Readable rt names st seen := by
  intro n hn
  obtain ⟨hsize, hvalid⟩ := h n hn
  refine ⟨hsize, fun l hl => hvalid l ?_⟩
  have hall := (@consistent_start rt names st.active st.files).consumed_append hn (hwhole n hn)
  rw [show JournalState.newLines { active := st.active, files := st.files } seen n = (splitLines (st.files n).content).1
    from hall, ← hst.consumed_append hn (hwhole n hn)]
  exact List.mem_append_right _ hl

/-- The new records of the ingest at the end make of the store what the
whole journal makes of no store. -/
theorem collect_agrees {st : JournalState} {seen : String → Nat} {rows : String → Option OutcomeRow}
    (hst : Consistent rt names st) (himported : Imported rt names st) (horderly : Orderly rt names st (.ingest seen))
    (hwhole : SeesAll names st seen) (hclock : OneClock (st.newEvents rt names seen)) (hunique : UniqueLinks rows)
    (hactive : ∀ row ∈ st.db.outcomes.rows, row.marked → row.clockDomain ≠ st.active.clockDomain)
    (hrows : ∀ id, rowRun none (recordsOf id (st.journalEvents rt names)) = some (rows id)) :
    ∃ c, collectOperations rt st.db (st.newEvents rt names seen) = .ok c ∧ ∀ id, MarkOf (rows id) (c.rows.get? id) ∧
      (c.rows.get? id ≠ rows id → ∀ row ∈ c.rows.get? id, row.clockDomain ≠ st.active.clockDomain) := by
  -- request by request
  have hrest : ∀ id, ∃ stored, rowRun (st.db.outcomes.get? id) (recordsOf id (st.newEvents rt names seen)) = some stored ∧
      MarkOf (rows id) stored ∧
      (stored ≠ rows id → ∀ row ∈ stored, row.clockDomain ≠ st.active.clockDomain) := by
    intro id
    obtain ⟨recorded, hrun, hmark⟩ := himported.rows id
    have hall := hrows id
    rw [← whole_readEvents hst hwhole, recordsOf_read_append horderly, rowRun_append, hrun] at hall
    obtain ⟨stored, hstored, hmark', hsame⟩ := hmark.run (horderly.links hrun hmark) hall
    refine ⟨stored, hstored, hmark', fun hne row hrow => ?_⟩
    obtain ⟨row₀, hrow₀, hmarked⟩ := hmark.marked (undecided_of_run hrun) fun heq => hne (hsame heq)
    rw [hrow₀] at hstored
    obtain ⟨row', rfl, hrowClock⟩ := rowRun_clock hstored
    cases hrow
    rw [hrowClock]
    exact hactive row₀ (Table.get?_mem hrow₀) hmarked
  choose stored hstored hmark hne using hrest
  have hlinked := linked_linkedRequests himported.unique
  have hrun : ∀ id, rowRun (st.db.outcomes.get? id) (recordsOf id (orderEvents rt (st.newEvents rt names seen))) =
      some (stored id) := by
    intro id
    rw [recordsOf_orderEvents hclock]
    exact hstored id
  obtain ⟨c, hc⟩ := foldlM_applyEvent_ok hlinked hrun (hunique.congr fun id => (hmark id).logical)
  refine ⟨c, hc, fun id => ?_⟩
  have hsame : c.rows.get? id = stored id :=
    Option.some.inj (((foldlM_applyEvent hlinked hc).2 id).symm.trans (hrun id))
  rw [hsame]
  exact ⟨hmark id, hne id⟩

/-- **The ingest at the end** succeeds if an ingest of the whole segments does,
and leaves its rows and spans. -/
theorem ingest_agrees (hnames : names.Nodup) {st : JournalState} {seen : String → Nat}
    (hst : Consistent rt names st)
    (himported : Imported rt names st) (horderly : Orderly rt names st (.ingest seen)) (hwhole : SeesAll names st seen)
    (hclock : OneClock (st.journalEvents rt names)) (hdistinct : DistinctSpans rt (st.journalEvents rt names))
    (hactive : ∀ row ∈ st.db.outcomes.rows, row.marked → row.clockDomain ≠ st.active.clockDomain)
    (haccepted : Accepted rt names { active := st.active, files := st.files } seen) :
    Accepted rt names st seen ∧
    (∀ id, ((journalStep rt names st (.ingest seen)).db.outcomes.get? id).map OutcomeRow.untimed =
      ((journalStep rt names { active := st.active, files := st.files } (.ingest seen)).db.outcomes.get? id).map
        OutcomeRow.untimed) ∧
    ∀ id, (journalStep rt names st (.ingest seen)).db.spans.get? id =
      (journalStep rt names { active := st.active, files := st.files } (.ingest seen)).db.spans.get? id := by
  -- the ingest of the whole segments
  obtain ⟨r, hr⟩ := accepted_iff.mp haccepted
  have hstart : Consistent rt names { active := st.active, files := st.files } := consistent_start st.active st.files
  have hbegin : Imported rt names { active := st.active, files := st.files } := imported_start st.active st.files
  rcases journalStep_ingest hstart seen with ⟨⟨e, he⟩, -⟩ | ⟨-, hreadable, c, hcollect, hstep⟩
  · have hcontra : Except.ok r = Except.error e := hr.symm.trans he
    cases hcontra
  have hnew : JournalState.newEvents rt names { active := st.active, files := st.files } seen = st.journalEvents rt names :=
    whole_readEvents hstart hwhole
  obtain ⟨hlinked, hrows⟩ := foldlM_applyEvent (linked_linkedRequests hbegin.unique) hcollect
  have hjournal : ∀ id, rowRun none (recordsOf id (st.journalEvents rt names)) = some (c.rows.get? id) := by
    intro id
    have := hrows id
    rw [hnew, recordsOf_orderEvents hclock] at this
    exact this
  -- the ingest of what is left
  have hseenRead : SeenRead rt names st seen := by
    intro n hn
    rw [seenFile_whole hwhole hn]
    exact hst n hn
  have hsub : st.readEvents rt names ++ st.newEvents rt names seen ⊆ st.journalEvents rt names := by
    intro e he
    rw [← whole_readEvents hst hwhole]
    exact (mem_read_append e).mpr he
  have hclockNew : OneClock (st.newEvents rt names seen) := hclock.mono fun e he => hsub (List.mem_append_right _ he)
  obtain ⟨c', hcollect', hmark⟩ := collect_agrees hst himported horderly hwhole hclockNew hlinked.unique hactive hjournal
  have hok := ingest_isOk hseenRead (hreadable.rest hst hwhole) hcollect'
  obtain ⟨r', hr'⟩ := hok
  rcases journalStep_ingest hst seen with ⟨⟨e, he⟩, -⟩ | ⟨-, -, c₁, hcollect₁, hstep'⟩
  · rw [hr'] at he
    cases he
  rw [hcollect'] at hcollect₁
  cases hcollect₁
  refine ⟨accepted_iff.mpr ⟨r', hr'⟩, fun id => ?_, fun id => ?_⟩
  · rw [hstep, hstep', ingested_get? hcollect, ingested_get? hcollect']
    refine (hmark id).1.untimed ?_ (hmark id).2
    exact rowRun_undecided (fun x hx => by cases hx) (fun _ hr => flatMap_eventsOf_terminal (List.mem_filter.mp hr).1)
      (hjournal id)
  · have hspans := ((himported.ingested hnames horderly hclockNew (hdistinct.mono hsub) hcollect').spans)
    have hspans₀ := (hbegin.ingested hnames (orderly_start st.active st.files seen) (hnew ▸ hclock)
      (hdistinct.mono fun e he => by
        rw [List.mem_append, hnew] at he
        exact he.resolve_left fun h => by
          obtain ⟨n, -, hn⟩ := List.mem_flatMap.mp h
          exact absurd hn List.not_mem_nil) hcollect).spans
    rw [ingested_readEvents hnames, whole_readEvents hst hwhole] at hspans
    rw [ingested_readEvents hnames, whole_readEvents hstart hwhole] at hspans₀
    rw [hstep, hstep']
    exact Table.get?_congr (fun x => (hspans x).trans (hspans₀ x).symm) id

end TokenProxy.FrontOutcome
