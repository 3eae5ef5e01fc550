import TokenProxy.FrontOutcome.Reading

/-!
# Applying records clock by clock

The records of an ingest are applied clock by clock. That leaves the order of a request's records if
they carry one clock (`recordsOf_orderEvents`). What is then written are the rows that were
collected (`Written`), and the timing spans of the terminal records (`SpansOf`).
-/

namespace TokenProxy.FrontOutcome

open TokenProxy.Lib

variable {rt : Runtime}

/-! ### The order of the records -/

def groupOf (groups : Table Group.clockDomain) (clock : String) : List Event :=
  ((groups.get? clock).map Group.events).getD []

theorem groupOf_addToGroups (groups : Table Group.clockDomain) (e : Event) (clock : String) :
    groupOf (addToGroups groups e) clock = groupOf groups clock ++ if e.clockDomain = clock then [e] else [] := by
  unfold addToGroups
  cases hget : groups.get? e.clockDomain with
  | some g =>
    have hkey : g.clockDomain = e.clockDomain := Table.get?_key hget
    simp only [groupOf, Table.get?_put]
    by_cases hclock : e.clockDomain = clock
    · rw [if_pos (by rw [← hclock, ← hkey]), if_pos hclock, ← hclock, hget]
      rfl
    · rw [if_neg (by rw [show ({ g with events := g.events ++ [e] } : Group).clockDomain = _ from hkey]; exact Ne.symm hclock),
        if_neg hclock, List.append_nil]
  | none =>
    simp only [groupOf, Table.get?_put]
    by_cases hclock : e.clockDomain = clock
    · rw [if_pos hclock.symm, if_pos hclock, ← hclock, hget]
      rfl
    · rw [if_neg (Ne.symm hclock), if_neg hclock, List.append_nil]

theorem groupOf_foldl (events : List Event) (groups : Table Group.clockDomain) (clock : String) :
    groupOf (events.foldl addToGroups groups) clock =
      groupOf groups clock ++ events.filter fun e => e.clockDomain = clock := by
  induction events generalizing groups with
  | nil => simp
  | cons e events ih =>
    rw [List.foldl_cons, ih, groupOf_addToGroups, List.append_assoc]
    congr 1
    rw [List.filter_cons]
    by_cases hclock : e.clockDomain = clock
    · simp [hclock]
    · simp [hclock]

theorem group_events {events : List Event} {g : Group}
    (h : g ∈ (events.foldl addToGroups .empty).rows) :
    g.events = events.filter fun e => e.clockDomain = g.clockDomain := by
  have := groupOf_foldl events .empty g.clockDomain
  unfold groupOf at this
  rw [Table.get?_of_mem h] at this
  exact this

theorem exists_group {events : List Event} {e : Event} (h : e ∈ events) :
    ∃ g ∈ (events.foldl addToGroups .empty).rows, g.clockDomain = e.clockDomain := by
  have hgroup := groupOf_foldl events .empty e.clockDomain
  have hmem : e ∈ groupOf (events.foldl addToGroups .empty) e.clockDomain := by
    rw [hgroup]
    exact List.mem_append_right _ (List.mem_filter.mpr ⟨h, decide_eq_true rfl⟩)
  unfold groupOf at hmem
  cases hget : (events.foldl addToGroups .empty).get? e.clockDomain with
  | none =>
    rw [hget] at hmem
    exact absurd hmem List.not_mem_nil
  | some g => exact ⟨g, Table.get?_mem hget, Table.get?_key hget⟩

theorem mem_orderEvents {events : List Event}
    {e : Event} : e ∈ orderEvents rt events ↔ e ∈ events := by
  unfold orderEvents
  rw [List.mem_flatMap]
  constructor
  · rintro ⟨g, hg, he⟩
    rw [group_events (mem_sortBy.mp hg)] at he
    exact (List.mem_filter.mp he).1
  · intro he
    obtain ⟨g, hg, hclock⟩ := exists_group he
    refine ⟨g, mem_sortBy.mpr hg, ?_⟩
    rw [group_events hg]
    exact List.mem_filter.mpr ⟨he, decide_eq_true hclock.symm⟩

theorem flatMap_eq_of_unique {α β : Type} {f : α → List β} {l : List α} (hn : l.Nodup) {a : α}
    (ha : a ∈ l) (h : ∀ x ∈ l, x ≠ a → f x = []) : l.flatMap f = f a := by
  induction l with
  | nil => cases ha
  | cons x l ih =>
    rw [List.nodup_cons] at hn
    rw [List.flatMap_cons]
    rcases List.mem_cons.mp ha with rfl | ha
    · have hrest : l.flatMap f = [] := by
        rw [List.flatMap_eq_nil_iff]
        exact fun y hy => h y (List.mem_cons_of_mem _ hy) fun heq => hn.1 (heq ▸ hy)
      rw [hrest, List.append_nil]
    · have hx : x ≠ a := fun heq => hn.1 (heq ▸ ha)
      rw [h x List.mem_cons_self hx, List.nil_append]
      exact ih hn.2 ha fun y hy => h y (List.mem_cons_of_mem _ hy)

def OneClock (events : List Event) : Prop :=
  ∀ e ∈ events, ∀ e' ∈ events, e.frontIngressId.isSome → e'.frontIngressId = e.frontIngressId →
    e.clockDomain = e'.clockDomain

instance (events : List Event) : Decidable (OneClock events) :=
  inferInstanceAs (Decidable (∀ e ∈ events, ∀ e' ∈ events, _))

theorem OneClock.eq {events : List Event} (h : OneClock events) {e e' : Event} (he : e ∈ events)
    (he' : e' ∈ events)
    {id : String} (hid : e.frontIngressId = some id) (hid' : e'.frontIngressId = some id) :
    e.clockDomain = e'.clockDomain :=
  h e he e' he' (by rw [hid]; rfl) (hid'.trans hid.symm)

/-- **A request's records keep their order**, however the clocks are ordered. -/
theorem recordsOf_orderEvents {events : List Event} (h : OneClock events) (id : String) :
    recordsOf id (orderEvents rt events) = recordsOf id events := by
  by_cases hnone : recordsOf id events = []
  · rw [hnone]
    unfold recordsOf at hnone ⊢
    rw [List.filter_eq_nil_iff] at hnone ⊢
    exact fun e he => hnone e (mem_orderEvents.mp he)
  obtain ⟨e, he⟩ := List.exists_mem_of_ne_nil _ hnone
  obtain ⟨he, hid⟩ := List.mem_filter.mp he
  rw [decide_eq_true_eq] at hid
  obtain ⟨g, hg, hclock⟩ := exists_group he
  have hnodup : (sortBy (compareGroups rt) (events.foldl addToGroups .empty).rows).Nodup :=
    (sortBy_perm _ _).nodup_iff.mpr (List.Nodup.of_map _ (events.foldl addToGroups .empty).nodup)
  have hflat : recordsOf id (orderEvents rt events) =
      (sortBy (compareGroups rt) (events.foldl addToGroups .empty).rows).flatMap fun g => recordsOf id g.events := by
    unfold orderEvents recordsOf
    rw [List.filter_flatMap]
  rw [hflat, flatMap_eq_of_unique hnodup (mem_sortBy.mpr hg)]
  · -- the group of the request's clock has all its records
    rw [group_events hg]
    unfold recordsOf
    rw [List.filter_filter]
    refine List.filter_congr fun e' he' => ?_
    rw [Bool.and_eq_left_iff_imp]
    intro hid'
    rw [decide_eq_true_eq] at hid' ⊢
    exact (h.eq he' he hid' hid).trans hclock.symm
  · intro g' hg' hne
    have hg' := mem_sortBy.mp hg'
    unfold recordsOf
    rw [List.filter_eq_nil_iff]
    intro e' he' hid'
    rw [group_events hg'] at he'
    obtain ⟨he', hclock'⟩ := List.mem_filter.mp he'
    rw [decide_eq_true_eq] at hclock' hid'
    refine hne (Table.eq_of_key hg' hg ?_)
    exact hclock'.symm.trans ((h.eq he' he hid' hid).trans hclock.symm)

/-! ### What is written -/

/-- The statements written so far make the rows that were collected. -/
def Written (rt : Runtime) (db : OutcomeDb) (c : Collected) : Prop :=
  (c.operations.foldl (writeOperation rt) db).outcomes = c.rows

theorem Written.applyEvent {db : OutcomeDb} {c c' : Collected} {e : Event}
    (hwritten : Written rt db c) (h : applyEvent c e = .ok c') : Written rt db c' := by
  have hstep : ∀ {rows logical} op, (writeOperation rt (c.operations.foldl (writeOperation rt) db) op).outcomes = rows →
      Written rt db ⟨rows, logical, c.operations ++ [op]⟩ := by
    intro rows logical op hop
    unfold Written
    rw [List.foldl_append]
    exact hop
  unfold Written at hwritten
  cases e with
  | processStart d t =>
    cases h
    exact hwritten
  | start r =>
    simp only [FrontOutcome.applyEvent] at h
    split at h
    · split at h
      · cases h
        exact hwritten
      · cases h
    · split at h
      · split at h
        · cases h
        · cases h
          exact hstep _ (by rw [writeOperation, hwritten])
      · cases h
        exact hstep _ (by rw [writeOperation, hwritten])
  | link r =>
    simp only [FrontOutcome.applyEvent] at h
    split at h
    · cases h
    rename_i current hget
    split at h
    · cases h
    split at h
    · cases h
    split at h
    · cases h
      refine hstep _ ?_
      have hid : current.frontIngressId = r.frontIngressId := Table.get?_key hget
      simp only [writeOperation, hwritten]
      rw [show (current.linked r).frontIngressId = r.frontIngressId from hid, hget]
      rfl
    · cases h
      exact hwritten
  | terminal r =>
    simp only [FrontOutcome.applyEvent] at h
    split at h
    · cases h
    rename_i current hget
    split at h
    · cases h
      refine hstep _ ?_
      have hid : current.frontIngressId = r.frontIngressId := Table.get?_key hget
      simp only [writeOperation, hwritten]
      rw [show (current.ended r).frontIngressId = r.frontIngressId from hid, hget]
      rfl
    · cases h

theorem Written.foldlM {db : OutcomeDb} {c c' : Collected} {events : List Event}
    (hwritten : Written rt db c)
    (h : events.foldlM FrontOutcome.applyEvent c = .ok c') : Written rt db c' := by
  induction events generalizing c with
  | nil =>
    cases h
    exact hwritten
  | cons e events ih =>
    rw [List.foldlM_cons] at h
    obtain ⟨c₁, h₁, h₂⟩ := bind_ok h
    exact ih (hwritten.applyEvent h₁) h₂

/-! ### Timing spans -/

def TerminalRecord.span (rt : Runtime) (r : TerminalRecord)
    (stage : Nat × String × ℚ) : SpanRow where
  id := rt.spanId r.receiptId stage.2.1
  logicalRequestId := r.logicalRequestId
  frontIngressId := r.frontIngressId
  processRole := "front"
  stage := stage.2.1
  ordinal := stage.1
  relation := "sequential"
  clockDomain := r.clockDomain
  durationMs := stage.2.2
  outcome := r.state
  recordedAt := some r.terminalAt
  dataOrigin := r.dataOrigin
  originReceiptId := r.originReceiptId

theorem ended_span {current : OutcomeRow} {r : TerminalRecord} (hended : current.endedBy r)
    (hid : current.frontIngressId = r.frontIngressId) (stage : Nat × String × ℚ) :
    (current.ended r).span rt stage = r.span rt stage := by
  obtain ⟨hlogical, -, hclock, -, horigin, hreceipt⟩ := hended
  unfold OutcomeRow.span TerminalRecord.span OutcomeRow.ended
  simp only [hlogical, hclock, horigin, hreceipt, hid]

/-- The timing spans of a record: those of its stages, if it is a terminal one. -/
def Event.spans (rt : Runtime) : Event → List SpanRow
  | .terminal r => r.stages.map (r.span rt)
  | _ => []

/-- `x` is a span of one of the records. -/
def SpanOf (rt : Runtime) (events : List Event)
    (x : SpanRow) : Prop := x ∈ events.flatMap (Event.spans rt)

def DistinctSpans (rt : Runtime) (events : List Event) : Prop :=
  ∀ x ∈ events.flatMap (Event.spans rt), ∀ y ∈ events.flatMap (Event.spans rt), x.id = y.id → x = y

instance (events : List Event) : Decidable (DistinctSpans rt events) :=
  inferInstanceAs (Decidable (∀ x ∈ events.flatMap (Event.spans rt), ∀ y ∈ events.flatMap (Event.spans rt), _))

def SpansOf (rt : Runtime) (events : List Event) (spans : Table SpanRow.id) : Prop :=
  ∀ x, x ∈ spans.rows ↔ SpanOf rt events x

theorem SpanOf.mono {xs ys : List Event} {x : SpanRow} (hsub : xs ⊆ ys)
    (h : SpanOf rt xs x) : SpanOf rt ys x := by
  obtain ⟨e, he, hx⟩ := List.mem_flatMap.mp h
  exact List.mem_flatMap.mpr ⟨e, hsub he, hx⟩

theorem DistinctSpans.mono {xs ys : List Event} (hsub : xs ⊆ ys)
    (h : DistinctSpans rt ys) : DistinctSpans rt xs :=
  fun x hx y hy => h x (SpanOf.mono hsub hx) y (SpanOf.mono hsub hy)

theorem spanOf_append {xs ys : List Event} {x : SpanRow} :
    SpanOf rt (xs ++ ys) x ↔ SpanOf rt xs x ∨ SpanOf rt ys x := by
  unfold SpanOf
  rw [List.flatMap_append, List.mem_append]

theorem spanOf_singleton {e : Event} {x : SpanRow} : SpanOf rt [e] x ↔ x ∈ e.spans rt := by
  unfold SpanOf
  rw [List.flatMap_singleton]

theorem SpansOf.congr {xs ys : List Event} {spans : Table SpanRow.id} (hsame : ∀ e, e ∈ xs ↔ e ∈ ys)
    (h : SpansOf rt xs spans) : SpansOf rt ys spans := by
  intro x
  rw [h x]
  exact ⟨SpanOf.mono fun e he => (hsame e).mp he, SpanOf.mono fun e he => (hsame e).mpr he⟩

theorem mem_insertSpan {spans : Table SpanRow.id} {s : SpanRow}
    (hs : ∀ x ∈ spans.rows, x.id = s.id → x = s) (x : SpanRow) :
    x ∈ (insertSpan spans s).rows ↔ x ∈ spans.rows ∨ x = s := by
  unfold insertSpan
  split
  · rename_i hsome
    obtain ⟨y, hy⟩ := Option.isSome_iff_exists.mp hsome
    have hmem : s ∈ spans.rows := by
      rw [← hs y (Table.get?_mem hy) (Table.get?_key hy)]
      exact Table.get?_mem hy
    constructor
    · exact Or.inl
    · rintro (hx | rfl)
      · exact hx
      · exact hmem
  · rename_i hnone
    rw [Bool.not_eq_true, Option.isSome_eq_false_iff, Option.isNone_iff_eq_none, Table.get?_eq_none] at hnone
    rw [Table.mem_put]
    constructor
    · rintro (rfl | ⟨hx, -⟩)
      · exact Or.inr rfl
      · exact Or.inl hx
    · rintro (hx | rfl)
      · exact Or.inr ⟨hx, hnone x hx⟩
      · exact Or.inl rfl

theorem mem_foldl_insertSpan (l : List SpanRow) {spans : Table SpanRow.id}
    (hl : ∀ x y, x ∈ spans.rows ∨ x ∈ l → y ∈ spans.rows ∨ y ∈ l → x.id = y.id → x = y) (x : SpanRow) :
    x ∈ (l.foldl insertSpan spans).rows ↔ x ∈ spans.rows ∨ x ∈ l := by
  induction l generalizing spans with
  | nil => simp
  | cons s l ih =>
    have hinsert := mem_insertSpan fun x hx hid => hl x s (Or.inl hx) (Or.inr List.mem_cons_self) hid
    have hmem : ∀ x, (x ∈ (insertSpan spans s).rows ∨ x ∈ l) ↔ x ∈ spans.rows ∨ x ∈ s :: l := by
      intro x
      rw [hinsert x, List.mem_cons, or_assoc]
    rw [List.foldl_cons, ih fun x y hx hy => hl x y ((hmem x).mp hx) ((hmem y).mp hy), hmem x]

theorem spans_applyEvent {db : OutcomeDb} {c c' : Collected} {e : Event}
    (h : applyEvent c e = .ok c')
    {events : List Event} (hdistinct : DistinctSpans rt (events ++ [e]))
    (hspans : SpansOf rt events (c.operations.foldl (writeOperation rt) db).spans) :
    SpansOf rt (events ++ [e]) (c'.operations.foldl (writeOperation rt) db).spans := by
  have hother : e.spans rt = [] → (c'.operations.foldl (writeOperation rt) db).spans =
      (c.operations.foldl (writeOperation rt) db).spans →
      SpansOf rt (events ++ [e]) (c'.operations.foldl (writeOperation rt) db).spans := by
    intro he hsame x
    rw [hsame, hspans x, spanOf_append, spanOf_singleton, he]
    exact ⟨Or.inl, fun h => h.resolve_right List.not_mem_nil⟩
  cases e with
  | processStart d t =>
    cases h
    exact hother rfl rfl
  | start r =>
    simp only [FrontOutcome.applyEvent] at h
    split at h
    · split at h
      · cases h
        exact hother rfl rfl
      · cases h
    · split at h
      · split at h
        · cases h
        · cases h
          exact hother rfl (by rw [List.foldl_append]; rfl)
      · cases h
        exact hother rfl (by rw [List.foldl_append]; rfl)
  | link r =>
    simp only [FrontOutcome.applyEvent] at h
    split at h
    · cases h
    split at h
    · cases h
    split at h
    · cases h
    split at h
    · cases h
      apply hother rfl
      rw [List.foldl_append, List.foldl_cons, List.foldl_nil, writeOperation]
      split <;> rfl
    · cases h
      exact hother rfl rfl
  | terminal r =>
    simp only [FrontOutcome.applyEvent] at h
    split at h
    · cases h
    rename_i current hget
    split at h
    · rename_i hended
      cases h
      have hid : current.frontIngressId = r.frontIngressId := Table.get?_key hget
      have hwrite : ((c.operations ++ [Operation.terminal (current.ended r) r]).foldl (writeOperation rt) db).spans =
          (r.stages.map (r.span rt)).foldl insertSpan (c.operations.foldl (writeOperation rt) db).spans := by
        rw [List.foldl_append, List.foldl_cons, List.foldl_nil, writeOperation,
          show (current.ended r).span rt = r.span rt from funext (ended_span hended hid)]
        split <;> rfl
      have hall : ∀ x, (x ∈ (c.operations.foldl (writeOperation rt) db).spans.rows ∨ x ∈ r.stages.map (r.span rt)) ↔
          SpanOf rt (events ++ [.terminal r]) x := by
        intro x
        rw [hspans x, spanOf_append, spanOf_singleton]
        rfl
      intro x
      rw [hwrite, mem_foldl_insertSpan _ fun x y hx hy => hdistinct x ((hall x).mp hx) y ((hall y).mp hy), hall x]
    · cases h

theorem spans_foldlM {db : OutcomeDb} {c c' : Collected} {events : List Event}
    (h : events.foldlM FrontOutcome.applyEvent c = .ok c') {before : List Event}
    (hdistinct : DistinctSpans rt (before ++ events))
    (hspans : SpansOf rt before (c.operations.foldl (writeOperation rt) db).spans) :
    SpansOf rt (before ++ events) (c'.operations.foldl (writeOperation rt) db).spans := by
  induction events generalizing c before with
  | nil =>
    cases h
    rw [List.append_nil]
    exact hspans
  | cons e events ih =>
    rw [List.foldlM_cons] at h
    obtain ⟨c₁, h₁, h₂⟩ := bind_ok h
    rw [List.append_cons] at hdistinct ⊢
    exact ih h₂ hdistinct (spans_applyEvent h₁ (hdistinct.mono (List.subset_append_left _ _)) hspans)

end TokenProxy.FrontOutcome
