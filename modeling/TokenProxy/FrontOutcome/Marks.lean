import TokenProxy.FrontOutcome.Ingest

/-!
# Interrupted requests

A request that is pending under another clock than the active one is marked as interrupted. The mark
hides that the request is pending: start and terminal records no longer fit, links still do.
`MarkOf` relates the row that the records alone would give to the row in the store; records keep it
(`MarkOf.run`, `MarkOf.run_recorded`), and so does the marking (`MarkOf.interrupt`).
-/

namespace TokenProxy.FrontOutcome

open TokenProxy.Lib

/-- The row was marked as interrupted; a terminal record would have left its durations. -/
def OutcomeRow.marked (row : OutcomeRow) : Bool := row.state = .interrupted && row.endToEndDurationMs = none

def OutcomeRow.untimed (row : OutcomeRow) : OutcomeRow :=
  if row.marked then { row with terminalAt := none, updatedAt := "" } else row

def Event.isLink : Event → Bool
  | .link _ => true
  | _ => false

/-- The stored row is the recorded one, or the recorded one is pending and was marked. -/
def MarkOf (recorded stored : Option OutcomeRow) : Prop :=
  stored = recorded ∨ ∃ row t u, recorded = some row ∧ row.state = .pending ∧
    stored = some { row with state := .interrupted, terminalAt := t, updatedAt := u }

theorem MarkOf.refl (row : Option OutcomeRow) : MarkOf row row := Or.inl rfl

theorem rowStep_link_marked {row : OutcomeRow} {t : Option String} {u : String} {e : Event}
    (he : e.isLink) (hpending : row.state = .pending) :
    (rowStep (some row) e = none ∧
      rowStep (some { row with state := .interrupted, terminalAt := t, updatedAt := u }) e = none) ∨
    ∃ row' u', rowStep (some row) e = some (some row') ∧ row'.state = .pending ∧
      rowStep (some { row with state := .interrupted, terminalAt := t, updatedAt := u }) e =
        some (some { row' with state := .interrupted, terminalAt := t, updatedAt := u' }) := by
  cases e with
  | processStart d t => cases he
  | start r => cases he
  | terminal r => cases he
  | link r =>
    simp only [rowStep]
    by_cases hconflict : (row.logicalRequestId.any fun l => decide (l ≠ r.logicalRequestId)) = true
    · left
      exact ⟨if_pos hconflict, if_pos hconflict⟩
    · right
      rw [if_neg hconflict, if_neg hconflict]
      by_cases hnone : row.logicalRequestId.isNone = true
      · rw [if_pos hnone, if_pos hnone]
        exact ⟨_, r.recordedAt, rfl, hpending, rfl⟩
      · rw [if_neg hnone, if_neg hnone]
        exact ⟨_, u, rfl, hpending, rfl⟩

theorem MarkOf.run {recorded stored recorded' : Option OutcomeRow} {events : List Event}
    (h : MarkOf recorded stored)
    (hlinks : stored ≠ recorded → ∀ e ∈ events, e.isLink) (hrun : rowRun recorded events = some recorded') :
    ∃ stored', rowRun stored events = some stored' ∧ MarkOf recorded' stored' ∧
      (stored = recorded → stored' = recorded') := by
  by_cases hsame : stored = recorded
  · rw [hsame]
    exact ⟨recorded', hrun, MarkOf.refl _, fun _ => rfl⟩
  induction events generalizing recorded stored with
  | nil =>
    cases hrun
    exact ⟨stored, rfl, h, id⟩
  | cons e events ih =>
    obtain ⟨row, t, u, rfl, hpending, rfl⟩ := h.resolve_left hsame
    obtain ⟨he, hrest⟩ := List.forall_mem_cons.mp (hlinks hsame)
    rw [rowRun, List.foldlM_cons] at hrun
    obtain ⟨next, hnext, hrun⟩ := Option.bind_eq_some_iff.mp hrun
    rcases rowStep_link_marked (t := t) (u := u) he hpending with ⟨hnone, -⟩ | ⟨row', u', hrow, hpending', hmarked⟩
    · rw [hnone] at hnext
      cases hnext
    · rw [hrow] at hnext
      cases hnext
      have hne : some { row' with state := .interrupted, terminalAt := t, updatedAt := u' } ≠ some row' := by
        intro heq
        have := congrArg (Option.map OutcomeRow.state) heq
        rw [Option.map_some, Option.map_some, hpending'] at this
        cases this
      obtain ⟨stored', hstored', hmark, -⟩ := ih (Or.inr ⟨row', t, u', rfl, hpending', rfl⟩) (fun _ => hrest) hrun hne
      refine ⟨stored', ?_, hmark, fun heq => absurd heq hsame⟩
      rw [rowRun, List.foldlM_cons, hmarked]
      exact hstored'

theorem MarkOf.run_recorded {recorded stored stored' : Option OutcomeRow} {events : List Event}
    (h : MarkOf recorded stored) (hlinks : stored ≠ recorded → ∀ e ∈ events, e.isLink)
    (hrun : rowRun stored events = some stored') :
    ∃ recorded', rowRun recorded events = some recorded' := by
  by_cases hsame : stored = recorded
  · rw [hsame] at hrun
    exact ⟨stored', hrun⟩
  induction events generalizing recorded stored with
  | nil => exact ⟨recorded, rfl⟩
  | cons e events ih =>
    obtain ⟨row, t, u, rfl, hpending, rfl⟩ := h.resolve_left hsame
    obtain ⟨he, hrest⟩ := List.forall_mem_cons.mp (hlinks hsame)
    rw [rowRun, List.foldlM_cons] at hrun ⊢
    obtain ⟨next, hnext, hrun⟩ := Option.bind_eq_some_iff.mp hrun
    rcases rowStep_link_marked (t := t) (u := u) he hpending with ⟨-, hnone⟩ | ⟨row', u', hrow, hpending', hmarked⟩
    · rw [hnone] at hnext
      cases hnext
    · rw [hmarked] at hnext
      cases hnext
      rw [hrow]
      have hne : some { row' with state := .interrupted, terminalAt := t, updatedAt := u' } ≠ some row' := by
        intro heq
        have := congrArg (Option.map OutcomeRow.state) heq
        rw [Option.map_some, Option.map_some, hpending'] at this
        cases this
      exact ih (Or.inr ⟨row', t, u', rfl, hpending', rfl⟩) (fun _ => hrest) hrun hne

theorem rowStep_clock {current : OutcomeRow} {current' : Option OutcomeRow} {e : Event}
    (h : rowStep (some current) e = some current') :
    ∃ row, current' = some row ∧ row.clockDomain = current.clockDomain := by
  cases e with
  | processStart d t =>
    cases h
    exact ⟨current, rfl, rfl⟩
  | start r =>
    simp only [rowStep] at h
    split at h
    · cases h
      exact ⟨current, rfl, rfl⟩
    · cases h
  | link r =>
    simp only [rowStep] at h
    split at h
    · cases h
    split at h
    · cases h
      exact ⟨_, rfl, rfl⟩
    · cases h
      exact ⟨current, rfl, rfl⟩
  | terminal r =>
    simp only [rowStep] at h
    split at h
    · cases h
      exact ⟨_, rfl, rfl⟩
    · cases h

theorem rowRun_clock {current : OutcomeRow} {current' : Option OutcomeRow} {events : List Event}
    (h : rowRun (some current) events = some current') :
    ∃ row, current' = some row ∧ row.clockDomain = current.clockDomain := by
  induction events generalizing current with
  | nil =>
    cases h
    exact ⟨current, rfl, rfl⟩
  | cons e events ih =>
    rw [rowRun, List.foldlM_cons] at h
    obtain ⟨next, hnext, hrest⟩ := Option.bind_eq_some_iff.mp h
    obtain ⟨row, rfl, hrow⟩ := rowStep_clock hnext
    obtain ⟨last, hlast, hclock⟩ := ih hrest
    exact ⟨last, hlast, hclock.trans hrow⟩

def Undecided (row : Option OutcomeRow) : Prop := ∀ x ∈ row, x.state = .pending → x.endToEndDurationMs = none

theorem rowStep_undecided {current current' : Option OutcomeRow} {e : Event}
    (hcurrent : Undecided current)
    (he : ∀ r, e = .terminal r → r.state ≠ .pending) (h : rowStep current e = some current') :
    Undecided current' := by
  cases e with
  | processStart d t =>
    cases current with
    | none =>
      cases h
      exact hcurrent
    | some current =>
      cases h
      exact hcurrent
  | start r =>
    cases current with
    | none =>
      cases h
      rintro x ⟨⟩ -
      rfl
    | some current =>
      simp only [rowStep] at h
      split at h
      · cases h
        exact hcurrent
      · cases h
  | link r =>
    cases current with
    | none => cases h
    | some current =>
      simp only [rowStep] at h
      split at h
      · cases h
      split at h
      · cases h
        rintro x ⟨⟩ hpending
        exact hcurrent current rfl hpending
      · cases h
        exact hcurrent
  | terminal r =>
    cases current with
    | none => cases h
    | some current =>
      simp only [rowStep] at h
      split at h
      · cases h
        rintro x ⟨⟩ hpending
        exact absurd hpending (he r rfl)
      · cases h

theorem rowRun_undecided {current current' : Option OutcomeRow} {events : List Event}
    (hcurrent : Undecided current)
    (hevents : ∀ r, .terminal r ∈ events → r.state ≠ .pending) (h : rowRun current events = some current') :
    Undecided current' := by
  induction events generalizing current with
  | nil =>
    cases h
    exact hcurrent
  | cons e events ih =>
    rw [rowRun, List.foldlM_cons] at h
    obtain ⟨next, hnext, hrest⟩ := Option.bind_eq_some_iff.mp h
    refine ih (rowStep_undecided hcurrent ?_ hnext) (fun r hr => hevents r (List.mem_cons_of_mem _ hr)) hrest
    intro r hr
    exact hevents r (hr ▸ List.mem_cons_self)

/-! ### Marking -/

theorem OutcomeRow.interrupt_logical (active : ActiveClock) (row : OutcomeRow) :
    (row.interrupt active).logicalRequestId = row.logicalRequestId := by
  unfold OutcomeRow.interrupt
  split <;> rfl

theorem OutcomeRow.interrupt_of_ne {active : ActiveClock} {row : OutcomeRow}
    (h : row.state ≠ .pending) :
    row.interrupt active = row := by
  unfold OutcomeRow.interrupt OutcomeRow.outlived
  rw [if_neg]
  simp [h]

theorem OutcomeRow.interrupt_interrupted (active : ActiveClock) (row : OutcomeRow)
    (t : Option String) (u : String) :
    OutcomeRow.interrupt active { row with state := .interrupted, terminalAt := t, updatedAt := u } =
      { row with state := .interrupted, terminalAt := t, updatedAt := u } :=
  interrupt_of_ne (show OutcomeState.interrupted ≠ .pending by decide)

theorem MarkOf.interrupt {recorded stored : Option OutcomeRow} (h : MarkOf recorded stored)
    (active : ActiveClock) :
    MarkOf recorded (stored.map (OutcomeRow.interrupt active)) := by
  rcases h with rfl | ⟨row, t, u, rfl, hpending, rfl⟩
  · cases stored with
    | none => exact MarkOf.refl none
    | some row =>
      by_cases houtlived : row.outlived active = true
      · have hpending : row.state = .pending := by
          unfold OutcomeRow.outlived at houtlived
          rw [Bool.and_eq_true, decide_eq_true_eq] at houtlived
          exact houtlived.1
        refine Or.inr ⟨row, some active.recordedAt, active.recordedAt, rfl, hpending, ?_⟩
        rw [Option.map_some, OutcomeRow.interrupt, if_pos houtlived]
      · left
        rw [Option.map_some, OutcomeRow.interrupt, if_neg houtlived]
  · refine Or.inr ⟨row, t, u, rfl, hpending, ?_⟩
    rw [Option.map_some, OutcomeRow.interrupt_interrupted]

theorem MarkOf.logical {recorded stored : Option OutcomeRow} (h : MarkOf recorded stored) :
    stored.bind OutcomeRow.logicalRequestId = recorded.bind OutcomeRow.logicalRequestId := by
  rcases h with rfl | ⟨row, t, u, rfl, -, rfl⟩
  · rfl
  · rfl

/-- **The mark is made in the end**, whether it was made before or not: then the rows
differ in their times alone. -/
theorem MarkOf.untimed {recorded stored : Option OutcomeRow} (h : MarkOf recorded stored)
    (hundecided : Undecided recorded)
    {active : ActiveClock} (hclock : stored ≠ recorded → ∀ row ∈ stored, row.clockDomain ≠ active.clockDomain) :
    (stored.map (OutcomeRow.interrupt active)).map OutcomeRow.untimed =
      (recorded.map (OutcomeRow.interrupt active)).map OutcomeRow.untimed := by
  by_cases hsame : stored = recorded
  · rw [hsame]
  obtain ⟨row, t, u, rfl, hpending, rfl⟩ := h.resolve_left hsame
  have hne : row.clockDomain ≠ active.clockDomain :=
    hclock hsame { row with state := .interrupted, terminalAt := t, updatedAt := u } rfl
  have hend : row.endToEndDurationMs = none := hundecided row rfl hpending
  have houtlived : row.outlived active = true := by
    unfold OutcomeRow.outlived
    rw [Bool.and_eq_true, decide_eq_true_eq, decide_eq_true_eq]
    exact ⟨hpending, hne⟩
  have hmarked : ∀ t u, ({ row with state := .interrupted, terminalAt := t, updatedAt := u } : OutcomeRow).marked = true := by
    intro t u
    unfold OutcomeRow.marked
    rw [Bool.and_eq_true, decide_eq_true_eq, decide_eq_true_eq]
    exact ⟨rfl, hend⟩
  simp only [Option.map_some]
  rw [OutcomeRow.interrupt_interrupted, OutcomeRow.interrupt, if_pos houtlived]
  unfold OutcomeRow.untimed
  rw [if_pos (hmarked _ _), if_pos (hmarked _ _)]

end TokenProxy.FrontOutcome
