import TokenProxy.Critical.Controller
import TokenProxy.Critical.Safety

/-!
# What a critical transaction reports

The program of `criticalTransaction` is followed with one assertion for each place in it:

* `Ready` before `BEGIN`, `Opened` in the transaction, `Sealed` once the marker is written, `Done`
  after `COMMIT`;
* `Broken` where it throws.

The handler, the restoration of the mode and the receipt then decide what is reported. A callback
cannot leave the transaction: `runBody_active` says what it may do while a critical transaction is
active, and that every call of the controller in it is refused.
-/

namespace TokenProxy.Critical

open TokenProxy.Lib TokenProxy.Lib.Attempt

variable {β : Type} {criticalAckDigest : Document → String} {isInTransaction : Bool}

def Thrown.commitState : Thrown → Option CommitState
  | .thrown _ => none
  | .critical e => e.commitState

inductive Report where
  | returned
  | rolledBack
  | committed
  | unknown
  deriving DecidableEq

def reported : Except Thrown Nat → Report
  | .ok _ => .returned
  | .error e =>
    match e.commitState with
    | some .committed => .committed
    | some .uncertain => .unknown
    | _ => .rolledBack

/-- No critical transaction is entered inside another one; `inside` says whether one is active. -/
def flat : Bool → List Mark → Bool
  | inside, [] => !inside
  | inside, .enter :: log => !inside && flat true log
  | inside, .leave :: log => inside && flat false log
  | inside, .committed :: log => flat inside log
  | inside, .rolledBack :: log => flat inside log
  | inside, .acknowledged _ :: log => flat inside log

theorem flat_append {log log' : List Mark} {inside : Bool} (h : flat inside log = true)
    (h' : flat false log' = true) :
    flat inside (log ++ log') = true := by
  induction log generalizing inside with
  | nil =>
    cases inside with
    | true => cases h
    | false => exact h'
  | cons m log ih =>
    cases m with
    | enter =>
      simp only [flat, List.cons_append, Bool.and_eq_true] at h ⊢
      exact ⟨h.1, ih h.2⟩
    | leave =>
      simp only [flat, List.cons_append, Bool.and_eq_true] at h ⊢
      exact ⟨h.1, ih h.2⟩
    | committed | rolledBack | acknowledged => exact ih h

/-! ### Callbacks -/

section callbacks

variable {c c' : Controller β}

/-- What a callback may do while a critical transaction is active: it stays in
the transaction, or loses it. -/
structure Sheltered (c c' : Controller β) : Prop where
  active : c'.criticalActive = true
  depth : c'.transactionDepth = c.transactionDepth
  mode : c'.mode = c.mode
  journal : c'.journal = c.journal
  log : c'.log = c.log
  db : c'.tx.isSome = true → c.tx.isSome = true ∧ c'.db = c.db

theorem Sheltered.refl (h : c.criticalActive = true) : Sheltered c c := ⟨h, rfl, rfl, rfl, rfl, fun htx => ⟨htx, rfl⟩⟩

theorem Sheltered.trans {c'' : Controller β} (h : Sheltered c c')
    (h' : Sheltered c' c'') : Sheltered c c'' where
  active := h'.active
  depth := h'.depth.trans h.depth
  mode := h'.mode.trans h.mode
  journal := h'.journal.trans h.journal
  log := h'.log.trans h.log
  db htx := ⟨(h.db (h'.db htx).1).1, (h'.db htx).2.trans (h.db (h'.db htx).1).2⟩

theorem Sheltered.put (h : c.criticalActive = true) (db : Database β) (changes : Nat) :
    Sheltered c { c.put db with changes } := by
  unfold Controller.put
  cases htx : c.tx with
  | some v => exact ⟨h, rfl, rfl, rfl, rfl, fun _ => ⟨by rw [htx]; rfl, rfl⟩⟩
  | none => exact ⟨h, rfl, rfl, rfl, rfl, nofun⟩

theorem criticalTransaction_active {faults : Faults}
    {body : Controller β → Controller β × Except Thrown (Nat × Bool)}
    (h : c.criticalActive = true) :
    ∃ e, criticalTransaction criticalAckDigest isInTransaction faults body c = (c, .error e) ∧ e.commitState = none := by
  have hrefuse : ∃ e, refuseCall isInTransaction faults c = some e ∧ e.commitState = none := by
    unfold refuseCall
    split
    · exact ⟨_, rfl, rfl⟩
    · rw [if_pos (Or.inl h)]
      exact ⟨_, rfl, rfl⟩
  obtain ⟨e, he, hstate⟩ := hrefuse
  refine ⟨e, ?_, hstate⟩
  unfold criticalTransaction
  rw [he]

/-- **A callback** of an active critical transaction. -/
theorem runBody_active (body : Body β) (h : c.criticalActive = true) :
    Sheltered c (runBody criticalAckDigest isInTransaction body c).1 ∧
      ∀ e, (runBody criticalAckDigest isInTransaction body c).2 = .error e → e.commitState = none := by
  induction body generalizing c with
  | ret result thenable => exact ⟨Sheltered.refl h, nofun⟩
  | raise truthy =>
    refine ⟨Sheltered.refl h, fun e he => ?_⟩
    cases he
    rfl
  | write rows changes next ih =>
    have hput := Sheltered.put h { c.view with rows := rows c.view.rows } (c.changes + changes)
    obtain ⟨hnext, herror⟩ := ih hput.active
    exact ⟨hput.trans hnext, herror⟩
  | abandon next ih =>
    have hdrop : Sheltered c { c with tx := none } := ⟨h, rfl, rfl, rfl, rfl, nofun⟩
    obtain ⟨hnext, herror⟩ := ih hdrop.active
    exact ⟨hdrop.trans hnext, herror⟩
  | transaction inner commit caught next _ ih =>
    have hnested : c.transaction commit (runBody criticalAckDigest isInTransaction inner) =
        (c, .error (criticalError "CRITICAL_TRANSACTION_NESTED" none)) := if_pos h
    simp only [runBody, hnested]
    cases caught with
    | true => exact ih h
    | false =>
      refine ⟨Sheltered.refl h, fun e he => ?_⟩
      cases he
      rfl
  | critical inner faults caught next _ ih =>
    obtain ⟨e, hnested, hstate⟩ := @criticalTransaction_active β criticalAckDigest isInTransaction c faults
      (runBody criticalAckDigest isInTransaction inner) h
    simp only [runBody, hnested]
    cases caught with
    | true => exact ih h
    | false =>
      refine ⟨Sheltered.refl h, fun e' he => ?_⟩
      cases he
      exact hstate

end callbacks

/-! ### The `try` block -/

section block

variable {c : Controller β} {faults : Faults}

/-- What holds everywhere in a call on the controller `c`. -/
structure Entered (c : Controller β) (s : Call β) : Prop where
  previousMode : s.previousMode = c.mode
  active : s.controller.criticalActive = true
  depth : s.controller.transactionDepth = c.transactionDepth

def ModeKept (c : Controller β) (s : Call β) : Prop := s.modeChanged = false → s.controller.mode = c.mode

/-- Before `BEGIN`. -/
structure Ready (c : Controller β) (s : Call β) : Prop extends Entered c s where
  mode : ModeKept c s
  closed : s.transactionOpen = false
  status : s.status = .ended .notStarted
  db : s.controller.db = c.db
  tx : s.controller.tx = c.tx
  log : s.controller.log = c.log ++ [Mark.enter]
  unprepared : s.acknowledgment = none

structure Inside (c : Controller β) (s : Call β) : Prop extends Entered c s where
  outermost : c.tx = none
  mode : ModeKept c s
  opened : s.transactionOpen = true
  status : s.status = .open_
  db : s.controller.tx.isSome = true → s.controller.db = c.db
  log : s.controller.log = c.log ++ [Mark.enter]

structure Unmarked (c : Controller β) (s : Call β) : Prop extends Inside c s where
  unmarked : ∀ a, s.acknowledgment = some a → a.marker = none

structure Sealed (c : Controller β) (s : Call β) : Prop extends Inside c s where
  marked : ∃ a m, s.acknowledgment = some a ∧ a.marker = some m ∧ m ∈ s.controller.view.markers

/-- After `COMMIT`. -/
structure Done (c : Controller β) (s : Call β) : Prop extends Entered c s where
  outermost : c.tx = none
  mode : ModeKept c s
  tx : s.controller.tx = none
  log : s.controller.log = c.log ++ [Mark.enter, .committed]
  marked : ∃ a m, s.acknowledgment = some a ∧ a.marker = some m ∧ m ∈ s.controller.db.markers

structure Broken (c : Controller β) (e : Thrown) (s : Call β) : Prop extends Entered c s where
  log : s.controller.log = c.log ++ [Mark.enter]
  commitState : e.commitState = none
  /-- a value that counts as no failure is thrown by the callback only -/
  unmarked : e.truthy = false → ∀ a, s.acknowledgment = some a → a.marker = none
  place : (s.transactionOpen = false ∧ s.status = .ended .notStarted ∧ s.controller.db = c.db ∧ s.controller.tx = c.tx) ∨
    (s.transactionOpen = true ∧ c.tx = none ∧ (s.controller.tx.isSome = true → s.controller.db = c.db))

theorem Ready.broken {s : Call β} {e : Thrown} (h : Ready c s) (he : e.commitState = none)
    (ht : e.truthy = true) :
    Broken c e s where
  toEntered := h.toEntered
  log := h.log
  commitState := he
  unmarked hf := by rw [ht] at hf; cases hf
  place := Or.inl ⟨h.closed, h.status, h.db, h.tx⟩

theorem Inside.broken {s : Call β} {e : Thrown} (h : Inside c s) (he : e.commitState = none)
    (hmarker : e.truthy = false → ∀ a, s.acknowledgment = some a → a.marker = none) : Broken c e s where
  toEntered := h.toEntered
  log := h.log
  commitState := he
  unmarked := hmarker
  place := Or.inr ⟨h.opened, h.outermost, h.db⟩

theorem raiseMode_spec : Triple (Ready c) (Call.raiseMode faults) (fun _ => Ready c) (Broken c) := by
  intro s h
  unfold Call.raiseMode
  split
  · exact h
  · unfold Call.setMode
    cases faults.raise with
    | none =>
      exact ⟨⟨h.previousMode, h.active, h.depth⟩, nofun, h.closed, h.status, h.db, h.tx, h.log, h.unprepared⟩
    | ignored =>
      exact ⟨⟨h.previousMode, h.active, h.depth⟩, nofun, h.closed, h.status, h.db, h.tx, h.log, h.unprepared⟩
    | threw applied =>
      cases applied with
      | false => exact h.broken rfl rfl
      | true =>
        exact ⟨⟨h.previousMode, h.active, h.depth⟩, h.log, rfl, nofun, Or.inl ⟨h.closed, h.status, h.db, h.tx⟩⟩

theorem readMode_error {s : Call β} {fault : Bool} {e : Thrown} (h : s.readMode fault = .error e) :
    e.commitState = none ∧ e.truthy = true := by
  unfold Call.readMode at h
  split at h
  · cases h
    exact ⟨rfl, rfl⟩
  · cases h

theorem verifyMode_spec : Triple (Ready c) (Call.verifyMode faults) (fun _ => Ready c) (Broken c) := by
  intro s h
  unfold Call.verifyMode
  cases hread : s.readMode faults.verifyMode with
  | error e =>
    obtain ⟨hstate, htruthy⟩ := readMode_error hread
    exact h.broken hstate htruthy
  | ok mode =>
    by_cases hmode : mode = s.requiredMode
    · simp only [if_pos hmode]
      exact h
    · simp only [if_neg hmode]
      exact h.broken rfl rfl

theorem beginImmediate_spec : Triple (Ready c) (Call.beginImmediate faults) (fun _ => Unmarked c) (Broken c) := by
  intro s h
  unfold Call.beginImmediate
  split
  · exact h.broken rfl rfl
  · rename_i hfree
    simp only [not_or, Bool.not_eq_true, Option.isSome_eq_false_iff, Option.isNone_iff_eq_none] at hfree
    refine ⟨⟨⟨h.previousMode, h.active, h.depth⟩, h.tx ▸ hfree.2, h.mode, rfl, rfl, fun _ => h.db,
      h.log⟩, fun a ha => ?_⟩
    rw [show s.acknowledgment = none from h.unprepared] at ha
    cases ha

theorem Inside.put {s : Call β} (h : Inside c s) (db : Database β) :
    Inside c { s with controller := s.controller.put db } := by
  unfold Controller.put
  cases htx : s.controller.tx with
  | some v => exact ⟨⟨h.previousMode, h.active, h.depth⟩, h.outermost, h.mode, h.opened, h.status,
      fun _ => h.db (by rw [htx]; rfl), h.log⟩
  | none => exact ⟨⟨h.previousMode, h.active, h.depth⟩, h.outermost, h.mode, h.opened, h.status,
      nofun, h.log⟩

theorem view_put {d : Controller β} {db : Database β} : (d.put db).view = db := by
  unfold Controller.put Controller.view
  cases htx : d.tx with
  | some v => rfl
  | none => rfl

theorem prepare_spec : Triple (Unmarked c) (Call.prepare criticalAckDigest faults) (fun _ => Unmarked c) (Broken c) := by
  intro s h
  unfold Call.prepare
  split
  · exact ⟨⟨h.previousMode, h.active, h.depth⟩, h.log, rfl, nofun, Or.inr ⟨h.opened, h.outermost, h.db⟩⟩
  · rename_i journal db intent heq
    have hput := h.toInside.put db
    refine ⟨⟨⟨hput.previousMode, hput.active, hput.depth⟩, hput.outermost, hput.mode, hput.opened,
      hput.status, hput.db, hput.log⟩, fun a ha => ?_⟩
    cases ha
    rfl

theorem callback_spec (body : Body β) : Triple (Unmarked c)
    (Call.callback (runBody criticalAckDigest isInTransaction body)) (fun _ => Unmarked c) (Broken c) := by
  intro s h
  have hbody := @runBody_active β criticalAckDigest isInTransaction s.controller body h.active
  unfold Call.callback
  rcases hrun : runBody criticalAckDigest isInTransaction body s.controller with ⟨d, e | a⟩
  · rw [hrun] at hbody
    obtain ⟨hs, herror⟩ := hbody
    exact ⟨⟨h.previousMode, hs.active, hs.depth.trans h.depth⟩, hs.log.trans h.log, herror e rfl, fun _ => h.unmarked,
      Or.inr ⟨h.opened, h.outermost, fun htx => (hs.db htx).2.trans (h.db (hs.db htx).1)⟩⟩
  · rw [hrun] at hbody
    obtain ⟨hs, -⟩ := hbody
    exact ⟨⟨⟨h.previousMode, hs.active, hs.depth.trans h.depth⟩, h.outermost,
      fun hm => hs.mode.trans (h.mode hm), h.opened,
      h.status, fun htx => (hs.db htx).2.trans (h.db (hs.db htx).1), hs.log.trans h.log⟩, h.unmarked⟩

theorem refuseThenable_spec {thenable : Bool} :
    Triple (Unmarked c) (Call.refuseThenable thenable) (fun _ => Unmarked c) (Broken c) := by
  intro s h
  cases thenable with
  | false => exact h
  | true => exact h.toInside.broken rfl fun _ => h.unmarked

theorem insertMarker_markers {db db' : Database β} {marker : Marker}
    (h : insertMarker db marker = .ok db') :
    marker ∈ db'.markers := by
  unfold insertMarker at h
  split at h
  · cases h
  · cases h
    exact List.mem_append_right _ List.mem_cons_self

theorem advanceState_markers {db db' : Database β} {marker : Marker}
    (h : advanceState db marker = .ok db') :
    db'.markers = db.markers := by
  unfold advanceState at h
  split at h
  · cases h
  · split at h
    · cases h
      rfl
    · cases h

theorem mark_spec : Triple (Unmarked c) (Call.mark criticalAckDigest faults) (fun _ => Sealed c) (Broken c) := by
  intro s h
  unfold Call.mark
  cases hack : s.acknowledgment with
  | none => exact h.toInside.broken rfl (nomatch ·)
  | some ack =>
    simp only
    split
    · rename_i db _ hinsert _
      have hput := h.toInside.put db
      split
      · rename_i db' hadvance _
        have hput' := hput.put db'
        refine ⟨⟨⟨hput'.previousMode, hput'.active, hput'.depth⟩, hput'.outermost, hput'.mode,
          hput'.opened, hput'.status, hput'.db, hput'.log⟩, _, _, rfl, rfl, ?_⟩
        show _ ∈ (Controller.put (s.controller.put db) db').view.markers
        rw [view_put, advanceState_markers hadvance, view_put]
        exact insertMarker_markers hinsert
      · exact ⟨⟨hput.previousMode, hput.active, hput.depth⟩, hput.log, rfl, (nomatch ·),
          Or.inr ⟨hput.opened, hput.outermost, hput.db⟩⟩
    · exact h.toInside.broken rfl (nomatch ·)

theorem commit_spec : Triple (Sealed c) (Call.commit faults) (fun _ => Done c) (Broken c) := by
  intro s h
  unfold Call.commit
  obtain ⟨a, m, hack, hmarker, hmem⟩ := h.marked
  split
  · exact h.toInside.broken rfl (nomatch ·)
  · rename_i db htx _
    refine ⟨⟨h.previousMode, h.active, h.depth⟩, h.outermost, h.mode, rfl, ?_, a, m, hack, hmarker, ?_⟩
    · show s.controller.log ++ [Mark.committed] = _
      rw [h.log, List.append_assoc]
      rfl
    · rw [Controller.view, htx] at hmem
      exact hmem
  · exact h.toInside.broken rfl (nomatch ·)
  · exact ⟨⟨h.previousMode, h.active, h.depth⟩, h.log, rfl, nofun, Or.inr ⟨h.opened, h.outermost, nofun⟩⟩
  · exact ⟨⟨h.previousMode, h.active, h.depth⟩, h.log, rfl, nofun, Or.inr ⟨h.opened, h.outermost, nofun⟩⟩

/-- **The block** ends after `COMMIT`, or throws before or in it. -/
theorem attempt_spec (body : Body β) : Triple (Ready c)
    (Call.attempt criticalAckDigest faults (runBody criticalAckDigest isInTransaction body)) (fun _ => Done c) (Broken c) := by
  unfold Call.attempt
  apply triple_bind raiseMode_spec
  intro _
  apply triple_bind verifyMode_spec
  intro _
  apply triple_bind beginImmediate_spec
  intro _
  apply triple_bind prepare_spec
  intro _
  apply triple_bind (callback_spec body)
  rintro ⟨result, thenable⟩
  apply triple_bind refuseThenable_spec
  intro _
  apply triple_bind mark_spec
  intro _
  apply triple_bind commit_spec
  intro _
  exact triple_pure fun _ h => h

end block

/-! ### The handlers -/

section handlers

variable {c : Controller β} {faults : Faults}

/-- After the `catch` block: the failure and the state it reports. -/
structure Handled (c : Controller β) (s : Call β) (failure : Thrown)
    (commitState : CommitState) : Prop
    extends Entered c s where
  uncommitted : commitState ≠ .committed
  unmarked : failure.truthy = false → ∀ a, s.acknowledgment = some a → a.marker = none
  confirmed : commitState ≠ .uncertain → failure.commitState = none
  unconfirmed : commitState = .uncertain → ∃ code, failure = criticalError code (some .uncertain)
  log : s.controller.log = c.log ++ Mark.enter :: if commitState = .rolledBack then [Mark.rolledBack] else []
  database : commitState ≠ .uncertain → s.controller.db = c.db ∧ s.controller.tx = c.tx

theorem handle_spec {s : Call β} {e : Thrown} (h : Broken c e s)
    (hfree : isInTransaction = true → c.tx = none) :
    match s.handle isInTransaction faults e with
    | (s', failure, commitState) => Handled c s' failure commitState := by
  unfold Call.handle
  rcases h.place with ⟨hopen, hstatus, hdb, htx⟩ | ⟨hopen, houter, hdb⟩
  · have hskip : ¬ (s.transactionOpen = true ∨ isInTransaction = true ∧ s.controller.tx.isSome = true) := by
      rintro (hopen' | ⟨hsees, hsome⟩)
      · rw [hopen] at hopen'
        cases hopen'
      · rw [htx, hfree hsees] at hsome
        cases hsome
    rw [if_neg hskip, hstatus]
    exact ⟨h.toEntered, nofun, h.unmarked, fun _ => h.commitState, nofun, h.log, fun _ => ⟨hdb, htx⟩⟩
  · rw [if_pos (Or.inl hopen)]
    unfold Call.rollback
    cases htx : s.controller.tx with
    | none => exact ⟨h.toEntered, nofun, nofun, nofun, fun _ => ⟨_, rfl⟩, h.log, nofun⟩
    | some db =>
      cases faults.rollback with
      | none =>
        refine ⟨⟨h.previousMode, h.active, h.depth⟩, nofun, h.unmarked, fun _ => h.commitState, nofun, ?_,
          fun _ => ⟨?_, ?_⟩⟩
        · show s.controller.log ++ [Mark.rolledBack] = _
          rw [h.log, List.append_assoc]
          rfl
        · exact hdb (by rw [htx]; rfl)
        · exact houter.symm
      | refused => exact ⟨h.toEntered, nofun, nofun, nofun, fun _ => ⟨_, rfl⟩, h.log, nofun⟩
      | lost =>
        exact ⟨⟨h.previousMode, h.active, h.depth⟩, nofun, nofun, nofun, fun _ => ⟨_, rfl⟩, h.log, nofun⟩

def restoreFailed (commitState : CommitState) : Thrown :=
  criticalError "CRITICAL_TRANSACTION_RESTORE_FAILED" (some commitState)

/-- **The restoration** changes nothing but the mode, and is a failure if it is not
confirmed and the only one. -/
theorem restoreMode_spec (s : Call β) (commitState : CommitState) (failure : Option Thrown) :
    ∃ mode, (s.restoreMode faults commitState failure).1 = { s with controller := { s.controller with mode } } ∧
      (((s.restoreMode faults commitState failure).2 = failure ∧
          (failure = none → mode = if s.modeChanged then s.previousMode else s.controller.mode)) ∨
        (failure.any Thrown.truthy = false ∧
          (s.restoreMode faults commitState failure).2 = some (restoreFailed commitState))) := by
  have hfailed : ∀ mode, (if failure.any Thrown.truthy = true then failure else some (restoreFailed commitState)) = failure ∧
      (failure = none → mode = if s.modeChanged then s.previousMode else s.controller.mode) ∨
      (failure.any Thrown.truthy = false ∧
        (if failure.any Thrown.truthy = true then failure else some (restoreFailed commitState)) =
          some (restoreFailed commitState)) := by
    intro mode
    by_cases ht : failure.any Thrown.truthy = true
    · left
      refine ⟨if_pos ht, fun hnone => ?_⟩
      rw [hnone] at ht
      cases ht
    · right
      exact ⟨by simpa using ht, if_neg ht⟩
  have hread : ∀ s' : Call β, s'.readMode faults.rereadMode = .ok s.previousMode → s'.controller.mode = s.previousMode := by
    intro s' hok
    unfold Call.readMode at hok
    split at hok
    · cases hok
    · exact Except.ok.inj hok
  unfold Call.restoreMode
  by_cases hchanged : s.modeChanged = true
  · simp only [if_pos hchanged]
    unfold Call.setMode
    cases faults.restore with
    | none =>
      simp only
      split
      · rename_i s' heq
        obtain ⟨rfl, hok⟩ := Prod.mk.inj heq
        refine ⟨s.previousMode, rfl, Or.inl ⟨rfl, fun _ => rfl⟩⟩
      · rename_i s' heq
        obtain ⟨rfl, -⟩ := Prod.mk.inj heq
        have hf := hfailed s.previousMode
        rw [if_pos hchanged] at hf
        exact ⟨s.previousMode, rfl, hf⟩
    | ignored =>
      simp only
      split
      · rename_i s' heq
        obtain ⟨rfl, hok⟩ := Prod.mk.inj heq
        refine ⟨s.controller.mode, rfl, Or.inl ⟨rfl, fun _ => hread s (by simpa using hok)⟩⟩
      · rename_i s' heq
        obtain ⟨rfl, -⟩ := Prod.mk.inj heq
        have hf := hfailed s.controller.mode
        rw [if_pos hchanged] at hf
        exact ⟨s.controller.mode, rfl, hf⟩
    | threw applied =>
      cases applied with
      | true =>
        have hf := hfailed s.previousMode
        rw [if_pos hchanged] at hf
        exact ⟨s.previousMode, rfl, hf⟩
      | false =>
        have hf := hfailed s.controller.mode
        rw [if_pos hchanged] at hf
        exact ⟨s.controller.mode, rfl, hf⟩
  · simp only [if_neg hchanged]
    exact ⟨s.controller.mode, rfl, Or.inl ⟨trivial, fun _ => rfl⟩⟩

theorem publishRow_ok {ρ κ : Type} [DecidableEq κ] {key : ρ → κ} {document : ρ → Document}
    {files files' : Table key} {record : ρ} {fault : PublishFault}
    (h : publishRow criticalAckDigest document files record fault = (files', .ok ())) :
    (files'.get? (key record)).isSome = true := by
  unfold publishRow publish at h
  cases hf : files.get? (key record) with
  | some old =>
    rw [hf] at h
    obtain ⟨rfl, -⟩ := Prod.mk.inj h
    rw [hf]
    rfl
  | none =>
    rw [hf] at h
    cases fault with
    | none =>
      obtain ⟨rfl, -⟩ := Prod.mk.inj h
      rw [files.get?_put_self record]
      rfl
    | unpublished => cases h
    | published => cases h

theorem acknowledge_unmarked {s : Call β} (h : ∀ a, s.acknowledgment = some a → a.marker = none) :
    s.acknowledge criticalAckDigest faults = (s, .error (.thrown true)) := by
  unfold Call.acknowledge
  split
  · rename_i intent changesBefore marker hack
    have hnone := h _ hack
    cases hnone
  · rfl

/-- **The receipt** of a committed transaction. -/
theorem conclude_committed {s : Call β} {result : Nat} {failure : Option Thrown}
    (h : ∃ a m, s.acknowledgment = some a ∧ a.marker = some m ∧ m ∈ s.controller.db.markers)
    (hfailure : failure = none ∨ failure = some (restoreFailed .committed)) :
    ∃ journal notes, (s.conclude criticalAckDigest faults .committed result failure).1.controller =
        { s.controller with journal, log := s.controller.log ++ notes } ∧
      (((s.conclude criticalAckDigest faults .committed result failure).2 = .ok result ∧ failure = none ∧
          ∃ m, notes = [.acknowledged m] ∧ m ∈ s.controller.db.markers ∧ (journal.receipts.get? m.sequence).isSome = true) ∨
        ((s.conclude criticalAckDigest faults .committed result failure).2 = .error (criticalAckFailure .committed) ∧
          notes = [])) := by
  obtain ⟨⟨intent, changesBefore, marker⟩, m, hack, rfl, hmem⟩ := h
  unfold Call.conclude
  rcases hfailure with rfl | rfl
  · simp only [Option.filter_none]
    unfold Call.acknowledge
    simp only [hack]
    rcases hreceipt : Critical.acknowledge criticalAckDigest s.controller.journal m faults.now faults.acknowledge with
      ⟨journal, e | ⟨⟩⟩
    · exact ⟨_, [], by simp only [Call.failed, List.append_nil]; rfl, Or.inr ⟨rfl, rfl⟩⟩
    · refine ⟨journal, [.acknowledged m], rfl, Or.inl ⟨rfl, trivial, m, rfl, hmem, ?_⟩⟩
      unfold Critical.acknowledge at hreceipt
      rcases hrow : publishRow criticalAckDigest .receipt s.controller.journal.receipts
        (m.toReceipt criticalAckDigest faults.now) faults.acknowledge with ⟨receipts, r⟩
      rw [hrow] at hreceipt
      obtain ⟨rfl, rfl⟩ := Prod.mk.inj hreceipt
      have hsome := publishRow_ok hrow
      exact hsome
  · have hfilter : (some (restoreFailed .committed)).filter Thrown.truthy = some (restoreFailed .committed) := rfl
    rw [hfilter]
    simp only [Call.failed, hack]
    exact ⟨_, [], by rw [List.append_nil], Or.inr ⟨rfl, rfl⟩⟩

theorem failed_controller (s : Call β) (commitState : CommitState) :
    ∃ journal, (s.failed criticalAckDigest faults commitState).controller = { s.controller with journal } := by
  unfold Call.failed
  split
  · exact ⟨s.controller.journal, rfl⟩
  · exact ⟨_, rfl⟩

theorem report_confirmed {commitState : CommitState} {failure : Thrown}
    (hc : commitState ≠ .committed)
    (hu : commitState ≠ .uncertain) : Call.report commitState failure = failure := by
  apply if_neg
  rintro ⟨h | h, -⟩
  · exact hc h
  · exact hu h

theorem report_criticalAckFailure (commitState : CommitState) :
    Call.report commitState (criticalAckFailure commitState) = criticalAckFailure commitState := by
  unfold Call.report
  split <;> rfl

theorem conclude_handled {s : Call β} {result : Nat} {failure failure' : Thrown}
    {commitState : CommitState} (h : Handled c s failure commitState)
    (hfailure : failure' = failure ∨ failure.truthy = false ∧ failure' = restoreFailed commitState) :
    ∃ journal e, (s.conclude criticalAckDigest faults commitState result (some failure')).1.controller =
        { s.controller with journal } ∧
      (s.conclude criticalAckDigest faults commitState result (some failure')).2 = .error e ∧
      (commitState ≠ .uncertain → e.commitState = none ∨ e.commitState = some commitState) ∧
      (commitState = .uncertain → e.commitState = some .uncertain) := by
  obtain ⟨journal, hjournal⟩ := @failed_controller β criticalAckDigest faults s commitState
  unfold Call.conclude
  cases htruthy : failure'.truthy with
  | true =>
    rw [Option.filter_some, if_pos htruthy]
    refine ⟨journal, _, hjournal, rfl, fun hu => ?_, fun hu => ?_⟩
    · rw [report_confirmed h.uncommitted hu]
      rcases hfailure with rfl | ⟨-, rfl⟩
      · exact Or.inl (h.confirmed hu)
      · exact Or.inr rfl
    · obtain ⟨code, hcode⟩ := h.unconfirmed hu
      rcases hfailure with rfl | ⟨hfalse, -⟩
      · rw [hcode, hu]
        rfl
      · rw [hcode] at hfalse
        cases hfalse
  | false =>
    -- the callback threw a value that counts as no failure: there is no marker to acknowledge
    obtain rfl : failure' = failure := by
      rcases hfailure with rfl | ⟨-, rfl⟩
      · rfl
      · cases htruthy
    rw [Option.filter_some, htruthy, if_neg Bool.false_ne_true]
    simp only [acknowledge_unmarked (h.unmarked htruthy)]
    refine ⟨journal, _, hjournal, rfl, fun hu => ?_, fun hu => ?_⟩
    · rw [report_criticalAckFailure]
      exact Or.inr rfl
    · rw [report_criticalAckFailure, hu]
      rfl

end handlers

/-! ### The guarantees of a call -/

/-- What a call `r` on the controller `c` tells, compared with what happened in it. -/
structure Truthful (c : Controller β) (r : Controller β × Except Thrown Nat)
    (seg : List Mark) : Prop where
  log : r.1.log = c.log ++ seg
  flat : flat false seg = true
  /-- it returns exactly if the transaction was committed and its receipt published -/
  returned : reported r.2 = .returned ↔ .committed ∈ seg ∧ ∃ m, .acknowledged m ∈ seg
  acknowledged : ∀ m, .acknowledged m ∈ seg → m ∈ r.1.db.markers ∧ (r.1.journal.receipts.get? m.sequence).isSome = true
  rolledBack : reported r.2 = .rolledBack → r.1.db = c.db ∧ r.1.tx = c.tx ∧ .committed ∉ seg
  committed : reported r.2 = .committed → .committed ∈ seg ∧ ∀ m, .acknowledged m ∉ seg
  /-- neither `COMMIT` nor `ROLLBACK` was confirmed -/
  unknown : reported r.2 = .unknown → .committed ∉ seg ∧ .rolledBack ∉ seg
  active : r.1.criticalActive = c.criticalActive
  depth : r.1.transactionDepth = c.transactionDepth
  mode : r.1.mode = c.mode ∨ ∃ e, r.2 = .error e
  /-- a restoration that fails after the commit is reported -/
  restoration : .committed ∈ seg → r.1.mode = c.mode ∨ reported r.2 = .committed

section calls

variable {c : Controller β} {faults : Faults}

theorem ready_enter (c : Controller β) : Ready c c.enter :=
  ⟨⟨rfl, rfl, rfl⟩, fun _ => rfl, rfl, rfl, rfl, rfl, rfl, rfl⟩

theorem refuseCall_some {e : Thrown} (h : refuseCall isInTransaction faults c = some e) :
    e.commitState = none := by
  unfold refuseCall at h
  split at h
  · cases h
    rfl
  · split at h
    · cases h
      rfl
    · split at h
      · cases h
        rfl
      · cases h

theorem refuseCall_none (h : refuseCall isInTransaction faults c = none) :
    c.criticalActive = false ∧ c.transactionDepth = 0 ∧ (isInTransaction = true → c.tx = none) := by
  unfold refuseCall at h
  split at h
  · cases h
  · split at h
    · cases h
    · rename_i hnested
      simp only [not_or, Bool.not_eq_true, not_lt, Nat.le_zero, not_and, Option.isSome_eq_false_iff,
        Option.isNone_iff_eq_none] at hnested
      exact hnested

theorem Truthful.refused {e : Thrown} (he : e.commitState = none) :
    Truthful c (c, .error e) [] := by
  have hreport : reported (.error e) = .rolledBack := by simp only [reported, he]
  exact ⟨(List.append_nil _).symm, rfl, by simp [hreport], nofun, fun _ => ⟨rfl, rfl, nofun⟩, by simp [hreport],
    by simp [hreport], rfl, rfl, Or.inl rfl, nofun⟩

theorem Handled.setMode {s : Call β} {failure : Thrown} {commitState : CommitState}
    (h : Handled c s failure commitState)
    (mode : Nat) : Handled c { s with controller := { s.controller with mode } } failure commitState :=
  ⟨⟨h.previousMode, h.active, h.depth⟩, h.uncommitted, h.unmarked, h.confirmed, h.unconfirmed, h.log, h.database⟩

theorem Truthful.handled {s : Call β} {failure e : Thrown} {commitState : CommitState}
    {journal : Journal} (hactive : c.criticalActive = false) (h : Handled c s failure commitState)
    (hstate : commitState ≠ .uncertain → e.commitState = none ∨ e.commitState = some commitState)
    (hunknown : commitState = .uncertain → e.commitState = some .uncertain) :
    Truthful c (({ s.controller with journal } : Controller β).leave, .error e)
      (Mark.enter :: (if commitState = .rolledBack then [Mark.rolledBack] else []) ++ [Mark.leave]) := by
  have hreport : reported (.error e) = if commitState = .uncertain then .unknown else .rolledBack := by
    by_cases hu : commitState = .uncertain
    · simp only [reported, hunknown hu, if_pos hu]
    · rw [if_neg hu]
      rcases hstate hu with hnone | hsome
      · simp only [reported, hnone]
      · simp only [reported, hsome]
        cases commitState with
        | committed => exact absurd rfl h.uncommitted
        | uncertain => exact absurd rfl hu
        | notStarted | rolledBack => rfl
  have hquiet : .committed ∉ (Mark.enter :: (if commitState = .rolledBack then [Mark.rolledBack] else []) ++ [Mark.leave]) := by
    split <;> simp
  have hreceipt : ∀ m, .acknowledged m ∉
      (Mark.enter :: (if commitState = .rolledBack then [Mark.rolledBack] else []) ++ [Mark.leave]) := by
    intro m
    split <;> simp
  refine ⟨?_, ?_, ?_, fun m hm => absurd hm (hreceipt m), fun hr => ?_, fun hr => ?_,
    fun hr => ⟨hquiet, ?_⟩, hactive.symm, h.depth, Or.inr ⟨e, rfl⟩, fun hm => absurd hm hquiet⟩
  · show s.controller.log ++ [Mark.leave] = _
    rw [h.log, List.append_assoc]
  · split <;> rfl
  · refine ⟨fun hr => ?_, fun hm => absurd hm.1 hquiet⟩
    rw [hreport] at hr
    split at hr <;> cases hr
  · have hu : commitState ≠ .uncertain := by
      rintro rfl
      rw [hreport] at hr
      cases hr
    exact ⟨(h.database hu).1, (h.database hu).2, hquiet⟩
  · rw [hreport] at hr
    split at hr <;> cases hr
  · have hu : commitState = .uncertain := by
      by_contra hu
      rw [hreport, if_neg hu] at hr
      cases hr
    simp [hu]

theorem Truthful.acknowledge {s : Call β} {mode result : Nat} {journal : Journal} {m : Marker}
    (hactive : c.criticalActive = false) (h : Done c s) (hmode : mode = c.mode) (hm : m ∈ s.controller.db.markers)
    (hreceipt : (journal.receipts.get? m.sequence).isSome = true) :
    Truthful c
      (({ s.controller with mode, journal, log := s.controller.log ++ [Mark.acknowledged m] } : Controller β).leave, .ok result)
      [.enter, .committed, .acknowledged m, .leave] where
  log := by
    show s.controller.log ++ [Mark.acknowledged m] ++ [Mark.leave] = _
    rw [h.log, List.append_assoc, List.append_assoc]
    rfl
  flat := rfl
  returned := by simp [reported]
  acknowledged m' hm' := by
    obtain rfl : m' = m := by simpa using hm'
    exact ⟨hm, hreceipt⟩
  rolledBack hr := by cases hr
  committed hr := by cases hr
  unknown hr := by cases hr
  active := hactive.symm
  depth := h.depth
  mode := Or.inl hmode
  restoration _ := Or.inl hmode

theorem Truthful.unacknowledged {s : Call β} {mode : Nat} {journal : Journal}
    (hactive : c.criticalActive = false) (h : Done c s) :
    Truthful c
      (({ s.controller with mode, journal, log := s.controller.log ++ [] } : Controller β).leave,
        .error (criticalAckFailure .committed)) [.enter, .committed, .leave] where
  log := by
    show s.controller.log ++ [] ++ [Mark.leave] = _
    rw [h.log, List.append_nil, List.append_assoc]
    rfl
  flat := rfl
  returned := by simp [reported, criticalAckFailure, Thrown.commitState]
  acknowledged m hm := by simp at hm
  rolledBack hr := by cases hr
  committed _ := ⟨by simp, by simp⟩
  unknown hr := by cases hr
  active := hactive.symm
  depth := h.depth
  mode := Or.inr ⟨_, rfl⟩
  restoration _ := Or.inr rfl

/-- **A call of `criticalTransaction`** tells what happened. -/
theorem criticalTransaction_truthful (body : Body β) :
    ∃ seg, Truthful c (criticalTransaction criticalAckDigest isInTransaction faults
      (runBody criticalAckDigest isInTransaction body) c) seg := by
  unfold criticalTransaction
  cases hrefuse : refuseCall isInTransaction faults c with
  | some e => exact ⟨[], Truthful.refused (refuseCall_some hrefuse)⟩
  | none =>
    obtain ⟨hactive, -, hfree⟩ := refuseCall_none hrefuse
    have hblock := @attempt_spec β criticalAckDigest isInTransaction c faults body c.enter (ready_enter c)
    rcases hattempt : Call.attempt criticalAckDigest faults (runBody criticalAckDigest isInTransaction body) c.enter with
      ⟨s, e | result⟩
    · rw [hattempt] at hblock
      have hhandled := @handle_spec β isInTransaction c faults s e hblock hfree
      rcases hhandle : s.handle isInTransaction faults e with ⟨s', failure, commitState⟩
      rw [hhandle] at hhandled
      simp only [hhandle]
      obtain ⟨mode, hmode, hfailure⟩ := @restoreMode_spec β faults s' commitState (some failure)
      rcases hrestore : s'.restoreMode faults commitState (some failure) with ⟨s'', failure'⟩
      rw [hrestore] at hmode hfailure
      simp only at hmode hfailure ⊢
      obtain ⟨f, rfl, hf⟩ : ∃ f, failure' = some f ∧
          (f = failure ∨ failure.truthy = false ∧ f = restoreFailed commitState) := by
        rcases hfailure with ⟨hsame, -⟩ | ⟨hfalse, hnew⟩
        · exact ⟨failure, hsame, Or.inl rfl⟩
        · exact ⟨_, hnew, Or.inr ⟨hfalse, rfl⟩⟩
      have hmoved := hhandled.setMode mode
      rw [← hmode] at hmoved
      obtain ⟨journal, e', hcontroller, herror, hstate, hunknown⟩ :=
        @conclude_handled β criticalAckDigest c faults s'' 0 failure f commitState hmoved hf
      rcases hconclude : s''.conclude criticalAckDigest faults commitState 0 (some f) with ⟨s₃, r⟩
      rw [hconclude] at hcontroller herror
      simp only at hcontroller herror ⊢
      rw [hcontroller, herror]
      exact ⟨_, Truthful.handled hactive hmoved hstate hunknown⟩
    · rw [hattempt] at hblock
      have hdone : Done c s := hblock
      obtain ⟨mode, hmode, hfailure⟩ := @restoreMode_spec β faults s .committed none
      simp only
      rcases hrestore : s.restoreMode faults .committed none with ⟨s'', failure'⟩
      rw [hrestore] at hmode hfailure
      simp only at hmode hfailure ⊢
      have hf : failure' = none ∨ failure' = some (restoreFailed .committed) := by
        rcases hfailure with ⟨hsame, -⟩ | ⟨-, hnew⟩
        · exact Or.inl hsame
        · exact Or.inr hnew
      obtain ⟨journal, notes, hcontroller, hresult⟩ :=
        @conclude_committed β criticalAckDigest faults s'' result failure' (by rw [hmode]; exact hdone.marked) hf
      rcases hconclude : s''.conclude criticalAckDigest faults .committed result failure' with ⟨s₃, r⟩
      rw [hconclude] at hcontroller hresult
      simp only at hcontroller hresult ⊢
      rw [hcontroller, hmode]
      rcases hresult with ⟨rfl, hnone, m, rfl, hm, hreceipt⟩ | ⟨rfl, rfl⟩
      · refine ⟨_, @Truthful.acknowledge β c s mode result journal m hactive hdone ?_ ?_ hreceipt⟩
        · rcases hfailure with ⟨-, hkept⟩ | ⟨-, hnew⟩
          · rw [hkept trivial]
            split
            · exact hdone.previousMode
            · rename_i hchanged
              exact hdone.mode (by simpa using hchanged)
          · rw [hnone] at hnew
            cases hnew
        · rw [hmode] at hm
          exact hm
      · exact ⟨_, @Truthful.unacknowledged β c s mode journal hactive hdone⟩

theorem next_flat {α : Type} {r : Controller β × Except Thrown α} {next : Body β} {caught : Bool}
    {seg : List Mark} (hnext : ∀ {d : Controller β}, d.criticalActive = false →
      ∃ seg, (runBody criticalAckDigest isInTransaction next d).1.log = d.log ++ seg ∧ flat false seg = true ∧
        (runBody criticalAckDigest isInTransaction next d).1.criticalActive = false ∧
        (runBody criticalAckDigest isInTransaction next d).1.transactionDepth = d.transactionDepth)
    (hlog : r.1.log = c.log ++ seg) (hflat : flat false seg = true) (hactive : r.1.criticalActive = false)
    (hdepth : r.1.transactionDepth = c.transactionDepth) :
    let r' := resume caught (runBody criticalAckDigest isInTransaction next) r
    ∃ seg, r'.1.log = c.log ++ seg ∧ flat false seg = true ∧ r'.1.criticalActive = false ∧
      r'.1.transactionDepth = c.transactionDepth := by
  obtain ⟨seg', hlog', hflat', hactive', hdepth'⟩ := hnext hactive
  have hall : ∃ seg, (runBody criticalAckDigest isInTransaction next r.1).1.log = c.log ++ seg ∧ flat false seg = true ∧
      (runBody criticalAckDigest isInTransaction next r.1).1.criticalActive = false ∧
      (runBody criticalAckDigest isInTransaction next r.1).1.transactionDepth = c.transactionDepth :=
    ⟨seg ++ seg', by rw [hlog', hlog, List.append_assoc], flat_append hflat hflat', hactive', hdepth'.trans hdepth⟩
  rcases r with ⟨d, e | a⟩
  · cases caught with
    | true => exact hall
    | false => exact ⟨seg, hlog, hflat, hactive, hdepth⟩
  · exact hall

/-- **A program** that is not inside a critical transaction enters them one after the other. -/
theorem runBody_flat (body : Body β) (h : c.criticalActive = false) :
    ∃ seg, (runBody criticalAckDigest isInTransaction body c).1.log = c.log ++ seg ∧ flat false seg = true ∧
      (runBody criticalAckDigest isInTransaction body c).1.criticalActive = false ∧
      (runBody criticalAckDigest isInTransaction body c).1.transactionDepth = c.transactionDepth := by
  induction body generalizing c with
  | ret result thenable => exact ⟨[], (List.append_nil _).symm, rfl, h, rfl⟩
  | raise truthy => exact ⟨[], (List.append_nil _).symm, rfl, h, rfl⟩
  | write rows changes next ih =>
    have hput : (c.put { c.view with rows := rows c.view.rows }).log = c.log ∧
        (c.put { c.view with rows := rows c.view.rows }).criticalActive = c.criticalActive ∧
        (c.put { c.view with rows := rows c.view.rows }).transactionDepth = c.transactionDepth := by
      unfold Controller.put
      split <;> exact ⟨rfl, rfl, rfl⟩
    obtain ⟨seg, hlog, hflat, hactive, hdepth⟩ :=
      @ih { c.put { c.view with rows := rows c.view.rows } with changes := c.changes + changes } (hput.2.1.trans h)
    exact ⟨seg, hlog.trans (by rw [← hput.1]), hflat, hactive, hdepth.trans hput.2.2⟩
  | abandon next ih => exact @ih { c with tx := none } h
  | transaction inner commit caught next ihInner ihNext =>
    simp only [runBody]
    obtain ⟨seg, hlog, hflat, hactive, hdepth⟩ :
        ∃ seg, (c.transaction commit (runBody criticalAckDigest isInTransaction inner)).1.log = c.log ++ seg ∧
          flat false seg = true ∧
          (c.transaction commit (runBody criticalAckDigest isInTransaction inner)).1.criticalActive = false ∧
          (c.transaction commit (runBody criticalAckDigest isInTransaction inner)).1.transactionDepth =
            c.transactionDepth := by
      obtain ⟨seg, hlog, hflat, hactive, -⟩ :=
        @ihInner { c with transactionDepth := c.transactionDepth + 1, tx := some c.view } h
      refine ⟨seg, ?_⟩
      unfold Controller.transaction
      rw [if_neg (by rw [h]; exact Bool.false_ne_true)]
      split
      · rename_i d e heq
        rw [heq] at hlog hactive
        exact ⟨hlog, hflat, hactive, rfl⟩
      · rename_i d a heq
        rw [heq] at hlog hactive
        split
        · exact ⟨hlog, hflat, hactive, rfl⟩
        · split <;> exact ⟨hlog, hflat, hactive, rfl⟩
    exact next_flat ihNext hlog hflat hactive hdepth
  | critical inner faults caught next _ ihNext =>
    simp only [runBody]
    obtain ⟨seg, htruthful⟩ := @criticalTransaction_truthful β criticalAckDigest isInTransaction c faults inner
    exact next_flat ihNext htruthful.log htruthful.flat (htruthful.active.trans h) htruthful.depth

end calls

/-- **Fault semantics.** For every callback and every fault, a call of `criticalTransaction` tells
what happened in it; and a program enters its critical transactions one after the other. -/
theorem criticalTransaction_faults (criticalAckDigest : Document → String) (isInTransaction : Bool)
    (body : Body β) (c : Controller β) :
    (∀ faults, ∃ seg, Truthful c (criticalTransaction criticalAckDigest isInTransaction faults
      (runBody criticalAckDigest isInTransaction body) c) seg) ∧
    (c.criticalActive = false → ∃ seg, (runBody criticalAckDigest isInTransaction body c).1.log = c.log ++ seg ∧
      flat false seg = true ∧ (runBody criticalAckDigest isInTransaction body c).1.criticalActive = false ∧
      (runBody criticalAckDigest isInTransaction body c).1.transactionDepth = c.transactionDepth) :=
  ⟨fun _ => criticalTransaction_truthful body, runBody_flat body⟩

section lowered

/-- No fault, for transaction `transactionId`. -/
def quietFaults (transactionId : Nat) : Faults where
  asyncFunction := false
  readMode := false
  verifyMode := false
  rereadMode := false
  raise := .none
  restore := .none
  beginImmediate := false
  prepare := plainInput transactionId
  insertMarker := false
  advanceState := false
  commit := .none
  rollback := .none
  now := 0
  acknowledge := .none
  failed := .none

def newController : Controller Unit where
  db := { rows := (), state := none, markers := [] }
  tx := none
  changes := 0
  journal := ⟨none, .empty, .empty, .empty⟩
  mode := 1
  criticalActive := false
  transactionDepth := 0
  log := []

/-- Two critical transactions, the second one with a third inside that is refused. -/
def twoTransactions : Body Unit :=
  .critical (.write id 1 (.ret 0 false)) (quietFaults 1) false
    (.critical (.critical (.ret 0 false) (quietFaults 3) true (.ret 0 false)) (quietFaults 2) false (.ret 0 false))

theorem twoTransactions_flat :
    (runBody plainDigest true twoTransactions newController).1.criticalActive = false ∧
      (runBody plainDigest true twoTransactions newController).1.db.sequence = 2 := by
  obtain ⟨seg, -, -, hactive, -⟩ := (criticalTransaction_faults plainDigest true twoTransactions newController).2 rfl
  exact ⟨hactive, by decide +kernel⟩

/-- The callback throws and the mode is not restored: what is thrown is the callback's error. -/
theorem restoration_unreported :
    let r := criticalTransaction plainDigest true { quietFaults 1 with restore := .ignored }
      (runBody plainDigest true (.raise true)) newController
    r.1.mode ≠ newController.mode ∧ r.2 = .error (.thrown true) := by
  decide +kernel

end lowered

end TokenProxy.Critical
