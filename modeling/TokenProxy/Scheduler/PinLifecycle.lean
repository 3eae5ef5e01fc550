import TokenProxy.Scheduler.Atomicity
import TokenProxy.Scheduler.PinCommands

/-!
# A command takes effect once

What one transaction can do to the commands is said once (`ActionStep`): a preview is refused,
queued or takes effect; a queued reassignment is cancelled, ends with its binding, or is consumed
while its binding stands; nothing else changes. Every step of anyone is such a step of the store
(`pinStep_spec`), so the statements about runs follow from it alone.
-/

namespace TokenProxy.Scheduler

open TokenProxy.Lib TokenProxy.Ranking

variable {digests : Digests} {db db' : SchedulerDb} {a a' : PinAction}

def ActionStatus.terminal : ActionStatus → Bool
  | .preview | .queued => false
  | .applied | .conflict | .cancelled => true

/-- What the command asked for is the case: its session has no pin, a pin with the
deadline, or its target pinned. -/
def InEffect (db : SchedulerDb) (a : PinAction) : Prop :=
  match a.action with
  | .clear => db.pinRow a.sessionHash a.model = none
  | .expire => ∃ row, db.pinRow a.sessionHash a.model = some row ∧ row.operatorExpiresAt = a.deadline
  | .reassign => ∃ row, db.pinRow a.sessionHash a.model = some row ∧ some row.connectionId = a.targetConnectionId

/-- The session's pin is live, and bound as the command expects. -/
def StillBound (digests : Digests) (db : SchedulerDb) (now : Int) (a : PinAction) : Prop :=
  ∃ pin, db.pinRow a.sessionHash a.model = some pin ∧ digests.binding (bindingOf (some pin)) = a.expectedBinding ∧
    pin.expired now = false

structure SameCommand (a a' : PinAction) : Prop where
  id : a'.id = a.id
  sessionHash : a'.sessionHash = a.sessionHash
  model : a'.model = a.model
  action : a'.action = a.action
  targetConnectionId : a'.targetConnectionId = a.targetConnectionId
  deadline : a'.deadline = a.deadline
  expectedBinding : a'.expectedBinding = a.expectedBinding

theorem SameCommand.refl (a : PinAction) : SameCommand a a := ⟨rfl, rfl, rfl, rfl, rfl, rfl, rfl⟩

inductive ActionStep (digests : Digests) (db db' : SchedulerDb) (a a' : PinAction) : Prop
  | same (h : a' = a)
  | refused (before : a.status = .preview) (after : a'.status = .conflict)
  | queued (before : a.status = .preview) (after : a'.status = .queued) (kind : a.action = .reassign)
      (only : ∀ b ∈ db'.actions.rows, b.status = .queued → b.sessionHash = a.sessionHash → b.model = a.model → b.id = a.id)
  | effected (before : a.status = .preview) (after : a'.status = .applied) (kind : a.action ≠ .reassign)
      (effect : InEffect db' a')
  | cancelled (before : a.status = .queued) (after : a'.status = .cancelled)
  | ended (before : a.status = .queued) (after : a'.status = .conflict)
  | consumed (before : a.status = .queued) (after : a'.status = .applied) (now : Int)
      (bound : StillBound digests db now a) (effect : InEffect db' a')

structure StoreStep (digests : Digests) (db db' : SchedulerDb) : Prop where
  kept : ∀ a ∈ db.actions.rows, ∃ a' ∈ db'.actions.rows, SameCommand a a' ∧ ActionStep digests db db' a a'
  added : ∀ a' ∈ db'.actions.rows, db.actions.get? a'.id = none → a'.status = .preview

/-! ### Steps of the store -/

theorem StoreStep.of_actions (h : db'.actions = db.actions) : StoreStep digests db db' := by
  refine ⟨fun a ha => ⟨a, h ▸ ha, SameCommand.refl a, ActionStep.same rfl⟩, fun a' ha' hnew => ?_⟩
  rw [h] at ha'
  rw [Table.get?_of_mem ha'] at hnew
  cases hnew

theorem StoreStep.of_put (hactions : db'.actions = db.actions.put a') (ha : a ∈ db.actions.rows)
    (hsame : SameCommand a a') (hstep : ActionStep digests db db' a a') :
    StoreStep digests db db' := by
  constructor
  · intro b hb
    by_cases hid : b.id = a.id
    · obtain rfl := Table.eq_of_key hb ha hid
      exact ⟨a', hactions ▸ Table.mem_put_self _ _, hsame, hstep⟩
    · refine ⟨b, ?_, SameCommand.refl b, ActionStep.same rfl⟩
      rw [hactions, Table.mem_put]
      exact Or.inr ⟨hb, hsame.id ▸ hid⟩
  · intro b hb hnew
    rw [hactions, Table.mem_put] at hb
    rcases hb with rfl | ⟨hb, -⟩
    · rw [hsame.id, Table.get?_of_mem ha] at hnew
      cases hnew
    · rw [Table.get?_of_mem hb] at hnew
      cases hnew

theorem pendingAction_some {s m : String} (h : db.pendingAction s m = some a) :
    a ∈ db.actions.rows ∧ a.sessionHash = s ∧ a.model = m ∧ a.status = .queued := by
  have hp := List.find?_some h
  simp only [Bool.and_eq_true, decide_eq_true_eq] at hp
  exact ⟨List.mem_of_find?_eq_some h, hp.1.1, hp.1.2, hp.2⟩

theorem pendingAction_none {s m : String} (h : db.pendingAction s m = none)
    (ha : a ∈ db.actions.rows)
    (hs : a.sessionHash = s) (hm : a.model = m) : a.status ≠ .queued := by
  intro hstatus
  have := List.find?_eq_none.mp h a ha
  simp [hs, hm, hstatus] at this

/-! ### A command is looked for -/

/-- The command that is found is stored and queued, and its binding stands; one whose
binding does not, has ended. -/
theorem getPendingPinAction_cases {now : Int} {s m : String} {found : Option PendingAction}
    (h : db.getPendingPinAction digests.binding now s m = (db', found)) :
    (∀ db'' : SchedulerDb, db''.actions = db'.actions → StoreStep digests db db'') ∧
      ∀ p ∈ found, db' = db ∧ p.action ∈ db.actions.rows ∧ p.action.sessionHash = s ∧ p.action.model = m ∧
        p.action.status = .queued ∧ (p.storageUnavailable = false → StillBound digests db now p.action) := by
  unfold SchedulerDb.getPendingPinAction at h
  split at h
  · cases h
    exact ⟨fun _ h => StoreStep.of_actions h, fun p hp => by cases hp⟩
  rename_i action hpending
  obtain ⟨ha, hs, hm, hstatus⟩ := pendingAction_some hpending
  split at h
  · cases h
    refine ⟨fun _ h => StoreStep.of_actions h, ?_⟩
    rintro p ⟨⟩
    exact ⟨rfl, ha, hs, hm, hstatus, fun h => by cases h⟩
  simp only at h
  split at h
  · cases h
    exact ⟨fun _ h => StoreStep.of_put h ha ⟨rfl, rfl, rfl, rfl, rfl, rfl, rfl⟩ (ActionStep.ended hstatus rfl),
      fun p hp => by cases hp⟩
  · rename_i hbound
    cases h
    refine ⟨fun _ h => StoreStep.of_actions h, ?_⟩
    rintro p ⟨⟩
    refine ⟨rfl, ha, hs, hm, hstatus, fun _ => ?_⟩
    simp only [not_or, not_exists, not_and] at hbound
    obtain ⟨hsome, hbinding, hlive⟩ := hbound
    obtain ⟨pin, hpin⟩ : ∃ pin, db.pinRow s m = some pin := by
      rw [← Option.isSome_iff_exists]
      simpa [Option.isSome_iff_ne_none] using hsome
    rw [hpin, not_not] at hbinding
    refine ⟨pin, by rw [hs, hm]; exact hpin, hbinding, ?_⟩
    exact Bool.eq_false_iff.mpr (hlive pin hpin)

theorem completePinAction_step {db₁ : SchedulerDb} {now : Int} (ha : a ∈ db.actions.rows)
    (hstatus : a.status = .queued)
    (hbound : StillBound digests db now a) (hactions : db₁.actions = db.actions)
    (heffect : InEffect (db₁.completePinAction now a) a) :
    StoreStep digests db (db₁.completePinAction now a) := by
  have hget : db₁.actions.get? a.id = some a := by
    rw [hactions]
    exact Table.get?_of_mem ha
  have hdone : ∃ a', (db₁.completePinAction now a).actions = db.actions.put a' ∧ SameCommand a a' ∧ a'.status = .applied := by
    unfold SchedulerDb.completePinAction
    rw [hget]
    simp only
    rw [if_pos hstatus]
    refine ⟨{ a with
      status := .applied, reason := some "subsequent-selection"
      afterState := some (db₁.pinRow a.sessionHash a.model), appliedAt := some now }, ?_, ?_, rfl⟩
    · rw [← hactions]
    · exact ⟨rfl, rfl, rfl, rfl, rfl, rfl, rfl⟩
  obtain ⟨a', hput, hsame, hafter⟩ := hdone
  refine StoreStep.of_put hput ha hsame (ActionStep.consumed hstatus hafter now hbound ?_)
  unfold InEffect at heffect ⊢
  rw [hsame.action, hsame.sessionHash, hsame.model, hsame.deadline, hsame.targetConnectionId]
  exact heffect

/-! ### A selection -/

variable {windowsJson : Account → String} {leases : Admission.LeaseSystem} {input : Input Account} {faults : Faults}

/-- A command that is queued is a reassignment, and the only one of its session and model. -/
structure CommandsInv (db : SchedulerDb) : Prop where
  one : ∀ a ∈ db.actions.rows, ∀ b ∈ db.actions.rows, a.status = .queued → b.status = .queued →
    a.sessionHash = b.sessionHash → a.model = b.model → a = b
  reassign : ∀ a ∈ db.actions.rows, a.status = .queued → a.action = .reassign

theorem prepare_found {policy : Policy Account} {p : Prepared Account}
    (h : prepare policy leases input faults db = .ok (db', p)) :
    ∃ found, db.getPendingPinAction policy.hash input.now input.sessionHash input.model = (db', found) ∧
      ∀ plan prev action, p = .walk plan prev action →
        action = found.map PendingAction.action ∧ (∀ q ∈ found, q.storageUnavailable = false) ∧
          prev = previousPin db' input ∧
          ∃ pin load, plan = policy.plan (targetsOf found (candidatesOf input)) pin load input.model input.now := by
  unfold prepare at h
  obtain ⟨-, -, h⟩ := bind_ok h
  simp only at h
  generalize db.getPendingPinAction policy.hash input.now input.sessionHash input.model = x at h ⊢
  obtain ⟨db₁, found⟩ := x
  simp only at h
  split at h
  · cases h
    exact ⟨found, rfl, fun _ _ _ hp => by cases hp⟩
  rename_i hcommand
  split at h
  · cases h
    exact ⟨found, rfl, fun _ _ _ hp => by cases hp⟩
  obtain ⟨-, -, h⟩ := bind_ok h
  obtain ⟨-, -, h⟩ := bind_ok h
  split at h
  · cases h
    exact ⟨found, rfl, fun _ _ _ hp => by cases hp⟩
  · cases h
    refine ⟨found, rfl, fun plan prev action hp => ?_⟩
    cases hp
    refine ⟨rfl, fun q hq => ?_, rfl, _, _, rfl⟩
    rw [not_or] at hcommand
    rw [Option.mem_def.mp hq, Option.any_some, Bool.not_eq_true] at hcommand
    exact hcommand.1

theorem walk_mem {α : Type} {leases leases' : Admission.LeaseSystem} {order : List (Candidate α)}
    {skipped skipped' : List String} {record : Candidate α} {lease : Admission.AnyLease}
    (h : walk leases skipped order = (leases', some (record, lease), skipped')) :
    record ∈ order := by
  induction order generalizing leases skipped with
  | nil => cases h
  | cons c rest ih =>
    unfold walk at h
    split at h
    · cases h
      exact List.mem_cons_self
    · exact List.mem_cons_of_mem _ (ih h)

theorem setPin_actions (db : SchedulerDb) (now : Int)
    (s m c : String) : (db.setPin now s m c).actions = db.actions := by
  unfold SchedulerDb.setPin
  split <;> rfl

theorem touchPin_actions (db : SchedulerDb) (now : Int)
    (s m : String) : (db.touchPin now s m).actions = db.actions := by
  unfold SchedulerDb.touchPin
  split
  · rfl
  split <;> rfl

theorem recordSwitch_actions (db : SchedulerDb)
    (row : SwitchRow) : (db.recordSwitch row).actions = db.actions := by
  unfold SchedulerDb.recordSwitch
  split <;> rfl

theorem settle_actions {policy : Policy Account} {plan : Plan Account} {prev : Option String}
    {action : Option PinAction} {record : Candidate Account} {out : Option Receipt × String}
    (h : settle policy input faults plan prev action record db = .ok (db', out)) :
    ∃ db₁ : SchedulerDb, db₁.actions = db.actions ∧ db' = action.elim db₁ (db₁.completePinAction input.now) := by
  unfold settle at h
  obtain ⟨db₁, h₁, h⟩ := bind_ok h
  obtain ⟨⟨db₂, receipt⟩, h₂, h⟩ := bind_ok h
  obtain ⟨db₃, h₃, h⟩ := bind_ok h
  cases h
  refine ⟨db₂, ?_, ?_⟩
  · have hreceipt : db₂.actions = db₁.actions := by
      unfold writeReceipt at h₂
      split at h₂
      · obtain ⟨-, -, he⟩ := map_ok h₂
        cases he
        exact recordSwitch_actions _ _
      · cases h₂
        rfl
    have hpin : db₁.actions = db.actions := by
      unfold writePin at h₁
      split at h₁
      · obtain ⟨-, -, rfl⟩ := map_ok h₁
        exact setPin_actions _ _ _ _ _
      · obtain ⟨-, -, rfl⟩ := map_ok h₁
        exact touchPin_actions _ _ _ _
    rw [hreceipt, hpin]
  · unfold writeCommand at h₃
    split at h₃
    · obtain ⟨-, -, rfl⟩ := map_ok h₃
      rfl
    · cases h₃
      rfl

/-- A selection that takes a slot consumes the command that it found, with
the command's target pinned. -/
theorem settle_step {policy : Policy Account} {plan : Plan Account} {record : Candidate Account}
    {out : Option Receipt × String} {found : Option PendingAction} {db₁ : SchedulerDb} (hinv : CommandsInv db)
    (hfound : db.getPendingPinAction digests.binding input.now input.sessionHash input.model = (db₁, found))
    (hstored : ∀ q ∈ found, q.storageUnavailable = false) (hrecord : record ∈ targetsOf found (candidatesOf input))
    (h : settle policy input faults plan (previousPin db₁ input) (found.map PendingAction.action) record db₁ =
      .ok (db', out)) : StoreStep digests db db' := by
  obtain ⟨hstep, hpending⟩ := getPendingPinAction_cases hfound
  have hid : record.id ≠ "" := by
    have hcandidate : record ∈ candidatesOf input := by
      unfold targetsOf at hrecord
      split at hrecord
      · exact (List.mem_filter.mp hrecord).1
      · exact hrecord
    simpa using (List.mem_filter.mp hcandidate).2
  obtain ⟨hpin, -⟩ := settle_ok hid rfl h
  obtain ⟨db₂, hactions, hdb'⟩ := settle_actions h
  cases hf : found with
  | none =>
    rw [hf] at hdb'
    -- a command whose binding has ended may have been set aside
    refine hstep db' ?_
    rw [hdb']
    exact hactions
  | some q =>
    obtain ⟨rfl, ha, hs, hm, hstatus, hbound⟩ := hpending q hf
    rw [hf] at hdb' hrecord
    rw [Option.map_some, Option.elim_some] at hdb'
    have htarget : some record.id = q.action.targetConnectionId := by
      simpa using (List.mem_filter.mp hrecord).2
    rw [hdb']
    refine completePinAction_step ha hstatus (hbound (hstored q hf)) hactions ?_
    rw [← hdb']
    unfold InEffect
    rw [hinv.reassign _ ha hstatus, hs, hm]
    obtain ⟨row, hrow, hconnection⟩ := Option.map_eq_some_iff.mp hpin
    exact ⟨row, hrow, by rw [hconnection, htarget]⟩

/-- **A selection** is a step of the store. -/
theorem selectAndReserve_step [Collation] (hinv : CommandsInv db) :
    StoreStep digests db
      (selectAndReserve (schedulerPolicy windowsJson digests.binding) leases db input faults).db := by
  unfold selectAndReserve
  split
  · exact StoreStep.of_actions rfl
  · rename_i db₁ u hprepare
    obtain ⟨found, hfound, -⟩ := prepare_found hprepare
    rcases transaction_cases (fun _ => .ok (db₁, u)) faults.commit db with ⟨e, ht⟩ | ⟨s', u', hbody, ht⟩
    · rw [ht]
      exact StoreStep.of_actions rfl
    · cases hbody
      rw [ht]
      exact (getPendingPinAction_cases hfound).1 _ rfl
  · rename_i db₁ plan prev action hprepare
    obtain ⟨found, hfound, hwalk⟩ := prepare_found hprepare
    obtain ⟨rfl, hstored, rfl, pin, load, rfl⟩ := hwalk plan prev action rfl
    split
    · generalize ({ reason := "at-capacity", mustWait := _ } : Unavailable) = u
      rcases transaction_cases (fun _ => .ok (db₁, u)) faults.commit db with ⟨e, ht⟩ | ⟨s', u', hbody, ht⟩
      · rw [ht]
        exact StoreStep.of_actions rfl
      · cases hbody
        rw [ht]
        exact (getPendingPinAction_cases hfound).1 _ rfl
    · rename_i record lease skipped hw
      rcases transaction_cases (fun _ => settle (schedulerPolicy windowsJson digests.binding) input faults _
        (previousPin db₁ input) (found.map PendingAction.action) record db₁) faults.commit db with
        ⟨e, ht⟩ | ⟨s', out, hbody, ht⟩
      · rw [ht]
        exact StoreStep.of_actions rfl
      · rw [ht]
        refine settle_step hinv hfound hstored ?_ hbody
        -- the plan tries accounts that it was given
        obtain ⟨r, hr, rfl⟩ := List.mem_map.mp (walk_mem hw)
        obtain ⟨c, hc, hrc⟩ := mem_recordsOf.mp (preferred_mem hr)
        rw [hrc]
        exact List.mem_of_getElem? hc

theorem receipted_pinRow (db : SchedulerDb) (row : SwitchRow) (now : Int) (a : PinAction)
    (s m : String) :
    ((db.recordSwitch row).completePinAction now a).pinRow s m = db.pinRow s m := by
  rw [SchedulerDb.pinRow, (SchedulerDb.completePinAction_pins _ _ _).1, SchedulerDb.recordSwitch_pins]
  rfl

/-- **A request that names its account** is a step of the store. -/
theorem persistOperatorPin_step [Collation] (hinv : CommandsInv db) {call : OperatorPin}
    {out : OperatorPinned}
    (hs : call.sessionHash ≠ "") (hm : call.model ≠ "") (hc : call.connection.id ≠ "")
    (h : persistOperatorPin windowsJson digests call faults db = .ok (db', out)) :
    StoreStep digests db db' := by
  unfold persistOperatorPin at h
  obtain ⟨-, -, h⟩ := bind_ok h
  simp only at h
  cases hfound : db.getPendingPinAction digests.binding call.now call.sessionHash call.model with
  | mk db₁ found =>
  obtain ⟨hstep, hpending⟩ := getPendingPinAction_cases hfound
  rw [hfound] at h
  simp only at h
  split at h
  · cases h
    exact hstep _ rfl
  rename_i hwait
  split at h
  · cases h
    exact hstep _ rfl
  obtain ⟨-, -, h⟩ := bind_ok h
  split at h
  · obtain ⟨-, -, h⟩ := bind_ok h
    cases h
    exact hstep _ (touchPin_actions _ _ _ _)
  obtain ⟨-, -, h⟩ := bind_ok h
  obtain ⟨-, -, h⟩ := bind_ok h
  have hactions : ∀ row, ((db₁.setPin call.now call.sessionHash call.model call.connection.id).recordSwitch row).actions =
      db₁.actions := fun row => (recordSwitch_actions _ _).trans (setPin_actions _ _ _ _ _)
  cases found with
  | none =>
    cases h
    exact hstep _ (hactions _)
  | some q =>
    obtain ⟨-, -, hdone⟩ := bind_ok h
    obtain ⟨hdb₁, ha, hqs, hqm, hstatus, hbound⟩ := hpending q rfl
    simp only [OperatorPin.mustWait, not_or, Option.any_some, Bool.not_eq_true, Option.mem_some_iff, not_exists,
      not_and, forall_eq'] at hwait
    obtain ⟨hstored, ⟨-, htarget⟩, -⟩ := hwait
    rw [not_not] at htarget
    cases hdone
    refine completePinAction_step ha hstatus (hbound hstored) ((hactions _).trans (by rw [hdb₁])) ?_
    unfold InEffect
    rw [hinv.reassign _ ha hstatus, hqs, hqm]
    obtain ⟨row, hrow, hconnection⟩ := Option.map_eq_some_iff.mp (SchedulerDb.setPin_pinRow db₁ call.now hs hm hc)
    refine ⟨row, ?_, by rw [hconnection, htarget]⟩
    rw [receipted_pinRow]
    exact hrow

/-! ### The commands themselves -/

/-- **A preview** adds one command at most. -/
theorem previewSessionPin_step {body : PinRequest} {random : String} {now : Int} {shown : PinAction}
    (h : previewSessionPin digests body random now db = .ok (db', shown)) :
    StoreStep digests db db' := by
  unfold previewSessionPin at h
  obtain ⟨-, -, h⟩ := bind_ok h
  simp only at h
  split at h
  · cases h
  split at h
  · split at h
    · obtain ⟨_, -, h⟩ := bind_ok h
      cases h
      exact StoreStep.of_actions rfl
    · cases h
  rename_i hnew
  split at h
  · cases h
  rename_i pin hpin
  split at h
  · cases h
  split at h
  · cases h
  split at h
  · cases h
  split at h
  · cases h
  obtain ⟨_, -, h⟩ := bind_ok h
  cases h
  have hid : ∀ a ∈ db.actions.rows, a.id ≠ body.id.getD random := fun a ha => Table.get?_eq_none.mp hnew a ha
  constructor
  · intro a ha
    refine ⟨a, ?_, SameCommand.refl a, ActionStep.same rfl⟩
    rw [Table.mem_put]
    exact Or.inr ⟨ha, hid a ha⟩
  · intro a ha hfresh
    rw [Table.mem_put] at ha
    rcases ha with rfl | ⟨ha, -⟩
    · rfl
    · rw [Table.get?_of_mem ha] at hfresh
      cases hfresh

theorem effectAction_actions (db : SchedulerDb)
    (a : PinAction) : (db.effectAction a).actions = db.actions := by
  unfold SchedulerDb.effectAction
  split
  · rfl
  · split <;> rfl
  · rfl

theorem effectAction_inEffect (hpin : (db.pinRow a.sessionHash a.model).isSome)
    (hkind : a.action ≠ .reassign) :
    InEffect (db.effectAction a) a := by
  unfold InEffect SchedulerDb.effectAction
  cases ha : a.action with
  | clear =>
    simp only
    rw [SchedulerDb.pinRow, Table.get?_erase, if_pos rfl]
  | expire =>
    obtain ⟨pin, hpin⟩ := Option.isSome_iff_exists.mp hpin
    have hkey : pin.key = (a.sessionHash, a.model) := Table.get?_key hpin
    simp only [hpin]
    rw [SchedulerDb.pinRow, Table.get?_put, if_pos (by rw [← hkey]; rfl)]
    exact ⟨_, rfl, rfl⟩
  | reassign => exact absurd ha hkind

theorem recordAction_same (db : SchedulerDb) (now : Int)
    (a : PinAction) : SameCommand a (db.recordAction now a) := by
  unfold SchedulerDb.recordAction
  simp only
  split <;> exact ⟨rfl, rfl, rfl, rfl, rfl, rfl, rfl⟩

/-- The record of a command that is applied: the reassignment is queued,
the others have taken effect. -/
theorem recordAction_step {now : Int} {db₁ db₂ : SchedulerDb} (hstatus : a.status = .preview)
    (hpin : (db₁.pinRow a.sessionHash a.model).isSome)
    (hfree : ∀ b ∈ db₁.actions.rows, b.status = .queued → b.sessionHash = a.sessionHash → b.model = a.model → b.id = a.id)
    (hpins : db₂.pins = (db₁.effectAction a).pins)
    (hactions : db₂.actions = db₁.actions.put ((db₁.effectAction a).recordAction now a)) :
    ActionStep digests db db₂ a ((db₁.effectAction a).recordAction now a) := by
  have hsame := recordAction_same (db₁.effectAction a) now a
  by_cases hkind : a.action = .reassign
  · refine ActionStep.queued hstatus ?_ hkind fun b hb hqueued hs hm => ?_
    · unfold SchedulerDb.recordAction
      simp only
      rw [if_pos hkind]
    · rw [hactions, Table.mem_put] at hb
      rcases hb with rfl | ⟨hb, -⟩
      · exact hsame.id
      · exact hfree b hb hqueued hs hm
  · refine ActionStep.effected hstatus ?_ hkind ?_
    · unfold SchedulerDb.recordAction
      simp only
      rw [if_neg hkind]
    · have heffect := effectAction_inEffect hpin hkind
      unfold InEffect SchedulerDb.pinRow at heffect ⊢
      rw [hsame.action, hsame.sessionHash, hsame.model, hsame.deadline, hsame.targetConnectionId, hpins]
      exact heffect

/-- **The application of a command.** -/
theorem applySessionPin_step (hinv : CommandsInv db) {id expectedRevision : String} {now : Int}
    {shown : PinAction}
    (h : applySessionPin digests id expectedRevision now db = .ok (db', shown)) :
    StoreStep digests db db' := by
  unfold applySessionPin at h
  split at h
  · cases h
  split at h
  · cases h
  split at h
  · cases h
  rename_i a hget
  have ha : a ∈ db.actions.rows := Table.get?_mem hget
  split at h
  · cases h
  split at h
  · obtain ⟨_, -, h⟩ := bind_ok h
    cases h
    exact StoreStep.of_actions rfl
  rename_i hstatus
  rw [not_not] at hstatus
  split at h
  · obtain ⟨_, -, h⟩ := bind_ok h
    cases h
    exact StoreStep.of_put rfl ha ⟨rfl, rfl, rfl, rfl, rfl, rfl, rfl⟩ (ActionStep.refused hstatus rfl)
  rename_i hconflict
  have hpin : (db.pinRow a.sessionHash a.model).isSome := by
    unfold conflictReason at hconflict
    split at hconflict
    · cases hconflict
    split at hconflict
    · cases hconflict
    · rename_i pin hpin
      rw [hpin]
      rfl
  simp only at h
  split at h
  · cases h
  rename_i hallowed
  obtain ⟨_, -, h⟩ := bind_ok h
  cases h
  cases hpending : db.pendingAction a.sessionHash a.model with
  | none =>
    refine StoreStep.of_put ?_ ha (recordAction_same _ now a) (recordAction_step hstatus hpin ?_ rfl ?_)
    · rw [Option.elim_none, effectAction_actions]
    · intro b hb hqueued hs hm
      exact absurd hqueued (pendingAction_none hpending hb hs hm)
    · rw [Option.elim_none, effectAction_actions]
  | some p =>
    obtain ⟨hp, hps, hpm, hpstatus⟩ := pendingAction_some hpending
    have hne : p.id ≠ a.id := by
      intro hid
      rw [Table.eq_of_key hp ha hid, hstatus] at hpstatus
      cases hpstatus
    rw [Option.elim_some]
    constructor
    · intro b hb
      by_cases hba : b.id = a.id
      · obtain rfl := Table.eq_of_key hb ha hba
        have hsame := recordAction_same ((db.cancelAction now p).effectAction b) now b
        refine ⟨_, Table.mem_put_self _ _, hsame, recordAction_step hstatus hpin ?_ rfl ?_⟩
        · -- the one that was queued has been cancelled
          intro x hx hqueued hs hm
          unfold SchedulerDb.cancelAction at hx
          rw [Table.mem_put] at hx
          rcases hx with rfl | ⟨hx, hxp⟩
          · cases hqueued
          · have := hinv.one x hx p hp hqueued hpstatus (hs.trans hps.symm) (hm.trans hpm.symm)
            exact absurd (congrArg PinAction.id this) hxp
        · rw [effectAction_actions]
      by_cases hbp : b.id = p.id
      · obtain rfl := Table.eq_of_key hb hp hbp
        refine ⟨{ b with status := .cancelled, reason := some "affinity-cleared", appliedAt := some now }, ?_,
          ⟨rfl, rfl, rfl, rfl, rfl, rfl, rfl⟩, ActionStep.cancelled hpstatus rfl⟩
        rw [effectAction_actions, Table.mem_put]
        refine Or.inr ⟨Table.mem_put_self _ _, ?_⟩
        rw [(recordAction_same _ now a).id]
        exact hne
      · refine ⟨b, ?_, SameCommand.refl b, ActionStep.same rfl⟩
        rw [effectAction_actions, Table.mem_put, (recordAction_same _ now a).id]
        refine Or.inr ⟨?_, hba⟩
        unfold SchedulerDb.cancelAction
        rw [Table.mem_put]
        exact Or.inr ⟨hb, hbp⟩
    · intro b hb hnew
      rw [effectAction_actions, Table.mem_put] at hb
      rcases hb with rfl | ⟨hb, -⟩
      · rw [(recordAction_same _ now a).id, Table.get?_of_mem ha] at hnew
        cases hnew
      · unfold SchedulerDb.cancelAction at hb
        rw [Table.mem_put] at hb
        rcases hb with rfl | ⟨hb, -⟩
        · rw [Table.get?_of_mem hp] at hnew
          cases hnew
        · rw [Table.get?_of_mem hb] at hnew
          cases hnew

theorem writePins_actions (db : SchedulerDb) (op : PinWrite) :
    (db.writePins op).actions = db.actions := by
  cases op with
  | setPin sessionHash model connectionId opts now => simp only [SchedulerDb.writePins]; split <;> rfl
  | clearPin sessionHash model => simp only [SchedulerDb.writePins]; split <;> rfl
  | clearPinsForConnection connectionId => simp only [SchedulerDb.writePins]; split <;> rfl
  | touchPin sessionHash model now =>
    simp only [SchedulerDb.writePins]
    split
    · rfl
    · split <;> rfl
  | sweepExpired now => rfl

/-! ### Every step -/

/-- **Whatever anyone does** is a step of the store. -/
theorem pinStep_spec [Collation] (hinv : CommandsInv db)
    (e : PinEvent) : StoreStep digests db (pinStep windowsJson digests db e) := by
  cases e with
  | preview body random now commit =>
    exact transaction_inv (fun s' a h => previewSessionPin_step h) (StoreStep.of_actions rfl)
  | apply id expectedRevision now commit =>
    exact transaction_inv (fun s' a h => applySessionPin_step hinv h) (StoreStep.of_actions rfl)
  | select leases input faults => exact selectAndReserve_step hinv
  | pending sessionHash model now commit =>
    refine transaction_inv (fun s' a h => ?_) (StoreStep.of_actions rfl)
    exact (getPendingPinAction_cases (Except.ok.inj h)).1 _ rfl
  | operatorPin call faults =>
    simp only [pinStep]
    split
    · exact StoreStep.of_actions rfl
    · rename_i hnames
      rw [not_or, not_or] at hnames
      exact transaction_inv (fun s' a h => persistOperatorPin_step hinv hnames.1 hnames.2.1 hnames.2.2 h)
        (StoreStep.of_actions rfl)
  | write op => exact StoreStep.of_actions (writePins_actions db op)
  | driver sqljs => exact StoreStep.of_actions rfl

/-! ### Runs -/

theorem StoreStep.origin (h : StoreStep digests db db') (ha' : a' ∈ db'.actions.rows)
    (hstatus : a'.status ≠ .preview) :
    ∃ a ∈ db.actions.rows, SameCommand a a' ∧ ActionStep digests db db' a a' := by
  cases hget : db.actions.get? a'.id with
  | none => exact absurd (h.added a' ha' hget) hstatus
  | some a =>
    have ha : a ∈ db.actions.rows := Table.get?_mem hget
    obtain ⟨a'', ha'', hsame, hstep⟩ := h.kept a ha
    have hid : a''.id = a'.id := hsame.id.trans (Table.get?_key hget)
    obtain rfl := Table.eq_of_key ha'' ha' hid
    exact ⟨a, ha, hsame, hstep⟩

theorem ActionStep.queued_cases (h : ActionStep digests db db' a a')
    (hqueued : a'.status = .queued) :
    (a' = a ∧ a.status = .queued) ∨ (a.action = .reassign ∧
      ∀ b ∈ db'.actions.rows, b.status = .queued → b.sessionHash = a.sessionHash → b.model = a.model → b.id = a.id) := by
  cases h with
  | same h => exact Or.inl ⟨h, h ▸ hqueued⟩
  | queued before after kind only => exact Or.inr ⟨kind, only⟩
  | refused before after => rw [after] at hqueued; cases hqueued
  | effected before after kind effect => rw [after] at hqueued; cases hqueued
  | cancelled before after => rw [after] at hqueued; cases hqueued
  | ended before after => rw [after] at hqueued; cases hqueued
  | consumed before after now bound effect => rw [after] at hqueued; cases hqueued

theorem ActionStep.applied_cases (h : ActionStep digests db db' a a')
    (happlied : a'.status = .applied) :
    a' = a ∨ (InEffect db' a' ∧ (a.status = .queued → ∃ now, StillBound digests db now a)) := by
  cases h with
  | same h => exact Or.inl h
  | effected before after kind effect =>
    refine Or.inr ⟨effect, fun hqueued => ?_⟩
    rw [before] at hqueued
    cases hqueued
  | consumed before after now bound effect => exact Or.inr ⟨effect, fun _ => ⟨now, bound⟩⟩
  | refused before after => rw [after] at happlied; cases happlied
  | queued before after kind only => rw [after] at happlied; cases happlied
  | cancelled before after => rw [after] at happlied; cases happlied
  | ended before after => rw [after] at happlied; cases happlied

theorem CommandsInv.step (hinv : CommandsInv db)
    (h : StoreStep digests db db') : CommandsInv db' := by
  have hqueued : ∀ x ∈ db'.actions.rows, x.status = .queued → x.status ≠ .preview := by
    intro x _ hx hpreview
    rw [hx] at hpreview
    cases hpreview
  constructor
  · intro x hx y hy hxq hyq hs hm
    obtain ⟨a, ha, hsa, hstepa⟩ := h.origin hx (hqueued x hx hxq)
    obtain ⟨b, hb, hsb, hstepb⟩ := h.origin hy (hqueued y hy hyq)
    rcases hstepa.queued_cases hxq with ⟨hxa, haq⟩ | ⟨-, honly⟩
    · rcases hstepb.queued_cases hyq with ⟨hyb, hbq⟩ | ⟨-, honly⟩
      · rw [hxa, hyb]
        rw [hxa, hyb] at hs hm
        exact hinv.one a ha b hb haq hbq hs hm
      · have hid := honly x hx hxq (hs.trans hsb.sessionHash) (hm.trans hsb.model)
        exact Table.eq_of_key hx hy (hid.trans hsb.id.symm)
    · have hid := honly y hy hyq (hs.symm.trans hsa.sessionHash) (hm.symm.trans hsa.model)
      exact Table.eq_of_key hx hy (hsa.id.trans hid.symm)
  · intro x hx hxq
    obtain ⟨a, ha, hsa, hstepa⟩ := h.origin hx (hqueued x hx hxq)
    rcases hstepa.queued_cases hxq with ⟨hxa, haq⟩ | ⟨hkind, -⟩
    · rw [hxa]
      exact hinv.reassign a ha haq
    · rw [hsa.action, hkind]

theorem StoreStep.terminal (h : StoreStep digests db db') (ha : a ∈ db.actions.rows)
    (hend : a.status.terminal = true) :
    a ∈ db'.actions.rows := by
  obtain ⟨a', ha', hsame, hstep⟩ := h.kept a ha
  cases hstep with
  | same h => exact h ▸ ha'
  | refused before after => rw [before] at hend; cases hend
  | queued before after kind only => rw [before] at hend; cases hend
  | effected before after kind effect => rw [before] at hend; cases hend
  | cancelled before after => rw [before] at hend; cases hend
  | ended before after => rw [before] at hend; cases hend
  | consumed before after now bound effect => rw [before] at hend; cases hend

def Consumes [Collation] (windowsJson : Account → String) (digests : Digests) (db : SchedulerDb)
    (e : PinEvent) (id : String) : Prop :=
  ∃ a ∈ db.actions.rows, a.id = id ∧ a.status = .queued ∧
    ∃ a' ∈ (pinStep windowsJson digests db e).actions.rows, a'.id = id ∧ a'.status = .applied

/-- **An operator's command takes effect once.** From a store without commands, over every order of
commands, selections, expiries and other requests' writes of the pins: at most one command is queued
for a session and model; a queued reassignment is consumed only while the pin is bound as the
command expects, and once; a command that has come to its end stays as it is; and when a command is
recorded as applied, what it asked for is the case. -/
theorem pinCommands_takeEffectOnce [Collation] (windowsJson : Account → String) (digests : Digests)
    (sqljs : Bool) (pins : Table PinRow.key) (switches : List SwitchRow) (ops : List PinEvent) :
    let start : SchedulerDb := { sqljs, pins, switches }
    let db := run (pinStep windowsJson digests) start ops
    (∀ a ∈ db.actions.rows, ∀ b ∈ db.actions.rows, a.status = .queued → b.status = .queued →
      a.sessionHash = b.sessionHash → a.model = b.model → a = b) ∧
    (∀ e, ∀ a ∈ db.actions.rows, ∀ a' ∈ (pinStep windowsJson digests db e).actions.rows, a'.id = a.id →
      a.status = .queued → a'.status = .applied → ∃ now, StillBound digests db now a) ∧
    (∀ e ops' e' id, Consumes windowsJson digests db e id →
      ¬ Consumes windowsJson digests (run (pinStep windowsJson digests) start (ops ++ e :: ops')) e' id) ∧
    (∀ a ∈ db.actions.rows, a.status.terminal = true →
      ∀ ops', a ∈ (run (pinStep windowsJson digests) start (ops ++ ops')).actions.rows) ∧
    ∀ e, ∀ a ∈ (pinStep windowsJson digests db e).actions.rows, a.status = .applied →
      a ∈ db.actions.rows ∨ InEffect (pinStep windowsJson digests db e) a := by
  intro start db
  have hstart : CommandsInv start := ⟨fun a ha => absurd ha List.not_mem_nil, fun a ha => absurd ha List.not_mem_nil⟩
  have hinv : CommandsInv db :=
    run_inv (I := CommandsInv) (fun s o hs => hs.step (pinStep_spec hs o)) hstart
  have hstay : ∀ (xs ys : List PinEvent) a, a ∈ (run (pinStep windowsJson digests) start xs).actions.rows →
      a.status.terminal = true → a ∈ (run (pinStep windowsJson digests) start (xs ++ ys)).actions.rows := by
    intro xs ys a ha hend
    refine run_keeps (P := fun s => a ∈ s.actions.rows) (fun s o hs => hs.step (pinStep_spec hs o)) (fun s o hs hP => ?_)
      hstart xs ys ha
    exact (pinStep_spec hs o).terminal hP hend
  have hchange : ∀ e, ∀ a ∈ db.actions.rows, ∀ a' ∈ (pinStep windowsJson digests db e).actions.rows, a'.id = a.id →
      ActionStep digests db (pinStep windowsJson digests db e) a a' := by
    intro e a ha a' ha' hid
    obtain ⟨a'', ha'', hsame, hstep⟩ := (pinStep_spec hinv e).kept a ha
    obtain rfl := Table.eq_of_key ha'' ha' (hsame.id.trans hid.symm)
    exact hstep
  refine ⟨hinv.one, ?_, ?_, fun a ha hend ops' => hstay ops ops' a ha hend, ?_⟩
  · intro e a ha a' ha' hid hqueued happlied
    rcases (hchange e a ha a' ha' hid).applied_cases happlied with rfl | ⟨-, hbound⟩
    · rw [hqueued] at happlied
      cases happlied
    · exact hbound hqueued
  · rintro e ops' e' id ⟨a, -, -, -, a', ha', hid', happlied⟩ ⟨b, hb, hbid, hbqueued, -⟩
    -- the record of the first consumption is still there
    have hone : a' ∈ (run (pinStep windowsJson digests) start (ops ++ [e])).actions.rows := by
      rw [run_snoc]
      exact ha'
    have hlater := hstay (ops ++ [e]) ops' a' hone (by rw [happlied]; rfl)
    rw [List.append_assoc, List.singleton_append] at hlater
    have heq := Table.eq_of_key hlater hb (hid'.trans hbid.symm)
    rw [← heq, happlied] at hbqueued
    cases hbqueued
  · intro e a' ha' happlied
    have hrecorded : a'.status ≠ .preview := by
      rw [happlied]
      exact nofun
    obtain ⟨a, ha, -, hstep⟩ := (pinStep_spec hinv e).origin ha' hrecorded
    rcases hstep.applied_cases happlied with rfl | ⟨heffect, -⟩
    · exact Or.inl ha
    · exact Or.inr heffect

end TokenProxy.Scheduler
