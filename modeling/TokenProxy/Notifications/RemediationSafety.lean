import TokenProxy.Lib.Run
import TokenProxy.Notifications.Remediation

/-!
# Remediation stays authorised and bounded

What one operation does to the actions (`ActionsMove`), and from it, over every run, the limits: an
application counts all earlier ones of its day, so no window of a day ever holds more than the
limits allow.
-/

namespace TokenProxy.Notifications

open Lib

/-! ### What an operation does -/

/-- The authority and the alert are as they were when the action was
enqueued, and so is the account. -/
structure Authorised (db : RemediationDb) (item : RemediationAction) (now : Int) : Prop where
  policy : db.policies.get? item.ruleId = some item.policy ∧ item.policy.enabled = true ∧
    item.policy.revision = item.policyRevision
  rule : ∃ rule, db.rules.get? item.ruleId = some rule ∧ rule.enabled = true ∧ rule.revision = item.policy.ruleRevision
  alert : ∃ event, db.events.get? item.eventId = some event ∧ event.outcome = .firing ∧
    ∀ t, event.snoozedUntil = some t → t ≤ now
  account : drain db item.connectionId = item.beforeState

/-- What the limits say of an application at `now`. -/
structure WithinLimits (db : RemediationDb) (item : RemediationAction) (now : Int) : Prop where
  global : (recent db now).length < dailyGlobal
  daily : ((recent db now).filter fun a => a.ruleId = item.ruleId).length < item.policy.dailyLimit
  cooldown : ∀ a ∈ recent db now, a.ruleId = item.ruleId → ∀ t, a.appliedAt = some t →
    t ≤ now - item.policy.cooldownSeconds * 1000

def applied (item : RemediationAction) (now : Int) : RemediationAction :=
  { item with
    state := .applied
    afterState := some { isDraining := true, requestedAt := some now, completedAt := none }
    appliedAt := some now
    updatedAt := now }

inductive ActionsMove (db : RemediationDb) (now : Int) (op : RemediationOp) (db' : RemediationDb) : Prop where
  | same (hactions : db'.actions = db.actions) (hsupply : db'.supply = db.supply)
  | added (event : RuleEvent) (policy : ActionPolicy) (hpolicy : db.policies.get? event.ruleId = some policy)
      (hnew : ∀ a ∈ db.actions.rows, a.eventId ≠ event.id) (hactions : db'.actions = db.actions.put (newAction db event policy now))
      (hsupply : db'.supply = db.supply + 1)
  | refused (item : RemediationAction) (retained : Bool) (state : ActionState) (reason : String)
      (hop : op = .execute item.id retained false) (hget : db.actions.get? item.id = some item) (hqueued : item.state = .queued)
      (hstate : state = .skipped ∨ state = .conflict)
      (hactions : db'.actions = db.actions.put { item with state := state, reasonCode := some reason, updatedAt := now })
      (hsupply : db'.supply = db.supply)
  | applies (item : RemediationAction) (retained : Bool) (hop : op = .execute item.id retained false)
      (hget : db.actions.get? item.id = some item) (hqueued : item.state = .queued) (hauthorised : Authorised db item now)
      (hlimits : WithinLimits db item now) (hactions : db'.actions = db.actions.put (applied item now)) (hsupply : db'.supply = db.supply)
  | rollsBack (item : RemediationAction) (expected : Option DrainState) (hop : op = .rollback item.id expected)
      (hget : db.actions.get? item.id = some item) (happlied : item.state = .applied)
      (hdrain : drain db item.connectionId = item.afterState)
      (hactions : db'.actions = db.actions.put { item with state := .rolledBack, updatedAt := now })
      (hsupply : db'.supply = db.supply)

theorem enqueue_cases (db : RemediationDb) (event : RuleEvent) (now : Int) :
    ((enqueueAuthorizedAction db event now).actions = db.actions ∧ (enqueueAuthorizedAction db event now).supply = db.supply) ∨
      ∃ policy, db.policies.get? event.ruleId = some policy ∧ (∀ a ∈ db.actions.rows, a.eventId ≠ event.id) ∧
        (enqueueAuthorizedAction db event now).actions = db.actions.put (newAction db event policy now) ∧
        (enqueueAuthorizedAction db event now).supply = db.supply + 1 := by
  unfold enqueueAuthorizedAction
  split
  · exact Or.inl ⟨rfl, rfl⟩
  · rename_i policy hpolicy
    split
    · exact Or.inl ⟨rfl, rfl⟩
    · split
      · exact Or.inl ⟨rfl, rfl⟩
      · rename_i hnone
        rw [Bool.not_eq_true, List.any_eq_false] at hnone
        exact Or.inr ⟨policy, hpolicy, fun a ha => by simpa using hnone a ha, rfl, rfl⟩

theorem enqueue_moves (db : RemediationDb) (event : RuleEvent) (now : Int) (op : RemediationOp) :
    ActionsMove db now op (enqueueAuthorizedAction db event now) := by
  obtain ⟨hactions, hsupply⟩ | ⟨policy, hpolicy, hnew, hactions, hsupply⟩ := enqueue_cases db event now
  · exact .same hactions hsupply
  · exact .added event policy hpolicy hnew hactions hsupply

theorem recordFiring_moves (db : RemediationDb) (event : RuleEvent) (now : Int)
    (op : RemediationOp) :
    ActionsMove db now op (recordFiring db event now) := by
  unfold recordFiring
  split
  · exact .same rfl rfl
  · obtain ⟨hactions, hsupply⟩ | ⟨policy, hpolicy, hnew, hactions, hsupply⟩ := enqueue_cases
      { db with events := db.events.put { event with outcome := .firing, snoozedUntil := none } }
      { event with outcome := .firing, snoozedUntil := none } now
    · exact .same hactions hsupply
    · exact .added { event with outcome := .firing, snoozedUntil := none } policy hpolicy hnew hactions hsupply

theorem authorityReason_none {db : RemediationDb} {item : RemediationAction}
    (h : authorityReason db item = none) :
    (db.policies.get? item.ruleId = some item.policy ∧ item.policy.enabled = true ∧ item.policy.revision = item.policyRevision) ∧
      ∃ rule, db.rules.get? item.ruleId = some rule ∧ rule.enabled = true ∧ rule.revision = item.policy.ruleRevision := by
  unfold authorityReason at h
  split at h
  · cases h
  · rename_i current hcurrent
    split at h
    · cases h
    · rename_i hpolicy
      simp only [not_or, Bool.not_eq_false, ne_eq, not_not] at hpolicy
      obtain ⟨henabled, hrevision, heq⟩ := hpolicy
      split at h
      · cases h
      · rename_i rule hrule
        split at h
        · cases h
        · rename_i hrev
          simp only [not_or, Bool.not_eq_false, ne_eq, not_not] at hrev
          rw [heq]
          rw [heq] at hrev
          exact ⟨⟨hcurrent, henabled, hrevision⟩, rule, hrule, hrev.1, hrev.2.1⟩

theorem alertReason_none {db : RemediationDb} {item : RemediationAction} {retained : Bool}
    {now : Int} (h : alertReason db item retained now = none) :
    ∃ event, db.events.get? item.eventId = some event ∧ event.outcome = .firing ∧
      ∀ t, event.snoozedUntil = some t → t ≤ now := by
  unfold alertReason at h
  split at h
  · cases h
  · rename_i event hevent
    split at h
    · cases h
    · split at h
      · cases h
      · rename_i hfiring
        simp only [not_or, ne_eq, not_not, Option.any_eq_true, decide_eq_true_eq, not_exists,
          not_and, not_lt] at hfiring
        exact ⟨event, hevent, hfiring.1, hfiring.2⟩

theorem accountReason_none {db : RemediationDb} {item : RemediationAction}
    (h : accountReason db item = none) :
    drain db item.connectionId = item.beforeState := by
  unfold accountReason at h
  split at h
  · cases h
  · split at h
    · cases h
    · rename_i hsame
      exact not_not.1 hsame

theorem limitReason_none {db : RemediationDb} {item : RemediationAction} {now : Int}
    (h : limitReason db item now = none) :
    WithinLimits db item now := by
  unfold limitReason at h
  simp only at h
  split at h
  · cases h
  · rename_i hglobal
    split at h
    · cases h
    · rename_i hdaily
      split at h
      · cases h
      · rename_i hcooldown
        refine ⟨not_le.1 hglobal, not_le.1 hdaily, fun a ha hrule t ht => ?_⟩
        have hmem : t ∈ ((recent db now).filter fun a => a.ruleId = item.ruleId).filterMap (·.appliedAt) :=
          List.mem_filterMap.2 ⟨a, List.mem_filter.2 ⟨ha, by simpa using hrule⟩, ht⟩
        obtain ⟨last, hlast⟩ : ∃ last, (((recent db now).filter fun a => a.ruleId = item.ruleId).filterMap
            (·.appliedAt)).max? = some last := by
          cases hmax : (((recent db now).filter fun a => a.ruleId = item.ruleId).filterMap (·.appliedAt)).max? with
          | none => rw [List.max?_eq_none_iff.1 hmax] at hmem; cases hmem
          | some last => exact ⟨last, rfl⟩
        have hle : t ≤ last := (List.max?_eq_some_iff.1 hlast).2 t hmem
        rw [hlast] at hcooldown
        simp only [Option.any_some, decide_eq_true_eq, not_lt] at hcooldown
        exact hle.trans hcooldown

theorem eligibility_none {db : RemediationDb} {item : RemediationAction} {retained : Bool}
    {now : Int}
    (h : eligibility db item retained now = none) :
    Authorised db item now ∧ WithinLimits db item now := by
  unfold eligibility at h
  rw [Option.or_eq_none_iff, Option.or_eq_none_iff, Option.or_eq_none_iff] at h
  obtain ⟨hauthority, halert, haccount, hlimit⟩ := h
  obtain ⟨hpolicy, hrule⟩ := authorityReason_none hauthority
  exact ⟨⟨hpolicy, hrule, alertReason_none halert, accountReason_none haccount⟩, limitReason_none hlimit⟩

theorem execute_moves {db db' : RemediationDb} {id : Nat} {retained dryRun : Bool} {now : Int}
    {r : ActionResult} (h : executeAction db id retained dryRun now = .ok (db', r)) :
    ActionsMove db now (.execute id retained dryRun) db' := by
  unfold executeAction at h
  split at h
  · cases h
  · rename_i item hget
    have hid : item.id = id := Table.get?_key hget
    subst hid
    split at h
    · cases h
      exact .same rfl rfl
    · rename_i hqueued
      split at h
      · cases h
        exact .same rfl rfl
      · rename_i reason hreason
        cases h
        refine .refused item retained _ reason rfl hget (not_not.1 hqueued) ?_ rfl rfl
        split <;> simp
      · rename_i hnone
        cases h
        obtain ⟨hauthorised, hlimits⟩ := eligibility_none hnone
        exact .applies item retained rfl hget (not_not.1 hqueued) hauthorised hlimits rfl rfl

theorem rollback_moves {db db' : RemediationDb} {id : Nat} {expected : Option DrainState}
    {now : Int} {r : ActionResult} (h : rollbackAction db id expected now = .ok (db', r)) :
    ActionsMove db now (.rollback id expected) db' := by
  unfold rollbackAction at h
  split at h
  · cases h
  · rename_i item hget
    have hid : item.id = id := Table.get?_key hget
    subst hid
    split at h
    · cases h
      exact .same rfl rfl
    · rename_i hsame
      split at h
      · cases h
      · cases h
        simp only [ne_eq, not_or, not_not] at hsame
        exact .rollsBack item expected rfl hget hsame.1 hsame.2.2 rfl rfl

/-- **Step.** What one operation does to the actions. -/
theorem remediation_moves (db : RemediationDb) (now : Int) (op : RemediationOp) :
    ActionsMove db now op (remediationApply db now op) := by
  cases op with
  | firing event => exact recordFiring_moves db event now _
  | acknowledge id => exact .same rfl rfl
  | snooze id snoozedUntil =>
    simp only [remediationApply]
    split <;> exact .same rfl rfl
  | enqueue event => exact enqueue_moves db event now _
  | savePolicy input =>
    simp only [remediationApply, saveActionPolicy]
    cases validateActionPolicy db input now with
    | error e => exact .same rfl rfl
    | ok policy => exact .same rfl rfl
  | createRule rule =>
    simp only [remediationApply]
    split <;> exact .same rfl rfl
  | updateRule id expectedRevision rule =>
    simp only [remediationApply]
    split
    · exact .same rfl rfl
    · split <;> exact .same rfl rfl
  | deleteRule id expectedRevision =>
    simp only [remediationApply]
    split
    · exact .same rfl rfl
    · split <;> exact .same rfl rfl
  | setDrain id value => exact .same rfl rfl
  | setAccount id value => exact .same rfl rfl
  | execute id retained dryRun =>
    simp only [remediationApply]
    cases h : executeAction db id retained dryRun now with
    | error e => exact .same rfl rfl
    | ok r => exact execute_moves h
  | rollback id expected =>
    simp only [remediationApply]
    cases h : rollbackAction db id expected now with
    | error e => exact .same rfl rfl
    | ok r => exact rollback_moves h

/-! ### Limits over a run -/

/-- The action was applied in the day that begins at `t`. -/
def RemediationAction.appliedIn (a : RemediationAction) (t : Int) : Bool :=
  a.appliedAt.any fun u => t ≤ u && u ≤ t + dayMs

structure RemediationInv (s : RemediationRun) : Prop where
  oneAction : ∀ a ∈ s.db.actions.rows, ∀ b ∈ s.db.actions.rows, a.eventId = b.eventId → a = b
  fresh : ∀ a ∈ s.db.actions.rows, a.id < s.db.supply
  policyRule : ∀ a ∈ s.db.actions.rows, a.policy.ruleId = a.ruleId
  past : ∀ a ∈ s.db.actions.rows, ∀ t, a.appliedAt = some t → t ≤ s.clock
  queued : ∀ a ∈ s.db.actions.rows, a.state = .queued → a.appliedAt = none
  global : ∀ t, s.db.actions.rows.countP (fun a => a.appliedIn t) ≤ dailyGlobal
  daily : ∀ policy t, s.db.actions.rows.countP (fun a => a.appliedIn t && a.policy = policy) ≤ policy.dailyLimit
  cooldown : ∀ a ∈ s.db.actions.rows, ∀ b ∈ s.db.actions.rows, a ≠ b → a.policy = b.policy → ∀ t u,
    a.appliedAt = some t → b.appliedAt = some u → t ≤ u → t + a.policy.cooldownSeconds * 1000 ≤ u

theorem RemediationInv.put {s : RemediationRun} (h : RemediationInv s) {db' : RemediationDb}
    {dt : Nat}
    {item item' : RemediationAction} (hactions : db'.actions = s.db.actions.put item') (hsupply : db'.supply = s.db.supply)
    (hget : s.db.actions.get? item.id = some item) (hid : item'.id = item.id) (hevent : item'.eventId = item.eventId)
    (hrule : item'.ruleId = item.ruleId) (hpolicy : item'.policy = item.policy)
    (hqueued : item'.state = .queued → item'.appliedAt = none)
    (hpast : ∀ t, item'.appliedAt = some t → t ≤ s.clock + dt)
    (hglobal : ∀ t, db'.actions.rows.countP (fun a => a.appliedIn t) ≤ dailyGlobal)
    (hdaily : ∀ policy t, db'.actions.rows.countP (fun a => a.appliedIn t && a.policy = policy) ≤ policy.dailyLimit)
    (hcooldown : ∀ b ∈ s.db.actions.rows, b ≠ item → b.policy = item.policy → ∀ t u, item'.appliedAt = some t →
      b.appliedAt = some u →
        (t ≤ u → t + item.policy.cooldownSeconds * 1000 ≤ u) ∧ (u ≤ t → u + item.policy.cooldownSeconds * 1000 ≤ t)) :
    RemediationInv { db := db', clock := s.clock + dt } := by
  have hitem : item ∈ s.db.actions.rows := Table.get?_mem hget
  have hmem : ∀ a ∈ db'.actions.rows, a = item' ∨ (a ∈ s.db.actions.rows ∧ a ≠ item) := by
    intro a ha
    rw [hactions] at ha
    obtain ha | ⟨ha, hne⟩ := Table.mem_put.1 ha
    · exact Or.inl ha
    · exact Or.inr ⟨ha, fun heq => hne (by rw [heq, hid])⟩
  refine ⟨?_, ?_, ?_, ?_, ?_, hglobal, hdaily, ?_⟩
  · intro a ha b hb heq
    obtain rfl | ⟨ha, hane⟩ := hmem a ha
    · obtain rfl | ⟨hb, hbne⟩ := hmem b hb
      · rfl
      · exact absurd (h.oneAction b hb item hitem (by rw [← heq, hevent])) hbne
    · obtain rfl | ⟨hb, hbne⟩ := hmem b hb
      · exact absurd (h.oneAction a ha item hitem (by rw [heq, hevent])) hane
      · exact h.oneAction a ha b hb heq
  · intro a ha
    show a.id < db'.supply
    rw [hsupply]
    obtain rfl | ⟨ha, -⟩ := hmem a ha
    · rw [hid]
      exact h.fresh item hitem
    · exact h.fresh a ha
  · intro a ha
    obtain rfl | ⟨ha, -⟩ := hmem a ha
    · rw [hpolicy, hrule]
      exact h.policyRule item hitem
    · exact h.policyRule a ha
  · intro a ha t ht
    obtain rfl | ⟨ha, -⟩ := hmem a ha
    · exact hpast t ht
    · have hle := h.past a ha t ht
      show t ≤ s.clock + dt
      omega
  · intro a ha hstate
    obtain rfl | ⟨ha, -⟩ := hmem a ha
    · exact hqueued hstate
    · exact h.queued a ha hstate
  · intro a ha b hb hne heq t u ht hu hle
    obtain rfl | ⟨ha, hane⟩ := hmem a ha
    · obtain rfl | ⟨hb, hbne⟩ := hmem b hb
      · exact absurd rfl hne
      · rw [hpolicy] at heq ⊢
        exact (hcooldown b hb hbne heq.symm t u ht hu).1 hle
    · obtain rfl | ⟨hb, -⟩ := hmem b hb
      · rw [heq, hpolicy]
        exact (hcooldown a ha hane (heq.trans hpolicy) u t hu ht).2 hle
      · exact h.cooldown a ha b hb hne heq t u ht hu hle

theorem RemediationInv.replace {s : RemediationRun} (h : RemediationInv s) {db' : RemediationDb}
    {dt : Nat}
    {item item' : RemediationAction} (hactions : db'.actions = s.db.actions.put item') (hsupply : db'.supply = s.db.supply)
    (hget : s.db.actions.get? item.id = some item) (hid : item'.id = item.id) (hevent : item'.eventId = item.eventId)
    (hrule : item'.ruleId = item.ruleId) (hpolicy : item'.policy = item.policy)
    (happlied : item'.appliedAt = item.appliedAt) (hstate : item'.state ≠ .queued) :
    RemediationInv { db := db', clock := s.clock + dt } := by
  have hitem : item ∈ s.db.actions.rows := Table.get?_mem hget
  have hget' : s.db.actions.get? item'.id = some item := by rw [hid, hget]
  have hin (t : Int) : item.appliedIn t = item'.appliedIn t := by rw [RemediationAction.appliedIn, RemediationAction.appliedIn, happlied]
  refine h.put hactions hsupply hget hid hevent hrule hpolicy (fun hq => absurd hq hstate) ?_ ?_ ?_ ?_
  · intro t ht
    rw [happlied] at ht
    have hle := h.past item hitem t ht
    omega
  · intro t
    rw [hactions, Table.countP_put_same hget' (hin t)]
    exact h.global t
  · intro policy t
    rw [hactions, Table.countP_put_same hget' (by rw [hin, hpolicy])]
    exact h.daily policy t
  · intro b hb hne heq t u ht hu
    rw [happlied] at ht
    refine ⟨fun hle => ?_, fun hle => ?_⟩
    · exact h.cooldown item hitem b hb hne.symm heq.symm t u ht hu hle
    · rw [← heq]
      exact h.cooldown b hb item hitem hne heq u t hu ht hle

theorem RemediationInv.add {s : RemediationRun} (h : RemediationInv s) {db' : RemediationDb}
    {dt : Nat} {item : RemediationAction}
    (hactions : db'.actions = s.db.actions.put item) (hsupply : db'.supply = s.db.supply + 1) (hid : item.id = s.db.supply)
    (hrule : item.policy.ruleId = item.ruleId) (happlied : item.appliedAt = none)
    (hnew : ∀ a ∈ s.db.actions.rows, a.eventId ≠ item.eventId) :
    RemediationInv { db := db', clock := s.clock + dt } := by
  have hmem : ∀ a ∈ db'.actions.rows, a = item ∨ a ∈ s.db.actions.rows := by
    intro a ha
    rw [hactions] at ha
    exact (Table.mem_put.1 ha).imp id And.left
  have hin (t : Int) : item.appliedIn t = false := by simp [RemediationAction.appliedIn, happlied]
  refine ⟨?_, ?_, ?_, ?_, ?_, ?_, ?_, ?_⟩
  · intro a ha b hb heq
    obtain rfl | ha := hmem a ha
    · obtain rfl | hb := hmem b hb
      · rfl
      · exact absurd heq.symm (hnew b hb)
    · obtain rfl | hb := hmem b hb
      · exact absurd heq (hnew a ha)
      · exact h.oneAction a ha b hb heq
  · intro a ha
    show a.id < db'.supply
    rw [hsupply]
    obtain rfl | ha := hmem a ha
    · omega
    · exact Nat.lt_succ_of_lt (h.fresh a ha)
  · intro a ha
    obtain rfl | ha := hmem a ha
    · exact hrule
    · exact h.policyRule a ha
  · intro a ha t ht
    obtain rfl | ha := hmem a ha
    · rw [happlied] at ht
      cases ht
    · have hle := h.past a ha t ht
      show t ≤ s.clock + dt
      omega
  · intro a ha hstate
    obtain rfl | ha := hmem a ha
    · exact happlied
    · exact h.queued a ha hstate
  · intro t
    show db'.actions.rows.countP _ ≤ _
    rw [hactions]
    refine (Table.countP_put_le _ _ _).trans ?_
    simpa [hin] using h.global t
  · intro policy t
    show db'.actions.rows.countP _ ≤ _
    rw [hactions]
    refine (Table.countP_put_le _ _ _).trans ?_
    simpa [hin] using h.daily policy t
  · intro a ha b hb hne heq t u ht hu hle
    obtain rfl | ha := hmem a ha
    · rw [happlied] at ht
      cases ht
    · obtain rfl | hb := hmem b hb
      · rw [happlied] at hu
        cases hu
      · exact h.cooldown a ha b hb hne heq t u ht hu hle

theorem appliedIn_recent (db : RemediationDb) {t now : Int} (hnow : now ≤ t + dayMs)
    (p : RemediationAction → Bool) :
    db.actions.rows.countP (fun a => a.appliedIn t && p a) ≤ ((recent db now).filter p).length := by
  rw [recent, List.filter_filter, List.countP_eq_length_filter]
  refine (List.monotone_filter_right _ fun a ha => ?_).length_le
  simp only [RemediationAction.appliedIn, Bool.and_eq_true, Option.any_eq_true, decide_eq_true_eq] at ha ⊢
  obtain ⟨⟨u, hu, hfrom, hto⟩, hp⟩ := ha
  exact ⟨hp, u, hu, by omega⟩

theorem RemediationInv.apply {s : RemediationRun} (h : RemediationInv s) {db' : RemediationDb}
    {dt : Nat} {item : RemediationAction} (hget : s.db.actions.get? item.id = some item)
    (hlimits : WithinLimits s.db item (s.clock + dt)) (hactions : db'.actions = s.db.actions.put (applied item (s.clock + dt)))
    (hsupply : db'.supply = s.db.supply) : RemediationInv { db := db', clock := s.clock + dt } := by
  have hitem : item ∈ s.db.actions.rows := Table.get?_mem hget
  have hin (t : Int) : (applied item (s.clock + dt)).appliedIn t = true ↔ t ≤ s.clock + dt ∧ s.clock + dt ≤ t + dayMs := by
    simp [RemediationAction.appliedIn, applied]
  refine h.put hactions hsupply hget rfl rfl rfl rfl (fun hq => by cases hq) ?_ ?_ ?_ ?_
  · intro t ht
    obtain rfl : s.clock + dt = t := by simpa [applied] using ht
    exact le_rfl
  · intro t
    rw [hactions]
    refine (Table.countP_put_le _ _ _).trans ?_
    by_cases ht : (applied item (s.clock + dt)).appliedIn t = true
    · have hrecent := appliedIn_recent s.db ((hin t).1 ht).2 fun _ => true
      simp only [Bool.and_true, List.filter_true] at hrecent
      rw [if_pos ht]
      have hglobal := hlimits.global
      omega
    · rw [if_neg ht]
      exact h.global t
  · intro policy t
    rw [hactions]
    refine (Table.countP_put_le _ _ _).trans ?_
    by_cases ht : ((applied item (s.clock + dt)).appliedIn t && (applied item (s.clock + dt)).policy = policy) = true
    · rw [if_pos ht]
      rw [Bool.and_eq_true, decide_eq_true_eq] at ht
      have hpolicy : item.policy = policy := ht.2
      have hrecent := appliedIn_recent s.db ((hin t).1 ht.1).2 fun a => decide (a.policy = policy)
      have hsame : ((recent s.db (s.clock + dt)).filter fun a => a.policy = policy).length ≤
          ((recent s.db (s.clock + dt)).filter fun a => a.ruleId = item.ruleId).length := by
        rw [← List.countP_eq_length_filter, ← List.countP_eq_length_filter]
        refine List.countP_mono_left fun a ha hap => ?_
        rw [decide_eq_true_eq] at hap ⊢
        rw [← h.policyRule a (List.mem_filter.1 ha).1, hap, ← hpolicy, h.policyRule item hitem]
      have hdaily := hlimits.daily
      rw [hpolicy] at hdaily
      omega
    · rw [if_neg ht]
      exact h.daily policy t
  · intro b hb hne heq t u ht hu
    obtain rfl : s.clock + dt = t := by simpa [applied] using ht
    have hpast := h.past b hb u hu
    have hcool := item.policy.cooldown_mem
    have hlate : u + item.policy.cooldownSeconds * 1000 ≤ s.clock + dt := by
      by_cases hrecent : s.clock + dt - dayMs ≤ u
      · have hbrule : b.ruleId = item.ruleId := by
          rw [← h.policyRule b hb, heq, h.policyRule item hitem]
        have hle := hlimits.cooldown b (List.mem_filter.2 ⟨hb, by simpa [hu] using hrecent⟩) hbrule u hu
        omega
      · simp only [dayMs] at hrecent
        omega
    refine ⟨fun hle => ?_, fun _ => hlate⟩
    omega

theorem RemediationInv.elapse {s : RemediationRun} (h : RemediationInv s) {db' : RemediationDb}
    {dt : Nat} (hactions : db'.actions = s.db.actions) (hsupply : db'.supply = s.db.supply) :
    RemediationInv { db := db', clock := s.clock + dt } := by
  obtain ⟨oneAction, fresh, policyRule, past, queued, global, daily, cooldown⟩ := h
  rw [← hactions] at oneAction fresh policyRule past queued global daily cooldown
  rw [← hsupply] at fresh
  refine ⟨oneAction, fresh, policyRule, fun a ha t ht => ?_, queued, global, daily, cooldown⟩
  have hle := past a ha t ht
  show t ≤ s.clock + dt
  omega

/-- **Run step.** Every operation keeps the limits. -/
theorem RemediationInv.step {s : RemediationRun} (h : RemediationInv s) (op : Nat × RemediationOp) :
    RemediationInv (remediationStep s op) := by
  obtain ⟨dt, op⟩ := op
  have hstep : remediationStep s (dt, op) = { db := remediationApply s.db (s.clock + dt) op, clock := s.clock + dt } := rfl
  rw [hstep]
  cases remediation_moves s.db (s.clock + dt) op with
  | same hactions hsupply => exact h.elapse hactions hsupply
  | added event policy hpolicy hnew hactions hsupply =>
    exact h.add hactions hsupply rfl (Table.get?_key hpolicy) rfl hnew
  | refused item retained state reason hop hget hqueued hstate hactions hsupply =>
    refine h.replace hactions hsupply hget rfl rfl rfl rfl rfl ?_
    obtain rfl | rfl := hstate <;> simp
  | applies item retained hop hget hqueued hauthorised hlimits hactions hsupply => exact h.apply hget hlimits hactions hsupply
  | rollsBack item expected hop hget happlied hdrain hactions hsupply =>
    refine h.replace hactions hsupply hget rfl rfl rfl rfl rfl ?_
    simp

theorem remediationInv_initial : RemediationInv {} where
  oneAction a ha := by cases ha
  fresh a ha := by cases ha
  policyRule a ha := by cases ha
  past a ha := by cases ha
  queued a ha := by cases ha
  global t := Nat.zero_le dailyGlobal
  daily policy t := Nat.zero_le policy.dailyLimit
  cooldown a ha := by cases ha

/-! ### What an application wrote -/

/-- What an application at `now` writes for the account. -/
def writtenState (now : Int) : DrainState := { isDraining := true, requestedAt := some now, completedAt := none }

def Remembered (s : RemediationRun) : Prop :=
  ∀ a ∈ s.db.actions.rows, a.state = .applied → ∃ t, a.appliedAt = some t ∧ a.afterState = some (writtenState t)

theorem Remembered.step {s : RemediationRun} (h : Remembered s) (op : Nat × RemediationOp) :
    Remembered (remediationStep s op) := by
  obtain ⟨dt, op⟩ := op
  intro a ha hstate
  change a ∈ (remediationApply s.db (s.clock + dt) op).actions.rows at ha
  cases remediation_moves s.db (s.clock + dt) op with
  | same hactions hsupply => exact h a (hactions ▸ ha) hstate
  | added event policy hpolicy hnew hactions hsupply =>
    rw [hactions] at ha
    obtain rfl | ⟨ha, -⟩ := Table.mem_put.1 ha
    · simp only [newAction] at hstate
      split at hstate <;> cases hstate
    · exact h a ha hstate
  | refused item retained state reason hop hget hqueued hended hactions hsupply =>
    rw [hactions] at ha
    obtain rfl | ⟨ha, -⟩ := Table.mem_put.1 ha
    · obtain rfl | rfl := hended <;> cases hstate
    · exact h a ha hstate
  | applies item retained hop hget hqueued hauthorised hlimits hactions hsupply =>
    rw [hactions] at ha
    obtain rfl | ⟨ha, -⟩ := Table.mem_put.1 ha
    · exact ⟨s.clock + dt, rfl, rfl⟩
    · exact h a ha hstate
  | rollsBack item expected hop hget happlied hdrain hactions hsupply =>
    rw [hactions] at ha
    obtain rfl | ⟨ha, -⟩ := Table.mem_put.1 ha
    · cases hstate
    · exact h a ha hstate

/-- A rollback that changes an account's drain is of an applied action whose
account is as the action left it. -/
theorem rollback_drain {s : RemediationRun} (h : Remembered s) {id : Nat}
    {expected : Option DrainState} {now : Int} {c : String}
    (hchanged : drain (remediationApply s.db now (.rollback id expected)) c ≠ drain s.db c) :
    ∃ a ∈ s.db.actions.rows, a.id = id ∧ a.connectionId = c ∧ a.state = .applied ∧ expected = a.afterState ∧
      ∃ t, a.appliedAt = some t ∧ drain s.db c = some (writtenState t) := by
  simp only [remediationApply, rollbackAction] at hchanged
  split at hchanged
  · exact absurd rfl hchanged
  · rename_i item hget
    split at hchanged
    · exact absurd rfl hchanged
    · rename_i hsame
      simp only [ne_eq, not_or, not_not] at hsame
      obtain ⟨happlied, hexpected, hdrain⟩ := hsame
      split at hchanged
      · exact absurd rfl hchanged
      · have hmem := Table.get?_mem hget
        obtain ⟨t, htime, hafter⟩ := h item hmem happlied
        have hc : item.connectionId = c := by
          by_contra hne
          refine hchanged ?_
          simp only [settled, receipt, drain]
          split
          · have hother : c ≠ (item.connectionId, restoredState item now).1 := Ne.symm hne
            rw [Table.get?_put_ne s.db.drains hother]
          · rfl
        subst hc
        exact ⟨item, hmem, Table.get?_key hget, rfl, happlied, hexpected, t, htime, hdrain.trans hafter⟩

/-! ### The law -/

/-- What an operation may do to an action: end it unapplied, apply it within its authority
and the limits, roll it back. -/
inductive ActionTransition (db : RemediationDb) (now : Int) (op : RemediationOp) (a a' : RemediationAction) : Prop where
  | kept (h : a' = a)
  | ended (retained : Bool) (state : ActionState) (reason : String) (hop : op = .execute a.id retained false)
      (hqueued : a.state = .queued) (hstate : state = .skipped ∨ state = .conflict)
      (h : a' = { a with state := state, reasonCode := some reason, updatedAt := now })
  | applies (retained : Bool) (hop : op = .execute a.id retained false) (hqueued : a.state = .queued)
      (hauthorised : Authorised db a now) (hlimits : WithinLimits db a now) (h : a' = applied a now)
  | rollsBack (expected : Option DrainState) (hop : op = .rollback a.id expected) (happlied : a.state = .applied)
      (hdrain : drain db a.connectionId = a.afterState) (h : a' = { a with state := .rolledBack, updatedAt := now })

theorem RemediationInv.transition {s : RemediationRun} (h : RemediationInv s) (op : RemediationOp)
    (now : Int) {a : RemediationAction} (ha : a ∈ s.db.actions.rows) :
    ∃ a' ∈ (remediationApply s.db now op).actions.rows, ActionTransition s.db now op a a' := by
  -- an action of another identifier stays where it is
  have hother {item item' : RemediationAction} (hget : s.db.actions.get? item.id = some item) (hid : item'.id = item.id)
      (hne : a ≠ item) : a ∈ (s.db.actions.put item').rows :=
    Table.mem_put.2 (Or.inr ⟨ha, fun heq => hne (Table.eq_of_key ha (Table.get?_mem hget) (heq.trans hid))⟩)
  cases remediation_moves s.db now op with
  | same hactions hsupply => exact ⟨a, hactions ▸ ha, .kept rfl⟩
  | added event policy hpolicy hnew hactions hsupply =>
    refine ⟨a, ?_, .kept rfl⟩
    rw [hactions]
    exact Table.mem_put.2 (Or.inr ⟨ha, fun heq => absurd (h.fresh a ha) (by simp [heq, newAction])⟩)
  | refused item retained state reason hop hget hqueued hended hactions hsupply =>
    rw [hactions]
    by_cases hne : a = item
    · subst hne
      exact ⟨_, Table.mem_put_self _ _, .ended retained state reason hop hqueued hended rfl⟩
    · exact ⟨a, hother hget rfl hne, .kept rfl⟩
  | applies item retained hop hget hqueued hauthorised hlimits hactions hsupply =>
    rw [hactions]
    by_cases hne : a = item
    · subst hne
      exact ⟨_, Table.mem_put_self _ _, .applies retained hop hqueued hauthorised hlimits rfl⟩
    · exact ⟨a, hother hget rfl hne, .kept rfl⟩
  | rollsBack item expected hop hget happlied hdrain hactions hsupply =>
    rw [hactions]
    by_cases hne : a = item
    · subst hne
      exact ⟨_, Table.mem_put_self _ _, .rollsBack expected hop happlied hdrain rfl⟩
    · exact ⟨a, hother hget rfl hne, .kept rfl⟩

theorem new_action (db : RemediationDb) (op : RemediationOp) (now : Int) {a : RemediationAction}
    (ha : a ∈ (remediationApply db now op).actions.rows) (hnew : ∀ b ∈ db.actions.rows, b.id ≠ a.id) :
    (a.state = .queued ∨ a.state = .skipped) ∧ a.appliedAt = none ∧ a.beforeState = drain db a.connectionId := by
  cases remediation_moves db now op with
  | same hactions hsupply => exact absurd rfl (hnew a (hactions ▸ ha))
  | added event policy hpolicy hfresh hactions hsupply =>
    rw [hactions] at ha
    obtain rfl | ⟨ha, -⟩ := Table.mem_put.1 ha
    · refine ⟨?_, rfl, rfl⟩
      simp only [newAction]
      split <;> simp
    · exact absurd rfl (hnew a ha)
  | refused item retained state reason hop hget hqueued hended hactions hsupply =>
    rw [hactions] at ha
    obtain rfl | ⟨ha, -⟩ := Table.mem_put.1 ha
    · exact absurd rfl (hnew item (Table.get?_mem hget))
    · exact absurd rfl (hnew a ha)
  | applies item retained hop hget hqueued hauthorised hlimits hactions hsupply =>
    rw [hactions] at ha
    obtain rfl | ⟨ha, -⟩ := Table.mem_put.1 ha
    · exact absurd rfl (hnew item (Table.get?_mem hget))
    · exact absurd rfl (hnew a ha)
  | rollsBack item expected hop hget happlied hdrain hactions hsupply =>
    rw [hactions] at ha
    obtain rfl | ⟨ha, -⟩ := Table.mem_put.1 ha
    · exact absurd rfl (hnew item (Table.get?_mem hget))
    · exact absurd rfl (hnew a ha)

theorem dryRun_same (db : RemediationDb) (id : Nat) (retained : Bool) (now : Int) :
    remediationApply db now (.execute id retained true) = db := by
  simp only [remediationApply, executeAction]
  split
  · rfl
  · split <;> rfl

/-- **Remediation stays authorised and bounded.** After any run, with `now` any time that is not
before the last operation: an event has one action, the applications of every day are within the
limits and those of one policy as far apart as it says; the next operation moves every action as
`ActionTransition` says, a new one is queued or skipped, a rollback changes only what an application
wrote and a dry run changes nothing. -/
theorem remediation_bounded (ops : List (Nat × RemediationOp)) :
    let s := run remediationStep {} ops
    let actions := s.db.actions.rows
    (∀ a ∈ actions, ∀ b ∈ actions, a.eventId = b.eventId → a = b) ∧
      (∀ t, actions.countP (fun a => a.appliedIn t) ≤ dailyGlobal) ∧
      (∀ policy t, actions.countP (fun a => a.appliedIn t && a.policy = policy) ≤ policy.dailyLimit) ∧
      (∀ a ∈ actions, ∀ b ∈ actions, a ≠ b → a.policy = b.policy → ∀ t u, a.appliedAt = some t → b.appliedAt = some u →
        t ≤ u → t + a.policy.cooldownSeconds * 1000 ≤ u) ∧
      ∀ (dt : Nat) op, let now := s.clock + dt
        (∀ a ∈ actions, ∃ a' ∈ (remediationApply s.db now op).actions.rows, ActionTransition s.db now op a a') ∧
        (∀ a ∈ (remediationApply s.db now op).actions.rows, (∀ b ∈ actions, b.id ≠ a.id) →
          (a.state = .queued ∨ a.state = .skipped) ∧ a.appliedAt = none ∧ a.beforeState = drain s.db a.connectionId) ∧
        (∀ id expected c, op = .rollback id expected → drain (remediationApply s.db now op) c ≠ drain s.db c →
          ∃ a ∈ actions, a.id = id ∧ a.connectionId = c ∧ a.state = .applied ∧ expected = a.afterState ∧
            ∃ t, a.appliedAt = some t ∧ drain s.db c = some (writtenState t)) ∧
        ∀ id retained, op = .execute id retained true → remediationApply s.db now op = s.db := by
  intro s actions
  have hinv : RemediationInv s := run_inv (I := RemediationInv) (fun _ op h => h.step op) remediationInv_initial
  have hremembered : Remembered s := run_inv (I := Remembered) (fun _ op h => h.step op) (fun a ha => by cases ha)
  refine ⟨hinv.oneAction, hinv.global, hinv.daily, hinv.cooldown, ?_⟩
  intro dt op now
  refine ⟨fun a ha => hinv.transition op now ha, fun a ha hnew => new_action s.db op now ha hnew, ?_, ?_⟩
  · rintro id expected c rfl hchanged
    exact rollback_drain hremembered hchanged
  · rintro id retained rfl
    exact dryRun_same s.db id retained now

end TokenProxy.Notifications
