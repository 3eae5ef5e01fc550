import Mathlib.Data.Int.Order.Basic
import TokenProxy.Lib.Table

/-!
# Remediation actions

An operator authorises one action, to drain the account of a rule. An alert of the rule enqueues the
action under the policy as it then is, and the action is applied later if rule, policy, alert,
evidence and account still allow it. An applied action can be rolled back while the account is as
the action left it.

Every function is one transaction with its own clock, in milliseconds. What the tables of the
evidence still hold (`retainedEvidenceMatches`) and the accounts belong to the environment. A state
that was stored as JSON is compared by its canonical form, so the fields of the drain state stand
for it.
-/

namespace TokenProxy.Notifications

open Lib

/-! ### Tables -/

def queuedLimit : Nat := 256

def dailyGlobal : Nat := 20

def dayMs : Int := 86400000

def automationConditions : List String :=
  ["quota_risk", "stale_telemetry", "repeated_fallback", "operation_failure", "compression_saver_failure"]

inductive ScopeKind where
  | global
  | connection
  | provider
  deriving DecidableEq

/-- A row of `notificationRules`. -/
structure NotificationRule where
  id : String
  revision : Nat
  scopeKind : ScopeKind
  scopeId : Option String
  conditionKind : String
  enabled : Bool
  deriving DecidableEq

inductive AlertOutcome where
  | firing
  | acknowledged
  deriving DecidableEq

/-- A row of `notificationRuleEvents`; a time is none if its text is no instant. -/
structure RuleEvent where
  id : String
  ruleId : String
  ruleRevision : Nat
  scopeKey : String
  firedAt : Option Int
  refs : List String
  outcome : AlertOutcome := .firing
  snoozedUntil : Option Int := none
  deriving DecidableEq

/-- A row of `notificationActionPolicies`, within the bounds of its columns. -/
structure ActionPolicy where
  ruleId : String
  revision : Nat
  ruleRevision : Nat
  connectionId : String
  enabled : Bool
  cooldownSeconds : Int
  dailyLimit : Nat
  maxEvidenceAgeSeconds : Int
  createdAt : Int
  updatedAt : Int
  cooldown_mem : 60 ≤ cooldownSeconds ∧ cooldownSeconds ≤ 86400
  limit_mem : 1 ≤ dailyLimit ∧ dailyLimit ≤ 10
  age_mem : 60 ≤ maxEvidenceAgeSeconds ∧ maxEvidenceAgeSeconds ≤ 3600
  deriving DecidableEq

/-- The value that `admin.drain` keeps for an account. -/
structure DrainState where
  isDraining : Bool
  requestedAt : Option Int
  completedAt : Option Int
  deriving DecidableEq

inductive ActionState where
  | queued
  | applied
  | skipped
  | conflict
  | rolledBack
  deriving DecidableEq

/-- A row of `notificationActions`. -/
structure RemediationAction where
  id : Nat
  eventId : String
  ruleId : String
  policyRevision : Nat
  connectionId : String
  policy : ActionPolicy
  beforeState : Option DrainState
  afterState : Option DrainState := none
  state : ActionState
  reasonCode : Option String := none
  createdAt : Int
  appliedAt : Option Int := none
  updatedAt : Int
  deriving DecidableEq

/-- A row of `notificationActionReceipts`. -/
structure ActionReceipt where
  actionId : Nat
  operation : String
  outcome : String
  reasonCode : Option String
  createdAt : Int
  deriving DecidableEq

/-- `accounts` says of each connection whether it is active; `supply` draws identifiers. -/
structure RemediationDb where
  rules : Table NotificationRule.id := .empty
  events : Table RuleEvent.id := .empty
  policies : Table ActionPolicy.ruleId := .empty
  actions : Table RemediationAction.id := .empty
  drains : Dict String DrainState := .empty
  accounts : Dict String Bool := .empty
  receipts : List ActionReceipt := []
  supply : Nat := 0

def drain (db : RemediationDb) (id : String) : Option DrainState := (db.drains.get? id).map Prod.snd

def receipt (db : RemediationDb) (id : Nat) (operation outcome : String)
    (reasonCode : Option String) (now : Int) :
    RemediationDb :=
  { db with receipts := db.receipts ++ [⟨id, operation, outcome, reasonCode, now⟩] }

/-! ### Policies -/

structure PolicyInput where
  ruleId : String
  ruleRevision : Nat
  expectedRevision : Nat
  enabled : Bool
  action : String
  cooldownSeconds : Int
  dailyLimit : Nat
  maxEvidenceAgeSeconds : Int
  deriving DecidableEq

def boundedPolicy (input : PolicyInput) (connectionId : String) (existing : Option ActionPolicy)
    (now : Int) :
    Except String ActionPolicy :=
  if hc : 60 ≤ input.cooldownSeconds ∧ input.cooldownSeconds ≤ 86400 then
    if hl : 1 ≤ input.dailyLimit ∧ input.dailyLimit ≤ 10 then
      if ha : 60 ≤ input.maxEvidenceAgeSeconds ∧ input.maxEvidenceAgeSeconds ≤ 3600 then
        if input.expectedRevision ≠ (existing.map (·.revision)).getD 0 then .error "action_revision_conflict"
        else .ok
          { ruleId := input.ruleId
            revision := (existing.map (·.revision)).getD 0 + 1
            ruleRevision := input.ruleRevision
            connectionId := connectionId
            enabled := input.enabled
            cooldownSeconds := input.cooldownSeconds
            dailyLimit := input.dailyLimit
            maxEvidenceAgeSeconds := input.maxEvidenceAgeSeconds
            createdAt := (existing.map (·.createdAt)).getD now
            updatedAt := now
            cooldown_mem := hc
            limit_mem := hl
            age_mem := ha }
      else .error "invalid_maxEvidenceAgeSeconds"
    else .error "invalid_dailyLimit"
  else .error "invalid_cooldownSeconds"

def validateActionPolicy (db : RemediationDb) (input : PolicyInput)
    (now : Int) : Except String ActionPolicy :=
  if input.ruleId = "" ∨ 128 < input.ruleId.length ∨ input.ruleRevision < 1 then .error "invalid_rule_identity"
  else
    match db.rules.get? input.ruleId with
    | none => .error "rule_not_found"
    | some rule =>
      if rule.revision ≠ input.ruleRevision then .error "rule_revision_conflict"
      else
        match rule.scopeKind, rule.scopeId with
        | .connection, some connectionId =>
          if connectionId = "" then .error "one_account_rule_required"
          else if rule.conditionKind ∉ automationConditions then .error "condition_has_no_account_action"
          else if (db.accounts.get? connectionId).isNone then .error "account_not_found"
          else if input.action ≠ "drain-account" then .error "invalid_action"
          else if input.enabled ∧ ¬ rule.enabled then .error "rule_disabled"
          else boundedPolicy input connectionId (db.policies.get? input.ruleId) now
        | _, _ => .error "one_account_rule_required"

def saveActionPolicy (db : RemediationDb) (input : PolicyInput)
    (now : Int) : Except String RemediationDb :=
  match validateActionPolicy db input now with
  | .error e => .error e
  | .ok policy => .ok { db with policies := db.policies.put policy }

/-! ### Enqueue -/

def evidenceReason (event : RuleEvent) (policy : ActionPolicy) (now : Int) : Option String :=
  match event.firedAt with
  | none => some "evidence_stale"
  | some time =>
    if now < time ∨ time < now - policy.maxEvidenceAgeSeconds * 1000 then some "evidence_stale"
    else if time < policy.updatedAt then some "predates_authorization"
    else if event.refs = [] then some "evidence_absent"
    else none

def queuedCount (db : RemediationDb) : Nat := db.actions.rows.countP fun a => a.state = .queued

def enqueueReason (db : RemediationDb) (event : RuleEvent) (policy : ActionPolicy)
    (now : Int) : Option String :=
  match evidenceReason event policy now with
  | some reason => some reason
  | none => if queuedLimit ≤ queuedCount db then some "queue_full" else none

def newAction (db : RemediationDb) (event : RuleEvent) (policy : ActionPolicy)
    (now : Int) : RemediationAction where
  id := db.supply
  eventId := event.id
  ruleId := event.ruleId
  policyRevision := policy.revision
  connectionId := policy.connectionId
  policy := policy
  beforeState := drain db policy.connectionId
  state := if (enqueueReason db event policy now).isSome then .skipped else .queued
  reasonCode := enqueueReason db event policy now
  createdAt := now
  updatedAt := now

def enqueueAuthorizedAction (db : RemediationDb) (event : RuleEvent) (now : Int) : RemediationDb :=
  match db.policies.get? event.ruleId with
  | none => db
  | some policy =>
    if policy.enabled = false ∨ policy.ruleRevision ≠ event.ruleRevision then db
    else if db.actions.rows.any fun a => a.eventId = event.id then db
    else
      let action := newAction db event policy now
      receipt { db with actions := db.actions.put action, supply := db.supply + 1 } action.id "enqueue"
        (if action.state = .queued then "queued" else "skipped") action.reasonCode now

/-- An alert takes the open slot of its rule and scope, and enqueues its action. -/
def recordFiring (db : RemediationDb) (event : RuleEvent) (now : Int) : RemediationDb :=
  if db.events.rows.any fun e => e.id = event.id ∨ (e.ruleId = event.ruleId ∧ e.scopeKey = event.scopeKey ∧ e.outcome = .firing)
  then db
  else
    let row := { event with outcome := .firing, snoozedUntil := none }
    enqueueAuthorizedAction { db with events := db.events.put row } row now

/-! ### Apply -/

/-- The applications that the limits count: those of the last day. -/
def recent (db : RemediationDb) (now : Int) : List RemediationAction :=
  db.actions.rows.filter fun a => a.appliedAt.any fun t => now - dayMs ≤ t

def limitReason (db : RemediationDb) (item : RemediationAction) (now : Int) : Option String :=
  let prior := (recent db now).filter fun a => a.ruleId = item.ruleId
  if dailyGlobal ≤ (recent db now).length then some "global_daily_limit"
  else if item.policy.dailyLimit ≤ prior.length then some "policy_daily_limit"
  else if (prior.filterMap (·.appliedAt)).max?.any fun last => now - item.policy.cooldownSeconds * 1000 < last then
    some "policy_cooldown"
  else none

/-- The account must be there, active, as it was when the action was enqueued, and not draining. -/
def accountReason (db : RemediationDb) (item : RemediationAction) : Option String :=
  if ((db.accounts.get? item.connectionId).map Prod.snd).getD false = false then some "account_unavailable"
  else if drain db item.connectionId ≠ item.beforeState then some "account_state_changed"
  else if (drain db item.connectionId).any (·.isDraining) then some "already_draining"
  else none

/-- The alert must still be there and firing, with evidence that is fresh and still retained. -/
def alertReason (db : RemediationDb) (item : RemediationAction) (retained : Bool)
    (now : Int) : Option String :=
  match db.events.get? item.eventId with
  | none => some "event_absent"
  | some event =>
    if event.ruleRevision ≠ item.policy.ruleRevision ∨ event.scopeKey ≠ item.connectionId then some "event_absent"
    else if event.outcome ≠ .firing ∨ event.snoozedUntil.any (now < ·) then some "alert_suppressed"
    else
      match evidenceReason event item.policy now with
      | some reason => some reason
      | none => if retained then none else some "evidence_unavailable"

/-- The policy must be the one the action was enqueued under, and the rule the one it authorises. -/
def authorityReason (db : RemediationDb) (item : RemediationAction) : Option String :=
  match db.policies.get? item.ruleId with
  | none => some "authority_changed"
  | some current =>
    if current.enabled = false ∨ current.revision ≠ item.policyRevision ∨ item.policy ≠ current then some "authority_changed"
    else
      match db.rules.get? item.ruleId with
      | none => some "rule_changed"
      | some rule =>
        if rule.enabled = false ∨ rule.revision ≠ item.policy.ruleRevision ∨ rule.scopeKind ≠ .connection ∨
            rule.scopeId ≠ some item.connectionId then
          some "rule_changed"
        else none

/-- `retained` is what the tables of the evidence say (`retainedEvidenceMatches`). -/
def eligibility (db : RemediationDb) (item : RemediationAction) (retained : Bool)
    (now : Int) : Option String :=
  (authorityReason db item).or ((alertReason db item retained now).or ((accountReason db item).or (limitReason db item now)))

structure ActionResult where
  id : Nat
  state : ActionState
  changed : Bool
  dryRun : Bool := false
  reasonCode : Option String := none
  deriving DecidableEq

def refuseAction (db : RemediationDb) (item : RemediationAction) (reason : String)
    (now : Int) : RemediationDb × ActionResult :=
  let state := if reason ∈ ["authority_changed", "rule_changed", "account_state_changed"] then .conflict else .skipped
  (receipt { db with actions := db.actions.put { item with state := state, reasonCode := some reason, updatedAt := now } }
    item.id "apply" (if state = .conflict then "conflict" else "skipped") (some reason) now,
    { id := item.id, state := state, changed := false, reasonCode := some reason })

def applyAction (db : RemediationDb) (item : RemediationAction)
    (now : Int) : RemediationDb × ActionResult :=
  let after : DrainState := { isDraining := true, requestedAt := some now, completedAt := none }
  (receipt { db with
      drains := db.drains.put (item.connectionId, after)
      actions := db.actions.put
        { item with state := .applied, afterState := some after, appliedAt := some now, updatedAt := now } }
    item.id "apply" "applied" none now, { id := item.id, state := .applied, changed := true })

def executeAction (db : RemediationDb) (id : Nat) (retained dryRun : Bool) (now : Int) :
    Except String (RemediationDb × ActionResult) :=
  match db.actions.get? id with
  | none => .error "action_not_found"
  | some item =>
    if item.state ≠ .queued then .ok (db, { id := id, state := item.state, changed := false, dryRun := dryRun })
    else
      match eligibility db item retained now, dryRun with
      | reason, true => .ok (db, { id := id, state := .queued, changed := false, dryRun := true, reasonCode := reason })
      | some reason, false => .ok (refuseAction db item reason now)
      | none, false => .ok (applyAction db item now)

/-! ### Rollback -/

def restoredState (item : RemediationAction) (now : Int) : DrainState :=
  item.beforeState.getD
    { isDraining := false, requestedAt := item.afterState.bind (·.requestedAt), completedAt := some now }

def rollbackAction (db : RemediationDb) (id : Nat) (expectedAfterState : Option DrainState)
    (now : Int) :
    Except String (RemediationDb × ActionResult) :=
  match db.actions.get? id with
  | none => .error "action_not_found"
  | some item =>
    if item.state ≠ .applied ∨ expectedAfterState ≠ item.afterState ∨ drain db item.connectionId ≠ item.afterState then
      .ok (receipt db id "rollback" "conflict" (some "account_state_changed") now,
        { id := id, state := .conflict, changed := false, reasonCode := some "account_state_changed" })
    else if (db.accounts.get? item.connectionId).isNone then .error "account_not_found"
    else
      let restored := restoredState item now
      .ok (receipt { db with
          drains := if (db.drains.get? item.connectionId).isSome then db.drains.put (item.connectionId, restored) else db.drains
          actions := db.actions.put { item with state := .rolledBack, updatedAt := now } } id "rollback" "applied" none now,
        { id := id, state := .rolledBack, changed := true })

/-! ### Runs -/

/-- The operations of the operator, the rules and the automation. -/
inductive RemediationOp where
  | firing (event : RuleEvent)
  | acknowledge (id : String)
  | snooze (id : String) (snoozedUntil : Int)
  | enqueue (event : RuleEvent)
  | savePolicy (input : PolicyInput)
  | createRule (rule : NotificationRule)
  | updateRule (id : String) (expectedRevision : Nat) (rule : NotificationRule)
  | deleteRule (id : String) (expectedRevision : Nat)
  | setDrain (id : String) (value : Option DrainState)
  | setAccount (id : String) (value : Option Bool)
  | execute (id : Nat) (retained dryRun : Bool)
  | rollback (id : Nat) (expectedAfterState : Option DrainState)

/-- `clock` is when the last operation ran; no operation reads it. -/
structure RemediationRun where
  db : RemediationDb := {}
  clock : Int := 0

def settled {ρ : Type} (db : RemediationDb) : Except String (RemediationDb × ρ) → RemediationDb
  | .ok r => r.1
  | .error _ => db

def annotate (db : RemediationDb) (id : String) (f : RuleEvent → RuleEvent)
    (hf : ∀ e, (f e).id = e.id) : RemediationDb :=
  { db with
    events := db.events.mapRows (fun e => if e.id = id ∧ e.outcome = .firing then f e else e)
      fun e => by split <;> simp [hf] }

def remediationApply (db : RemediationDb) (now : Int) : RemediationOp → RemediationDb
  | .firing event => recordFiring db event now
  | .acknowledge id => annotate db id (fun e => { e with outcome := .acknowledged }) fun _ => rfl
  | .snooze id snoozedUntil =>
    if snoozedUntil ≤ now then db else annotate db id (fun e => { e with snoozedUntil := some snoozedUntil }) fun _ => rfl
  | .enqueue event => enqueueAuthorizedAction db event now
  | .savePolicy input => settled db ((saveActionPolicy db input now).map fun d => (d, ()))
  | .createRule rule =>
    if (db.rules.get? rule.id).isSome then db else { db with rules := db.rules.put { rule with revision := 1 } }
  | .updateRule id expectedRevision rule =>
    match db.rules.get? id with
    | none => db
    | some current =>
      if current.revision ≠ expectedRevision then db
      else { db with rules := db.rules.put { rule with id := id, revision := current.revision + 1 } }
  | .deleteRule id expectedRevision =>
    match db.rules.get? id with
    | none => db
    | some current => if current.revision ≠ expectedRevision then db else { db with rules := db.rules.erase id }
  | .setDrain id value =>
    { db with
      drains := match value with
        | some value => db.drains.put (id, value)
        | none => db.drains.erase id }
  | .setAccount id value =>
    { db with
      accounts := match value with
        | some value => db.accounts.put (id, value)
        | none => db.accounts.erase id }
  | .execute id retained dryRun => settled db (executeAction db id retained dryRun now)
  | .rollback id expectedAfterState => settled db (rollbackAction db id expectedAfterState now)

def remediationStep (s : RemediationRun) (op : Nat × RemediationOp) : RemediationRun where
  db := remediationApply s.db (s.clock + op.1) op.2
  clock := s.clock + op.1

end TokenProxy.Notifications
