import Mathlib.Data.List.Sort
import Mathlib.Data.Prod.Lex
import Mathlib.Data.String.Basic
import TokenProxy.Lib.Table

/-!
# The notification outbox

One row for each event and endpoint. An event enqueues its rows, a sender claims queued rows under a
lease, and the claim finishes them; a claim first gives up the rows whose lease ran out. Every
operation is one transaction or one statement and brings its own clock; ISO timestamps are compared
as numbers of milliseconds. Owners are drawn from a supply, so no two claims have the same, and the
hash of a row's id is a parameter.

`claims` records the rows that were handed out; no operation reads it.
-/

namespace TokenProxy.Notifications

open Lib

def MAX_PENDING : Nat := 1000

def LEASE_MS : Nat := 120000

def maxPayloadBytes : Nat := 64 * 1024

inductive DeliveryState where
  | queued
  | delivering
  | delivered
  | failed
  | cancelled
  | uncertain
  deriving DecidableEq

/-- A row of `notificationDeliveries`. -/
structure Delivery where
  id : String
  eventId : String
  event : String
  endpointId : String
  destinationHash : String
  payload : String
  createdAt : Nat
  updatedAt : Nat
  state : DeliveryState
  owner : Option Nat := none
  leaseUntil : Option Nat := none
  attempts : Nat := 0
  status : Option Nat := none
  error : Option String := none
  deriving DecidableEq

def Delivery.target (row : Delivery) : String × String × String := (row.event, row.eventId, row.endpointId)

/-- `ORDER BY createdAt,id` -/
def Delivery.Before (a b : Delivery) : Prop := toLex (a.createdAt, a.id) ≤ toLex (b.createdAt, b.id)

instance : DecidableRel Delivery.Before := fun a b =>
  inferInstanceAs (Decidable (toLex (a.createdAt, a.id) ≤ toLex (b.createdAt, b.id)))

abbrev Deliveries := Table Delivery.id

structure Outbox where
  rows : Deliveries := .empty
  supply : Nat := 0
  claims : List Delivery := []

structure NotificationTarget where
  id : String
  destinationHash : String
  deriving DecidableEq

structure DeliveryResult where
  uncertain : Bool := false
  cancelled : Bool := false
  ok : Bool := false
  attempts : Nat := 0
  status : Option Nat := none
  error : Option String := none
  deriving DecidableEq

/-! ### Enqueue -/

def pendingCount (rows : Deliveries) : Nat := rows.rows.countP fun r => r.state = .queued ∨ r.state = .delivering

/-- `INSERT OR IGNORE`: neither the key nor the columns of the unique index may be there already. -/
def insertOrIgnore (rows : Deliveries) (row : Delivery) : Deliveries :=
  if rows.rows.any fun r => r.id = row.id ∨ r.target = row.target then rows else rows.put row

variable (rowId : String → String → String → String)

def newDelivery (event eventId payload : String) (now : Nat) (overflow : Bool)
    (endpoint : NotificationTarget) : Delivery where
  id := rowId event eventId endpoint.id
  eventId := eventId
  event := event
  endpointId := endpoint.id
  destinationHash := endpoint.destinationHash
  payload := payload
  createdAt := now
  updatedAt := now
  state := if overflow then .failed else .queued
  error := if overflow then some "Delivery queue capacity reached" else none

/-- The loop over the endpoints, with the pending rows counted along. -/
def enqueueTargets (event eventId payload : String)
    (now : Nat) : List NotificationTarget → Nat → Deliveries → Deliveries
  | [], _, rows => rows
  | endpoint :: targets, pending, rows =>
    let overflow := decide (MAX_PENDING ≤ pending)
    let inserted := insertOrIgnore rows (newDelivery rowId event eventId payload now overflow endpoint)
    let changes := inserted.rows.length - rows.rows.length
    enqueueTargets event eventId payload now targets (if overflow then pending else pending + changes) inserted

/-- A payload that is too large throws, and the source's transaction is rolled back. -/
def enqueueCapturedNotificationEvent (event eventId payload : String)
    (targets : List NotificationTarget) (now : Nat) (box : Outbox) : Outbox :=
  if maxPayloadBytes < payload.utf8ByteSize then box
  else { box with rows := enqueueTargets rowId event eventId payload now targets (pendingCount box.rows) box.rows }

/-! ### Claim and finish -/

def sweepRow (now : Nat) (row : Delivery) : Delivery :=
  if row.state = .delivering ∧ row.leaseUntil.any (· ≤ now) then
    { row with
      state := .uncertain
      updatedAt := now
      owner := none
      leaseUntil := none
      error := some "Sender stopped before delivery was confirmed" }
  else row

def deliverRow (now owner : Nat) (id : String) (row : Delivery) : Delivery :=
  if row.id = id ∧ row.state = .queued then
    { row with state := .delivering, owner := some owner, leaseUntil := some (now + LEASE_MS), updatedAt := now }
  else row

theorem sweepRow_id (now : Nat) (row : Delivery) : (sweepRow now row).id = row.id := by
  unfold sweepRow
  split <;> rfl

theorem deliverRow_id (now owner : Nat) (id : String)
    (row : Delivery) : (deliverRow now owner id row).id = row.id := by
  unfold deliverRow
  split <;> rfl

def sweep (now : Nat) (rows : Deliveries) : Deliveries := rows.mapRows (sweepRow now) (sweepRow_id now)

def active (rows : Deliveries) : Nat := rows.rows.countP fun r => r.state = .delivering

/-- The queued rows that a claim takes, at most two being delivered at a time. -/
def pick (limit : Int) (rows : Deliveries) : List Delivery :=
  ((rows.rows.filter fun r => r.state = .queued).insertionSort Delivery.Before).take (min (2 - (active rows : Int)) limit).toNat

def deliver (now owner : Nat) (rows : Deliveries) (picked : List Delivery) : Deliveries :=
  picked.foldl (fun t row => t.mapRows (deliverRow now owner row.id) (deliverRow_id now owner row.id)) rows

def claimDeliveries (now : Nat) (limit : Int) (box : Outbox) : Outbox × List Delivery :=
  let rows := sweep now box.rows
  let picked := pick limit rows
  let claimed := picked.map fun row => { row with owner := some box.supply }
  ({ rows := deliver now box.supply rows picked, supply := box.supply + 1, claims := box.claims ++ claimed }, claimed)

def DeliveryResult.state (result : DeliveryResult) : DeliveryState :=
  if result.uncertain then .uncertain else if result.cancelled then .cancelled else if result.ok then .delivered else .failed

def finishRow (claim : Delivery) (result : DeliveryResult) (now : Nat)
    (row : Delivery) : Delivery :=
  if row.id = claim.id ∧ row.state = .delivering ∧ row.owner.isSome ∧ row.owner = claim.owner then
    { row with
      state := result.state
      updatedAt := now
      owner := none
      leaseUntil := none
      attempts := result.attempts
      status := result.status
      error := result.error }
  else row

theorem finishRow_id (claim : Delivery) (result : DeliveryResult) (now : Nat) (row : Delivery) :
    (finishRow claim result now row).id = row.id := by
  unfold finishRow
  split <;> rfl

def finishDelivery (claim : Delivery) (result : DeliveryResult) (now : Nat)
    (box : Outbox) : Outbox :=
  { box with rows := box.rows.mapRows (finishRow claim result now) (finishRow_id claim result now) }

/-! ### Runs -/

/-- An operation, with its clock. A sender that crashes does not finish its claims. -/
inductive OutboxOp where
  | enqueue (event eventId payload : String) (targets : List NotificationTarget) (now : Nat)
  | claim (now : Nat) (limit : Int)
  | finish (claim : Delivery) (result : DeliveryResult) (now : Nat)

def outboxStep (box : Outbox) : OutboxOp → Outbox
  | .enqueue event eventId payload targets now => enqueueCapturedNotificationEvent rowId event eventId payload targets now box
  | .claim now limit => (claimDeliveries now limit box).1
  | .finish claim result now => finishDelivery claim result now box

end TokenProxy.Notifications
