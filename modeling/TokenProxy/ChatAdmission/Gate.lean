import TokenProxy.Lib.Arena
import TokenProxy.Lib.Run
import TokenProxy.Lib.Table

/-!
# The admission gate of the chat handler

Per key a count of requests in flight and a queue of waiters. `admissionKeys` maps a key to an
entry; a waiter keeps the entry that it was queued in, a release looks the entry up by its key. A
request enters through `run` of the fallback deadline, so what `acquireAdmission` decides reaches
the handler through two promises, each a step of its own here.
-/

namespace TokenProxy.ChatAdmission

open Lib (Dict Table)

structure Limits where
  maxInflight : Nat
  queueDepth : Nat
  maxWaitMs : Nat
  windowMs : Nat
  retryAfterFloorMs : Nat

inductive Refusal where
  | aborted
  | queueFull
  | waitTimeout
  deriving DecidableEq

/-- What `acquireAdmission` resolves to. -/
structure Slot where
  admitted : Bool
  why : Option Refusal := none
  waitedMs : Int := 0
  retryAfterMs : Option Int := none
  queued : Option Nat := none
  active : Option Nat := none
  deriving DecidableEq

/-- An entry of `admissionKeys`; the queue holds requests. `key` is for the record. -/
structure Entry where
  key : String
  active : Nat := 0
  queue : List Nat := []
  idleSince : Int

/-- A waiter, and the entry that its closures captured. `settlements`
counts how often it was settled. -/
structure Waiter where
  entry : Nat
  enqueuedAt : Int
  deadline : Int
  settled : Bool := false
  settlements : Nat := 0

def Waiter.settle (w : Waiter) : Waiter := { w with settled := true, settlements := w.settlements + 1 }

/-- A grant was counted in an entry; `turn` is its place among all turns. -/
structure Grant where
  entry : Nat
  turn : Nat

inductive Phase where
  /-- `run` was called; its operation is yet to be. -/
  | starting
  | queued
  /-- `acquireAdmission` has resolved. -/
  | resolved (slot : Slot)
  /-- `waitForPreparation` has resolved. -/
  | delivered (slot : Slot)
  /-- `run` has returned. -/
  | returned (slot : Slot)
  | handling
  /-- `run` has rejected, and the slot comes too late. -/
  | late (slot : Slot)
  | over
  deriving DecidableEq

/-- A request. `aborted` is the signal of the scope, `rejected` that `waitForPreparation` has
rejected. `arrived` is the turn of its call of `acquireAdmission`, and `releases` counts its calls
of `releaseAdmission`. -/
structure Request where
  key : String
  callerAborted : Bool := false
  aborted : Bool := false
  rejected : Bool := false
  waiter : Option Waiter := none
  phase : Phase := .starting
  arrived : Nat := 0
  grant : Option Grant := none
  releases : Nat := 0

structure State where
  now : Int := 0
  admissionKeys : Dict String Nat := Table.empty
  entries : List Entry := []
  lastAdmissionSweep : Int := 0
  requests : List Request := []
  turn : Nat := 1

def State.setRequest (s : State) (i : Nat) (r : Request) : State := { s with requests := s.requests.set i r }

def State.setEntry (s : State) (k : Nat) (e : Entry) : State := { s with entries := s.entries.set k e }

variable (L : Limits)

/-! ### The gate -/

def State.idle (s : State) (k : Nat) : Bool :=
  s.entries[k]?.any fun e => e.active = 0 ∧ e.queue = [] ∧ L.windowMs ≤ s.now - e.idleSince

def sweepAdmissionKeys (s : State) : State :=
  if s.now - s.lastAdmissionSweep < L.windowMs then s
  else { s with lastAdmissionSweep := s.now, admissionKeys := s.admissionKeys.filter fun row => !s.idle L row.2 }

def State.deadlineOf (s : State) (i : Nat) : Option Int := s.requests[i]?.bind fun r => r.waiter.map Waiter.deadline

def queueReliefMs (s : State) (e : Entry) : Int :=
  max L.retryAfterFloorMs (((e.queue.head?.bind s.deadlineOf).map (· - s.now)).getD L.maxWaitMs)

def grantSlot (s : State) (i : Nat) (r : Request) (k : Nat) (e : Entry) (waitedMs : Int) : State :=
  let active := e.active + 1
  let slot : Slot := { admitted := true, waitedMs, queued := some e.queue.length, active := some active }
  { (s.setEntry k { e with active }).setRequest i { r with phase := .resolved slot, grant := some { entry := k, turn := s.turn } } with
    turn := s.turn + 1 }

/-- `waiter.settle(admitted)` for the waiter of a request. -/
def settle (s : State) (i : Nat) (admitted : Bool) : State :=
  match s.requests[i]? with
  | none => s
  | some r =>
    match r.waiter with
    | none => s
    | some w =>
      if w.settled then s
      else
        match s.entries[w.entry]? with
        | none => s
        | some e =>
          let queue := e.queue.erase i
          let waiter := some w.settle
          let waitedMs := s.now - w.enqueuedAt
          if admitted then grantSlot s i { r with waiter } w.entry { e with queue } waitedMs
          else
            let e := { e with queue, idleSince := if e.active = 0 ∧ queue = [] then s.now else e.idleSince }
            let slot : Slot :=
              { admitted := false, why := some (if r.aborted then .aborted else .waitTimeout), waitedMs
                retryAfterMs := some (queueReliefMs L s e), queued := some queue.length, active := some e.active }
            (s.setEntry w.entry e).setRequest i { r with waiter, phase := .resolved slot }

def entryOf (s : State) (key : String) : State × Nat :=
  match s.admissionKeys.lookup key with
  | some k => (s, k)
  | none =>
    ({ s with entries := s.entries ++ [{ key, idleSince := s.now }], admissionKeys := s.admissionKeys.put (key, s.entries.length) },
      s.entries.length)

/-- `acquireAdmission` from the entry on. -/
def join (s : State) (i : Nat) (r : Request) (k : Nat) : State :=
  match s.entries[k]? with
  | none => s
  | some e =>
    let r := { r with arrived := s.turn }
    if e.active < L.maxInflight then grantSlot s i r k e 0
    else if L.queueDepth ≤ e.queue.length then
      let slot : Slot :=
        { admitted := false, why := some .queueFull, retryAfterMs := some (queueReliefMs L s e), queued := some e.queue.length
          active := some e.active }
      { s.setRequest i { r with phase := .resolved slot } with turn := s.turn + 1 }
    else
      let waiter : Waiter := { entry := k, enqueuedAt := s.now, deadline := s.now + L.maxWaitMs }
      { (s.setEntry k { e with queue := e.queue ++ [i] }).setRequest i { r with waiter := some waiter, phase := .queued } with
        turn := s.turn + 1 }

/-- `acquireAdmission` for a request. Nothing can abort it before it is queued, so the
check after that never applies. -/
def acquireAdmission (s : State) (i : Nat) (r : Request) : State :=
  if r.aborted then s.setRequest i { r with phase := .resolved { admitted := false, why := some .aborted } }
  else
    let (s, k) := entryOf (sweepAdmissionKeys L s) r.key
    join L s i r k

def releaseAdmission (s : State) (key : String) : State :=
  match s.admissionKeys.lookup key with
  | none => s
  | some k =>
    match s.entries[k]? with
    | none => s
    | some e =>
      let active := e.active - 1
      match e.queue with
      | next :: _ => settle L (s.setEntry k { e with active }) next true
      | [] => s.setEntry k { e with active, idleSince := if active = 0 then s.now else e.idleSince }

/-! ### Requests -/

def finish (s : State) (i : Nat) (r : Request) (admitted : Bool) : State :=
  if admitted then releaseAdmission L (s.setRequest i { r with phase := .over, releases := r.releases + 1 }) r.key
  else s.setRequest i { r with phase := .over }

/-- `waitForPreparation` still waits for its promise. -/
def Phase.pending : Phase → Bool
  | .starting | .queued | .resolved _ => true
  | _ => false

/-- The signal of the scope is aborted: `waitForPreparation` rejects, and a waiter is settled. -/
def abort (s : State) (i : Nat) (r : Request) : State :=
  if r.aborted then s.setRequest i r
  else settle L (s.setRequest i { r with aborted := true, rejected := r.rejected || r.phase.pending }) i false

/-- What can happen. A timer may fire at any time, and whether the deadline has passed
is decided where it is asked. -/
inductive Op where
  | clock (now : Int)
  | enter (key : String) (callerAborted expired : Bool)
  | callerAbort (i : Nat)
  | deadline (i : Nat)
  | begin (i : Nat)
  | waitTimeout (i : Nat)
  | deliver (i : Nat)
  | lateResult (i : Nat)
  | resume (i : Nat) (expired : Bool)
  | handle (i : Nat)
  | complete (i : Nat)

def act (s : State) (i : Nat) (r : Request) : Op → State
  | .callerAbort _ => abort L s i { r with callerAborted := true }
  | .deadline _ => abort L s i r
  | .begin _ =>
    match r.phase with
    | .starting => if r.aborted then s.setRequest i { r with phase := .over } else acquireAdmission L s i r
    | _ => s
  | .waitTimeout _ => settle L s i false
  | .deliver _ =>
    match r.phase with
    | .resolved slot => s.setRequest i { r with phase := if r.rejected then .late slot else .delivered slot }
    | _ => s
  | .lateResult _ =>
    match r.phase with
    | .late slot => finish L s i r slot.admitted
    | _ => s
  | .resume _ expired =>
    match r.phase with
    | .delivered slot => if r.callerAborted || expired then finish L s i r slot.admitted else s.setRequest i { r with phase := .returned slot }
    | _ => s
  | .handle _ =>
    match r.phase with
    | .returned slot => s.setRequest i { r with phase := if slot.admitted then .handling else .over }
    | _ => s
  | .complete _ =>
    match r.phase with
    | .handling => finish L s i r true
    | _ => s
  | _ => s

def Op.request : Op → Nat
  | .callerAbort i | .deadline i | .begin i | .waitTimeout i | .deliver i | .lateResult i | .resume i _ | .handle i | .complete i => i
  | _ => 0

def actOn (s : State) (op : Op) : State :=
  match s.requests[op.request]? with
  | some r => act L s op.request r op
  | none => s

def step (s : State) : Op → State
  | .clock now => { s with now }
  | .enter key callerAborted expired =>
    { s with requests := s.requests ++ [{ key, callerAborted, phase := if callerAborted || expired then .over else .starting }] }
  | op => actOn L s op

end TokenProxy.ChatAdmission
