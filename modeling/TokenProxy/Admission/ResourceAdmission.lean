import TokenProxy.Admission.Policy
import TokenProxy.Lib.Run

/-!
# Resource admission

`createResourceAdmission` of `resourceAdmission.js`: one process owns every handler, stream and
provider reservation. The closure's variables are the fields of `AdmissionState`. Objects that
closures capture (the per-client record, the per-provider record) live in a store under an identity,
so that a closure which outlives its map entry still writes to the object it captured. Counters are
integers, as in the source, where nothing stops a decrement below zero.

`now()` is a sequence of readings `clock`, taken one after another: nothing is assumed about it.
Readings that only date a reported snapshot are not taken.
What the callers observe is kept too: `results` lists every resolved promise of `acquire`, `grants`
every grant with the totals it left and the limits it was made under.
-/

namespace TokenProxy.Admission

open TokenProxy.Lib

/-! ## Data -/

structure ClientState where
  handlers : Int := 0
  streams : Int := 0
  queued : Int := 0
  deriving DecidableEq

/-- `!s.handlers && !s.streams && !s.queued` -/
def ClientState.idle (s : ClientState) : Bool := s.handlers = 0 && s.streams = 0 && s.queued = 0

/-- A queued `acquire`. `state` is the per-client record its `settle` captured. -/
structure Waiter where
  id : Nat
  client : String
  signal : Option Nat
  enqueuedAt : Int
  deadline : Int
  state : Nat
  deriving DecidableEq

/-- The two flags of a granted permit's closures, with the per-client record they captured. -/
structure Permit where
  id : Nat
  client : String
  state : Nat
  waitedMs : Int
  handlerHeld : Bool := true
  streamHeld : Bool := true
  deriving DecidableEq

/-- Why an `acquire` was not admitted. -/
inductive Refusal
  | aborted
  | waitTimeout
  | queueFull
  deriving DecidableEq

def Refusal.text : Refusal → String
  | .aborted => "aborted"
  | .waitTimeout => "wait-timeout"
  | .queueFull => "queue-full"

/-- The value a promise of `acquire` resolves to; a queued refusal reports how long it waited. -/
inductive Outcome
  | admitted (waitedMs : Int)
  | refused (why : Refusal) (waitedMs : Option Int)
  deriving DecidableEq

structure Counters where
  admitted : Int := 0
  refused : Int := 0
  aborted : Int := 0
  timedOut : Int := 0
  released : Int := 0
  deriving DecidableEq

/-- A grant as it was made: the totals it left, global and of its client, and the limits then. -/
structure Grant where
  request : Nat
  client : String
  handlers : Int
  streams : Int
  clientHandlers : Int
  clientStreams : Int
  policy : AdmissionPolicy
  limit : Nat

structure ProviderEntry where
  active : Int := 0
  throttledUntil : Int := 0
  effective : Option Int := none
  limit : Int := 0
  reason : String := "operator-provider-limit"
  lastSeen : Int := 0
  deriving DecidableEq

/-- The flag of a provider permit's closure, with the provider and the record in its scope. -/
structure ProviderPermit where
  id : Nat
  provider : String
  entry : Nat
  held : Bool := true
  deriving DecidableEq

/-- A provider grant as it was made: the count it left, the record's ceiling
and limit, and the policy's. -/
structure ProviderGrant where
  permit : Nat
  active : Int
  effective : Int
  limit : Int
  providerStreams : Nat
  deriving DecidableEq

/-- The provider half of the process's reservations: the map, the records its entries and the
permits' closures refer to, the permits handed out and the grants made. -/
structure ProviderPool where
  providers : Dict String Nat := .empty
  entries : Nat → ProviderEntry := fun _ => {}
  nextEntry : Nat := 0
  permits : Table ProviderPermit.id := .empty
  nextPermit : Nat := 0
  grants : List ProviderGrant := []

structure AdmissionState where
  clock : Nat → Int
  reads : Nat := 0
  policy : AdmissionPolicy
  effective : Nat
  handlers : Int := 0
  streams : Int := 0
  samples : Nat := 0
  smoothed : Option ℚ := none
  healthy : Nat := 0
  lastChange : Option Int := none
  decision : String := "awaiting-pressure-samples"
  lastClient : Option String := none
  clients : Dict String Nat := .empty
  objects : Nat → ClientState := fun _ => {}
  nextObject : Nat := 0
  queue : Table Waiter.id := .empty
  counters : Counters := {}
  permits : Table Permit.id := .empty
  nextRequest : Nat := 0
  abortedSignals : List Nat := []
  results : List (Nat × Outcome) := []
  grants : List Grant := []
  pool : ProviderPool := {}

/-- `createResourceAdmission({ now, policy })` -/
def createResourceAdmission (clock : Nat → Int) (policy : AdmissionPolicy) : AdmissionState where
  clock := clock
  policy := policy
  effective := policy.minStreams

namespace AdmissionState

/-- The next reading of `now()`. -/
def now (st : AdmissionState) : Int := st.clock st.reads

def tick (st : AdmissionState) : AdmissionState := { st with reads := st.reads + 1 }

def currentLimit (st : AdmissionState) : Nat :=
  match st.policy.overrideStreams with
  | some o => o
  | none => if st.policy.adaptive then st.effective else st.policy.maxStreams

def signalAborted (st : AdmissionState) : Option Nat → Bool
  | none => false
  | some sig => st.abortedSignals.contains sig

/-! ## The per-client records -/

/-- `stateFor(key)`: the identity of the client's record, created at zero when it has none. -/
def stateFor (st : AdmissionState) (key : String) : AdmissionState × Nat :=
  match st.clients.get? key with
  | some e => (st, e.2)
  | none => ({ st with clients := st.clients.put (key, st.nextObject), nextObject := st.nextObject + 1 }, st.nextObject)

/-- What `stateFor(key)` reads. -/
def clientState (st : AdmissionState) (key : String) : ClientState :=
  match st.clients.get? key with
  | some e => st.objects e.2
  | none => {}

/-- `clean(key)` -/
def clean (st : AdmissionState) (key : String) : AdmissionState :=
  { st with
    clients := match st.clients.get? key with
      | some e => if (st.objects e.2).idle then st.clients.erase key else st.clients
      | none => st.clients }

def setObject (st : AdmissionState) (o : Nat) (s : ClientState) : AdmissionState :=
  { st with objects := Function.update st.objects o s }

/-- The most streams one client may hold under the current limit. -/
def clientShare (st : AdmissionState) : Nat := min st.policy.clientStreams.1 (max 1 (st.currentLimit / 2))

/-- `fits(w)`; the record that `stateFor` would create here holds nothing. -/
def fits (st : AdmissionState) (client : String) : Bool :=
  let s := st.clientState client
  st.handlers < (st.policy.maxHandlers.1 : Int) && st.streams < (st.currentLimit : Int)
    && s.handlers < (st.policy.clientHandlers.1 : Int) && s.streams < (st.clientShare : Int)

/-! ## Granting, settling, draining -/

/-- `grant(w)` for the request `id` of `client`, whose record is `o`. -/
def grant (st : AdmissionState) (id : Nat) (client : String) (o : Nat)
    (enqueuedAt : Int) : AdmissionState :=
  let s := st.objects o
  let s' := { s with handlers := s.handlers + 1, streams := s.streams + 1 }
  { st.tick.setObject o s' with
    handlers := st.handlers + 1
    streams := st.streams + 1
    counters := { st.counters with admitted := st.counters.admitted + 1 }
    lastClient := some client
    permits := st.permits.put { id, client, state := o, waitedMs := max 0 (st.now - enqueuedAt) }
    grants := st.grants ++ [{ request := id, client, handlers := st.handlers + 1, streams := st.streams + 1,
                              clientHandlers := s'.handlers, clientStreams := s'.streams,
                              policy := st.policy, limit := st.currentLimit }] }

/-- `queue.splice(queue.indexOf(w), 1)`: for a waiter that is not queued the index is `-1`, and the
last element goes. -/
def spliceOut (queue : Table Waiter.id) (id : Nat) : Table Waiter.id :=
  if (queue.get? id).isSome then queue.erase id
  else queue.filter fun w => some w.id != (queue.rows.getLast?.map Waiter.id)

/-- The waiter's `settled` flag: its promise has been resolved. -/
def isSettled (st : AdmissionState) (id : Nat) : Bool := st.results.any fun r => r.1 = id

/-- What `settle` does in every case once its flag is down. -/
def dequeue (st : AdmissionState) (w : Waiter) : AdmissionState :=
  let s := st.objects w.state
  ({ st with queue := spliceOut st.queue w.id }.setObject w.state { s with queued := s.queued - 1 }).clean w.client

/-- `w.settle(null, why)`; only `aborted` and `wait-timeout` are ever passed. -/
def settleNull (st : AdmissionState) (w : Waiter) (why : Refusal) : AdmissionState :=
  if st.isSettled w.id then st
  else
    let st := st.dequeue w
    let c := { st.counters with refused := st.counters.refused + 1 }
    { st.tick with
      counters := if why = .aborted then { c with aborted := c.aborted + 1 } else { c with timedOut := c.timedOut + 1 }
      results := st.results ++ [(w.id, .refused why (some (st.now - w.enqueuedAt)))] }

/-- `w.settle(permit)` with the permit just granted to the waiter. -/
def settleGrant (st : AdmissionState) (w : Waiter) : AdmissionState :=
  if st.isSettled w.id then st
  else
    let waited := ((st.permits.get? w.id).map Permit.waitedMs).getD 0
    let st := st.dequeue w
    { st with results := st.results ++ [(w.id, .admitted waited)] }

/-- The waiter `drain` looks at next: the oldest that fits and whose client did not get the last
grant, else the oldest that fits. -/
def pick (st : AdmissionState) : Option Waiter :=
  (st.queue.rows.find? fun w => some w.client != st.lastClient && st.fits w.client).or
    (st.queue.rows.find? fun w => st.fits w.client)

/-- One turn of `drain`'s loop on the picked waiter: a waiter whose signal fired or whose deadline
passed is refused, any other one is granted. -/
def serve (st : AdmissionState) (w : Waiter) : AdmissionState :=
  if st.signalAborted w.signal then st.settleNull w .aborted
  else if st.now ≥ w.deadline then st.tick.settleNull w .waitTimeout
  else (st.tick.grant w.id w.client w.state w.enqueuedAt).settleGrant w

/-- `drain()`'s loop. Every turn takes a waiter off the queue, so its length bounds the turns. -/
def drainLoop : Nat → AdmissionState → AdmissionState
  | 0, st => st
  | n + 1, st =>
    match st.pick with
    | none => st
    | some w => drainLoop n (st.serve w)

def drain (st : AdmissionState) : AdmissionState := drainLoop st.queue.rows.length st

/-! ## The operations -/

def resolve (st : AdmissionState) (id : Nat) (out : Outcome) : AdmissionState :=
  { st with results := st.results ++ [(id, out)] }

/-- The request's identity: `acquire` makes a new object on every call. -/
def newRequest (st : AdmissionState) : AdmissionState := { st with nextRequest := st.nextRequest + 1 }

/-- Where the request waits: `s.queued++; queue.push(w)`. -/
def enqueue (st : AdmissionState) (w : Waiter) : AdmissionState :=
  let s := st.objects w.state
  { st with queue := st.queue.put w }.setObject w.state { s with queued := s.queued + 1 }

/-- `acquire({ client, signal, deadline })`; no deadline is `Infinity`. -/
def acquire (st : AdmissionState) (client : Option String) (signal : Option Nat)
    (deadline : Option Int) :
    AdmissionState :=
  let client := client.getD "anonymous"
  let id := st.nextRequest
  let at_ := st.now
  let st := st.newRequest.tick
  if st.signalAborted signal then st.resolve id (.refused .aborted none)
  else if ∃ d ∈ deadline, d ≤ at_ then st.resolve id (.refused .waitTimeout none)
  else
    let latest := at_ + (st.policy.maxWaitMs.1 : Int)
    let (st, o) := st.stateFor client
    let w : Waiter := { id, client, signal, enqueuedAt := at_, deadline := (deadline.map (min · latest)).getD latest,
                        state := o }
    if st.queue.rows.isEmpty && st.fits client then
      let st := st.grant id client o at_
      st.resolve id (.admitted (((st.permits.get? id).map Permit.waitedMs).getD 0))
    else if (st.policy.queueDepth.1 : Int) ≤ st.queue.rows.length ∨
        (st.policy.clientQueueDepth.1 : Int) ≤ (st.objects o).queued then
      ({ st with counters := { st.counters with refused := st.counters.refused + 1 } }.clean client).resolve id
        (.refused .queueFull none)
    else
      let st := st.enqueue w
      if st.signalAborted signal then (st.settleNull w .aborted).drain else st.drain

/-- The timer of a queued waiter; settling cleared the timer of every other one. -/
def timeout (st : AdmissionState) (id : Nat) : AdmissionState :=
  match st.queue.get? id with
  | some w => (st.settleNull w .waitTimeout).drain
  | none => st

/-- The `abort` listener of a queued waiter; settling removed the listener of every other one. -/
def onAbort (st : AdmissionState) (id : Nat) : AdmissionState :=
  match st.queue.get? id with
  | some w => (st.settleNull w .aborted).drain
  | none => st

/-- A signal fires: its flag goes up and its listeners run in the order they were added. -/
def abort (st : AdmissionState) (sig : Nat) : AdmissionState :=
  if st.abortedSignals.contains sig then st
  else
    let st := { st with abortedSignals := sig :: st.abortedSignals }
    ((st.queue.rows.filter fun w => w.signal = some sig).map Waiter.id).foldl onAbort st

/-- `releaseHandler` up to its `drain`. -/
def dropHandler (st : AdmissionState) (p : Permit) : AdmissionState :=
  let s := st.objects p.state
  ({ st with permits := st.permits.put { p with handlerHeld := false }, handlers := st.handlers - 1 }.setObject
    p.state { s with handlers := s.handlers - 1 }).clean p.client

/-- `releaseHandler()` of the permit of request `id`. -/
def releaseHandler (st : AdmissionState) (id : Nat) : AdmissionState :=
  match st.permits.get? id with
  | some p => if p.handlerHeld then (st.dropHandler p).drain else st
  | none => st

/-- What `release` does before it calls `releaseHandler`. -/
def dropStream (st : AdmissionState) (p : Permit) : AdmissionState :=
  let s := st.objects p.state
  { st with permits := st.permits.put { p with streamHeld := false }
            streams := st.streams - 1
            counters := { st.counters with released := st.counters.released + 1 } }.setObject
    p.state { s with streams := s.streams - 1 }

/-- `release()` of the permit of request `id`. -/
def release (st : AdmissionState) (id : Nat) : AdmissionState :=
  match st.permits.get? id with
  | some p => if p.streamHeld then (((st.dropStream p).releaseHandler id).clean p.client).drain else st
  | none => st

/-- A pressure sample; `none` is a measurement that is no finite number. -/
structure Sample where
  eventLoopMs : Option ℚ
  memoryMb : Option ℚ
  heapPressure : Option ℚ
  connectionPressure : Option ℚ

def measurements (st : AdmissionState) (sample : Sample) : List ℚ :=
  [sample.eventLoopMs.map (· / (st.policy.eventLoopBudgetMs.1 : ℚ)),
    sample.memoryMb.map (· / (st.policy.memoryBudgetMb.1 : ℚ)),
    sample.heapPressure, sample.connectionPressure].reduceOption

/-- `streams >= effective * 0.75`, or the oldest waiter has waited a second or a quarter of the
longest wait. The second test reads the clock when there is a waiter. -/
def demand (st : AdmissionState) : AdmissionState × Bool :=
  match st.queue.rows.head? with
  | none => (st, (st.streams : ℚ) ≥ st.effective * (3 / 4))
  | some w =>
    (st.tick, ((st.now - w.enqueuedAt : Int) : ℚ) ≥ min 1000 ((st.policy.maxWaitMs.1 : ℚ) / 4) ||
      (st.streams : ℚ) ≥ st.effective * (3 / 4))

/-- `now() - lastChange < cooldownMs`, where nothing changed yet at `-Infinity`. -/
def coolingDown (st : AdmissionState) : Bool :=
  match st.lastChange with
  | none => false
  | some at_ => st.now - at_ < (st.policy.cooldownMs.1 : Int)

/-- The healthy branch of `observe`: after three healthy samples, demand raises the limit by one. -/
def recover (st : AdmissionState) : AdmissionState :=
  let st := { st with healthy := st.healthy + 1 }
  if st.healthy < 3 then { st with decision := "healthy-awaiting-demand" }
  else
    let (st, wanted) := st.demand
    if wanted then
      drain { st.tick with
        effective := min st.policy.maxStreams.1 (st.effective + 1)
        lastChange := some st.now
        healthy := 0
        decision := "healthy-demand-gradual-recovery" }
    else { st with decision := "healthy-awaiting-demand" }

/-- `observe(sample)` -/
def observe (st : AdmissionState) (sample : Sample) : AdmissionState :=
  let valid := st.measurements sample
  if valid.length < 2 then { st with samples := 0, healthy := 0, decision := "pressure-evidence-unavailable" }
  else
    let pressure := valid.foldl max (valid.headD 0)
    let smoothed := match st.smoothed with
      | none => pressure
      | some before => (1 / 4) * pressure + (3 / 4) * before
    let st := { st with smoothed := some smoothed, samples := st.samples + 1 }
    if st.policy.overrideStreams.isSome then { st with decision := "operator-override" }
    else if !st.policy.adaptive then { st with decision := "operator-fixed" }
    else if st.samples < st.policy.minSamples.1 then { st with decision := "minimum-samples" }
    else
      let cooling := st.coolingDown
      let st := st.tick
      if cooling then { st with decision := "cooldown" }
      else if smoothed > 1 then
        { st.tick with
          effective := max st.policy.minStreams.1 (⌊(st.effective : ℚ) * (4 / 5)⌋.toNat)
          lastChange := some st.now
          healthy := 0
          decision := "measured-process-pressure" }
      else if smoothed < 65 / 100 then st.recover
      else { st with healthy := 0, decision := "hysteresis-hold" }

/-- `configure(input)`: an input that fails its check throws and changes nothing. -/
def configure (st : AdmissionState) (input : Option PolicyInput) : AdmissionState :=
  match validateAdmissionPolicy input with
  | .error _ => st
  | .ok next =>
    if next = st.policy then st
    else
      drain { st with
        policy := next
        samples := 0
        smoothed := none
        healthy := 0
        effective := max next.minStreams.1 (min next.maxStreams.1 st.effective)
        decision := if next.overrideStreams.isSome then "operator-override" else "policy-updated" }

end AdmissionState

inductive AdmissionOp
  | acquire (client : Option String) (signal : Option Nat) (deadline : Option Int)
  | abort (signal : Nat)
  | timeout (request : Nat)
  | release (request : Nat)
  | releaseHandler (request : Nat)
  | observe (sample : AdmissionState.Sample)
  | configure (input : Option PolicyInput)

def admissionStep (st : AdmissionState) : AdmissionOp → AdmissionState
  | .acquire client signal deadline => st.acquire client signal deadline
  | .abort sig => st.abort sig
  | .timeout id => st.timeout id
  | .release id => st.release id
  | .releaseHandler id => st.releaseHandler id
  | .observe sample => st.observe sample
  | .configure input => st.configure input

end TokenProxy.Admission
