import TokenProxy.Admission.AccountLease
import TokenProxy.Admission.ProviderAdmission

/-!
# Leases at two levels

`accountLeaseRegistry.js`: a lease on a connection takes a permit of the connection's provider first
and a slot of the account second; when the account refuses, the permit goes back. The lease
remembers its permit, and the release that frees the slot frees the permit too.

`issued` lists the lease objects handed to callers, each with the provider permit taken for it and
whether a caller has given it back; it is what a caller can see, and the counters are proved to
agree with it.
-/

namespace TokenProxy.Admission

open TokenProxy.Lib

/-- A lease object: of an account, or of a provider alone, where each call makes a new object. -/
inductive AnyLease
  | account (lease : Lease)
  | provider (id : Nat) (provider : Option String)
  deriving DecidableEq

structure Issued where
  lease : AnyLease
  permit : Option (String × Nat)
  released : Bool := false
  deriving DecidableEq

/-- An account grant as it was made: the count it left and the limit it was made under. -/
structure AccountGrant where
  connectionId : String
  held : Int
  limit : Option Int
  deriving DecidableEq

structure LeaseSystem where
  admission : AdmissionState
  registry : LeaseRegistry := {}
  capacityByConnection : Dict String (Option Int) := .empty
  providerByConnection : Dict String (String × Option Int) := .empty
  providerPermits : Dict AnyLease Nat := .empty
  providerRefusals : Dict String LeaseRefusal := .empty
  providerOnlyLeases : List AnyLease := []
  nextProviderLease : Nat := 0
  issued : Table Issued.lease := .empty
  accountGrants : List AccountGrant := []

def createLeaseSystem (clock : Nat → Int) (policy : AdmissionPolicy) : LeaseSystem where
  admission := createResourceAdmission clock policy

namespace LeaseSystem

/-- `UNGATED_CAPACITY` -/
def ungatedCapacity : Int := 0

/-- The injected `capacityOf`. -/
def capacityOf (st : LeaseSystem) (connectionId : String) : Option Int :=
  match st.capacityByConnection.get? connectionId with
  | some e => e.2
  | none => some ungatedCapacity

/-- `registerAccountCapacity(connectionId, limit, provider, providerLimit)`; an absent limit is the
ungated one, `none` a value that is no integer. -/
def registerAccountCapacity (st : LeaseSystem) (connectionId : String) (limit : Option Int)
    (provider : Option String) (limitOfProvider : Option Int) : LeaseSystem :=
  { st with
    providerByConnection := match provider with
      | some p => if p = "" then st.providerByConnection else st.providerByConnection.put (connectionId, p, limitOfProvider)
      | none => st.providerByConnection
    capacityByConnection := st.capacityByConnection.put (connectionId, limit) }

/-- `permit?.release()` -/
def releasePermit (st : LeaseSystem) : Option (String × Nat) → LeaseSystem
  | some (_, id) => { st with admission := st.admission.releaseProvider id }
  | none => st

/-- The second half of `reserve`: the account's slot, under the provider permit that was taken. -/
def reserveAccount (st : LeaseSystem) (connectionId : String) (permit : Option (String × Nat)) :
    LeaseSystem × Option AnyLease :=
  match st.registry.reserve st.capacityOf connectionId with
  | (registry, none) => (({ st with registry } : LeaseSystem).releasePermit permit, none)
  | (registry, some lease) =>
    ({ st with
        registry
        providerPermits := match permit with
          | some (_, id) => st.providerPermits.put (.account lease, id)
          | none => st.providerPermits
        issued := st.issued.put { lease := .account lease, permit }
        accountGrants := st.accountGrants ++
          [{ connectionId, held := registry.countOf connectionId, limit := st.capacityOf connectionId }] },
      some (.account lease))

def refuseProvider (st : LeaseSystem) (connectionId provider : String) : LeaseSystem :=
  let s := match st.admission.pool.providers.get? provider with
    | some e => st.admission.pool.entries e.2
    | none => {}
  let refusal : LeaseRefusal := { held := s.active, cap := s.cap, retryAfterMs := refusalRetryMs }
  { st with providerRefusals := st.providerRefusals.put (connectionId, refusal) }

def clearRefusal (st : LeaseSystem) (connectionId : String) : LeaseSystem :=
  { st with providerRefusals := st.providerRefusals.erase connectionId }

/-- `leaseRegistry.reserve(connectionId)` -/
def reserve (st : LeaseSystem) (connectionId : String) : LeaseSystem × Option AnyLease :=
  match st.providerByConnection.get? connectionId with
  | none => (st.clearRefusal connectionId).reserveAccount connectionId none
  | some (_, provider, limit) =>
    match st.admission.reserveProvider (some provider) limit with
    | (admission, none) => (({ st with admission } : LeaseSystem).refuseProvider connectionId provider, none)
    | (admission, some id) =>
      (({ st with admission } : LeaseSystem).clearRefusal connectionId).reserveAccount connectionId
        (some (providerKey (some provider), id))

/-- `reserveProviderLease(provider, limit)` -/
def reserveProviderLease (st : LeaseSystem) (provider : Option String) (limit : Option Int) :
    LeaseSystem × Option AnyLease :=
  match st.admission.reserveProvider provider limit with
  | (admission, none) => ({ st with admission }, none)
  | (admission, some id) =>
    let lease := AnyLease.provider st.nextProviderLease provider
    ({ st with
        admission
        providerOnlyLeases := lease :: st.providerOnlyLeases
        providerPermits := st.providerPermits.put (lease, id)
        nextProviderLease := st.nextProviderLease + 1
        issued := st.issued.put { lease, permit := some (providerKey provider, id) } }, some lease)

/-- `leaseRegistry.lastRefusal(connectionId)` -/
def lastRefusal (st : LeaseSystem) (connectionId : String) : Option LeaseRefusal :=
  ((st.providerRefusals.get? connectionId).map Prod.snd).or (st.registry.lastRefusal connectionId)

/-- The test `release` starts with: was this the call that freed the lease? A provider lease has no
connection, so the account registry never frees one. -/
def freeLease (st : LeaseSystem) (lease : AnyLease) : LeaseSystem × Bool :=
  if lease ∈ st.providerOnlyLeases then
    ({ st with providerOnlyLeases := st.providerOnlyLeases.erase lease }, true)
  else
    match lease with
    | .account l => ({ st with registry := (st.registry.release l).1 }, (st.registry.release l).2)
    | .provider _ _ => (st, false)

def giveBack (st : LeaseSystem) (lease : AnyLease) : LeaseSystem :=
  { st with issued := match st.issued.get? lease with
      | some i => st.issued.put { i with released := true }
      | none => st.issued }

/-- `providerPermits.get(lease)?.release(); providerPermits.delete(lease)` -/
def dropPermit (st : LeaseSystem) (lease : AnyLease) : LeaseSystem :=
  { st with
    admission := match st.providerPermits.get? lease with
      | some e => st.admission.releaseProvider e.2
      | none => st.admission
    providerPermits := st.providerPermits.erase lease }

/-- `leaseRegistry.release(lease)` -/
def release (st : LeaseSystem) (lease : AnyLease) : LeaseSystem × Bool :=
  let (st, freed) := st.freeLease lease
  if freed then ((st.dropPermit lease).giveBack lease, true) else (st.giveBack lease, false)

/-- `leaseRegistry.inFlight(connectionId)` -/
def inFlight (st : LeaseSystem) (connectionId : String) : Int := st.registry.countOf connectionId

end LeaseSystem

inductive LeaseOp
  | reserve (connectionId : String)
  | reserveProviderLease (provider : Option String) (limit : Option Int)
  | release (lease : AnyLease)
  | registerAccountCapacity (connectionId : String) (limit : Option Int) (provider : Option String)
      (limitOfProvider : Option Int)
  | providerThrottle (provider : String)
  | admission (op : AdmissionOp)

def leaseStep (st : LeaseSystem) : LeaseOp → LeaseSystem
  | .reserve c => (st.reserve c).1
  | .reserveProviderLease provider limit => (st.reserveProviderLease provider limit).1
  | .release lease => (st.release lease).1
  | .registerAccountCapacity c limit provider limitOfProvider =>
    st.registerAccountCapacity c limit provider limitOfProvider
  | .providerThrottle provider => { st with admission := st.admission.providerThrottle provider }
  | .admission op => { st with admission := admissionStep st.admission op }

end TokenProxy.Admission
