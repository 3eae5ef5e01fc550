import TokenProxy.Lib.Table

/-!
# Account leases

`createLeaseRegistry` of `accountLease.js`: per connection a set of lease objects. A lease is
released by identity, so a second release of one lease cannot free the slot of another.
-/

namespace TokenProxy.Admission

open TokenProxy.Lib

inductive Ungated
  | capacityUnregistered
  | capacityMalformed
  deriving DecidableEq

def Ungated.text : Ungated → String
  | .capacityUnregistered => "capacity-unregistered"
  | .capacityMalformed => "capacity-malformed"

/-- A frozen lease object. The registry's `seq` makes each one distinct; an ungated admission
carries the reason and the count it made. -/
structure Lease where
  connectionId : String
  seq : Nat
  ungated : Option (Ungated × Nat)
  deriving DecidableEq

/-- A refusal's evidence `{ held, cap, retryAfterMs }`. -/
structure LeaseRefusal where
  held : Int
  cap : Int
  retryAfterMs : Nat
  deriving DecidableEq

/-- `REFUSAL_RETRY_MS` -/
def refusalRetryMs : Nat := 1000

structure LeaseRegistry where
  held : Dict String (List Lease) := .empty
  refusals : Dict String LeaseRefusal := .empty
  seq : Nat := 0

namespace LeaseRegistry

def leasesOf (r : LeaseRegistry) (connectionId : String) : List Lease :=
  ((r.held.get? connectionId).map Prod.snd).getD []

def countOf (r : LeaseRegistry) (connectionId : String) : Nat := (r.leasesOf connectionId).length

def gated : Option Int → Option Int
  | some n => if 0 < n then some n else none
  | none => none

/-- `reserve(connectionId)`. The limit is what `capacityOf` returns,
`none` when it is no integer. -/
def reserve (r : LeaseRegistry) (capacityOf : String → Option Int) (connectionId : String) :
    LeaseRegistry × Option Lease :=
  if connectionId = "" then (r, none)
  else
    let limit := capacityOf connectionId
    let held : Int := r.countOf connectionId
    if ∃ cap ∈ gated limit, cap ≤ held then
      let refusal : LeaseRefusal := { held, cap := limit.getD 0, retryAfterMs := refusalRetryMs }
      ({ r with refusals := r.refusals.put (connectionId, refusal) }, none)
    else
      let lease : Lease :=
        { connectionId, seq := r.seq + 1,
          ungated := match gated limit with
            | some _ => none
            | none => some (if limit = some 0 then .capacityUnregistered else .capacityMalformed,
                r.countOf connectionId + 1) }
      ({ r with held := r.held.put (connectionId, r.leasesOf connectionId ++ [lease]), seq := r.seq + 1 }, some lease)

def lastRefusal (r : LeaseRegistry) (connectionId : String) : Option LeaseRefusal :=
  (r.refusals.get? connectionId).map Prod.snd

/-- `release(lease)`: only the call that finds the lease in its connection's set frees a slot; an
empty set leaves the map. -/
def release (r : LeaseRegistry) (lease : Lease) : LeaseRegistry × Bool :=
  let set := r.leasesOf lease.connectionId
  if lease ∈ set then
    let rest := set.erase lease
    ({ r with held := if rest.isEmpty then r.held.erase lease.connectionId else r.held.put (lease.connectionId, rest) },
      true)
  else (r, false)

/-! ## What the operations do -/

variable {r : LeaseRegistry}

/-- No lease object is in a set twice, each lies in its own connection's set,
and each was issued before. -/
structure Valid (r : LeaseRegistry) : Prop where
  nodup : ∀ c, (r.leasesOf c).Nodup
  connection : ∀ c, ∀ l ∈ r.leasesOf c, l.connectionId = c
  issued : ∀ c, ∀ l ∈ r.leasesOf c, l.seq ≤ r.seq

theorem valid_empty : Valid {} :=
  ⟨fun _ => List.nodup_nil, fun _ _ h => absurd h List.not_mem_nil, fun _ _ h => absurd h List.not_mem_nil⟩

theorem leasesOf_put (r : LeaseRegistry) (c c' : String) (set : List Lease) (seq : Nat) :
    ({ r with held := r.held.put (c, set), seq } : LeaseRegistry).leasesOf c' =
      if c' = c then set else r.leasesOf c' := by
  simp only [leasesOf, Table.get?_put]
  split <;> rfl

theorem leasesOf_erase (r : LeaseRegistry) (c c' : String) :
    ({ r with held := r.held.erase c } : LeaseRegistry).leasesOf c' = if c' = c then [] else r.leasesOf c' := by
  simp only [leasesOf, Table.get?_erase]
  split <;> rfl

theorem reserve_some (capacityOf : String → Option Int) {c : String} {r' : LeaseRegistry}
    {lease : Lease} (h : r.reserve capacityOf c = (r', some lease)) :
    lease.connectionId = c ∧ lease.seq = r.seq + 1 ∧ r'.seq = r.seq + 1 ∧ r'.refusals = r.refusals ∧
      (∀ c', r'.leasesOf c' = if c' = c then r.leasesOf c ++ [lease] else r.leasesOf c') ∧
      ∀ cap ∈ gated (capacityOf c), (r.countOf c : Int) + 1 ≤ cap := by
  unfold reserve at h
  split at h
  · cases h
  simp only at h
  split at h
  · cases h
  rename_i hroom
  simp only [Prod.mk.injEq, Option.some.injEq] at h
  obtain ⟨rfl, rfl⟩ := h
  refine ⟨rfl, rfl, rfl, rfl, fun c' => leasesOf_put r c c' _ _, fun cap hcap => ?_⟩
  by_contra hlt
  exact hroom ⟨cap, hcap, by omega⟩

theorem reserve_none (capacityOf : String → Option Int) {c : String} {r' : LeaseRegistry}
    (h : r.reserve capacityOf c = (r', none)) : r'.held = r.held ∧ r'.seq = r.seq := by
  unfold reserve at h
  split at h
  · cases h
    exact ⟨rfl, rfl⟩
  simp only at h
  split at h
  · cases h
    exact ⟨rfl, rfl⟩
  · cases h

theorem release_leasesOf (r : LeaseRegistry) (lease : Lease) (c : String) :
    (r.release lease).1.leasesOf c =
      if c = lease.connectionId then (r.leasesOf c).erase lease else r.leasesOf c := by
  unfold release
  by_cases hmem : lease ∈ r.leasesOf lease.connectionId
  · simp only [if_pos hmem]
    by_cases hempty : ((r.leasesOf lease.connectionId).erase lease).isEmpty = true
    · rw [if_pos hempty, leasesOf_erase]
      by_cases hc : c = lease.connectionId
      · rw [if_pos hc, if_pos hc, hc, List.isEmpty_iff.1 hempty]
      · rw [if_neg hc, if_neg hc]
    · rw [if_neg hempty]
      refine (leasesOf_put r lease.connectionId c _ r.seq).trans ?_
      by_cases hc : c = lease.connectionId
      · rw [if_pos hc, if_pos hc, hc]
      · rw [if_neg hc, if_neg hc]
  · simp only [if_neg hmem]
    by_cases hc : c = lease.connectionId
    · rw [if_pos hc, hc, List.erase_of_not_mem hmem]
    · rw [if_neg hc]

theorem release_freed (r : LeaseRegistry) (lease : Lease) :
    (r.release lease).2 = true ↔ lease ∈ r.leasesOf lease.connectionId := by
  unfold release
  simp only
  split <;> simp_all

@[simp] theorem release_seq (r : LeaseRegistry)
    (lease : Lease) : (r.release lease).1.seq = r.seq := by
  unfold release
  simp only
  split <;> rfl

theorem release_of_not_freed {lease : Lease} (h : (r.release lease).2 = false) :
    (r.release lease).1 = r := by
  unfold release at h ⊢
  simp only at h ⊢
  split at h
  · cases h
  · rename_i hn
    rw [if_neg hn]

namespace Valid

theorem reserve (h : Valid r) (capacityOf : String → Option Int) (c : String) :
    Valid (r.reserve capacityOf c).1 := by
  cases hres : r.reserve capacityOf c with
  | mk r' o =>
    cases o with
    | none =>
      obtain ⟨hheld, hseq⟩ := reserve_none capacityOf hres
      have hset : ∀ c, r'.leasesOf c = r.leasesOf c := fun c => by rw [leasesOf, hheld, leasesOf]
      refine ⟨fun c => ?_, fun c => ?_, fun c => ?_⟩
      · rw [hset]; exact h.nodup c
      · rw [hset]; exact h.connection c
      · rw [hset, hseq]; exact h.issued c
    | some lease =>
      obtain ⟨hc, hseq, hseq', -, hset, -⟩ := reserve_some capacityOf hres
      have hnew : lease ∉ r.leasesOf c := fun hmem => by
        have := h.issued c lease hmem
        omega
      refine ⟨fun c' => ?_, fun c' l hl => ?_, fun c' l hl => ?_⟩
      · rw [hset]
        split
        · exact List.nodup_append.2 ⟨h.nodup c, List.nodup_singleton _, fun a ha b hb hab => hnew (by
            rw [List.mem_singleton] at hb
            rw [← hb, ← hab]
            exact ha)⟩
        · exact h.nodup c'
      · rw [hset] at hl
        split at hl
        · rename_i hcc
          rcases List.mem_append.1 hl with hl | hl
          · rw [hcc]; exact h.connection c l hl
          · rw [List.mem_singleton.1 hl, hc, hcc]
        · exact h.connection c' l hl
      · rw [hset] at hl
        rw [hseq']
        split at hl
        · rcases List.mem_append.1 hl with hl | hl
          · exact Nat.le_succ_of_le (h.issued c l hl)
          · rw [List.mem_singleton.1 hl, hseq]
        · exact Nat.le_succ_of_le (h.issued c' l hl)

theorem release (h : Valid r) (lease : Lease) : Valid (r.release lease).1 := by
  have hsub : ∀ c, (r.release lease).1.leasesOf c ⊆ r.leasesOf c := by
    intro c l hl
    rw [release_leasesOf] at hl
    split at hl
    · exact List.mem_of_mem_erase hl
    · exact hl
  refine ⟨fun c => ?_, fun c l hl => h.connection c l (hsub c hl), fun c l hl => ?_⟩
  · rw [release_leasesOf]
    split
    · exact (h.nodup c).erase lease
    · exact h.nodup c
  · rw [release_seq]
    exact h.issued c l (hsub c hl)

end Valid

end LeaseRegistry

end TokenProxy.Admission
