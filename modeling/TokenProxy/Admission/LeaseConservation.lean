import TokenProxy.Admission.LeaseSystem

/-!
# Leases hold exactly their two permits

The lease objects in the callers' hands (`issued`) against the two counters. `PermitLink` relates
them to the provider permits: a lease that was not given back owns one held permit of its provider,
no two leases own the same one, and per provider there are as many held permits as such leases.
`LeaseLink` relates them to the sets of the account registry. A refused reservation changes neither
side, a successful one adds to both, and the first release of a lease takes from both what it added.
-/

namespace TokenProxy.Admission

open TokenProxy.Lib

def Issued.units (i : Issued) : Int := if i.released then 0 else 1

def Issued.provider (i : Issued) : Option String := i.permit.map Prod.fst

def AnyLease.connection : AnyLease → Option String
  | .account l => some l.connectionId
  | .provider _ _ => none

def liveOf (issued : Table Issued.lease) (key : String) : Int :=
  issued.total fun i => if i.provider = some key then i.units else 0

def liveOn (issued : Table Issued.lease) (connectionId : String) : Int :=
  issued.total fun i => if i.lease.connection = some connectionId then i.units else 0

def Live (issued : Table Issued.lease) (a : AnyLease) : Prop := ∃ i ∈ issued.rows, i.lease = a ∧ i.released = false

/-! ## Leases and provider permits -/

structure PermitLink (permits : Table ProviderPermit.id) (owned : Dict AnyLease Nat)
    (issued : Table Issued.lease) : Prop where
  held : ∀ k, (permits.total fun p => if p.provider = k then p.units else 0) = liveOf issued k
  owns : ∀ i ∈ issued.rows, i.released = false → owned.get? i.lease = i.permit.map fun e => (i.lease, e.2)
  known : ∀ a, issued.get? a = none → owned.get? a = none
  permit : ∀ i ∈ issued.rows, i.released = false → ∀ k id, i.permit = some (k, id) →
    ∃ p, permits.get? id = some p ∧ p.held = true ∧ p.provider = k
  distinct : ∀ i ∈ issued.rows, ∀ j ∈ issued.rows, i.released = false → j.released = false →
    ∀ k k' id, i.permit = some (k, id) → j.permit = some (k', id) → i = j

namespace PermitLink

variable {permits : Table ProviderPermit.id} {owned : Dict AnyLease Nat} {issued : Table Issued.lease}

theorem liveOf_put {issued : Table Issued.lease} {i : Issued} (hnew : issued.get? i.lease = none)
    (k : String) :
    liveOf (issued.put i) k = liveOf issued k + if i.provider = some k then i.units else 0 :=
  Table.total_put_none _ hnew

theorem liveOf_giveBack {issued : Table Issued.lease} {i : Issued} (hi : i ∈ issued.rows)
    (hl : i.released = false) (k : String) :
    liveOf (issued.put { i with released := true }) k + (if i.provider = some k then 1 else 0) = liveOf issued k := by
  have hget : issued.get? i.lease = some i := Table.get?_of_mem hi
  have ht := Table.total_put_some (t := issued) (r := { i with released := true })
    (fun j => if j.provider = some k then j.units else 0) hget
  have hprov : Issued.provider { i with released := true } = i.provider := rfl
  simp only [Issued.units, hl, hprov, if_true, Bool.false_eq_true, if_false, ite_self, add_zero] at ht
  exact ht

theorem issue (h : PermitLink permits owned issued) {a : AnyLease} (hnew : issued.get? a = none) :
    PermitLink permits owned (issued.put { lease := a, permit := none }) := by
  refine ⟨?_, ?_, ?_, ?_, ?_⟩
  · intro k
    rw [liveOf_put hnew, h.held k]
    simp [Issued.provider]
  · intro i hi hl
    rcases Table.mem_put.1 hi with rfl | ⟨hi, -⟩
    · exact h.known _ hnew
    · exact h.owns i hi hl
  · intro b hb
    rw [Table.get?_put] at hb
    split at hb
    · cases hb
    · exact h.known b hb
  · intro i hi hl k id hp
    rcases Table.mem_put.1 hi with rfl | ⟨hi, -⟩
    · cases hp
    · exact h.permit i hi hl k id hp
  · intro i hi j hj hil hjl k k' id hip hjp
    rcases Table.mem_put.1 hi with rfl | ⟨hi, -⟩
    · cases hip
    rcases Table.mem_put.1 hj with rfl | ⟨hj, -⟩
    · cases hjp
    exact h.distinct i hi j hj hil hjl k k' id hip hjp

theorem issue_permit (h : PermitLink permits owned issued) {a : AnyLease}
    (hnew : issued.get? a = none) {k : String}
    {id : Nat} (entry : Nat) (hid : permits.get? id = none) :
    PermitLink (permits.put { id, provider := k, entry }) (owned.put (a, id))
      (issued.put { lease := a, permit := some (k, id) }) := by
  refine ⟨?_, ?_, ?_, ?_, ?_⟩
  · intro k'
    rw [Table.total_put_none _ hid, liveOf_put hnew, h.held k']
    simp [Issued.provider, Issued.units, ProviderPermit.units]
  · intro i hi hl
    rcases Table.mem_put.1 hi with rfl | ⟨hi, hne⟩
    · exact Table.get?_put_self owned (a, id)
    · rw [Table.get?_put_ne owned hne]
      exact h.owns i hi hl
  · intro b hb
    rw [Table.get?_put] at hb ⊢
    split at hb
    · cases hb
    · rename_i hne
      rw [if_neg hne]
      exact h.known b hb
  · intro i hi hl k' id' hp
    rcases Table.mem_put.1 hi with rfl | ⟨hi, -⟩
    · cases hp
      exact ⟨_, Table.get?_put_self permits { id, provider := k, entry }, rfl, rfl⟩
    · obtain ⟨p, hget, hh⟩ := h.permit i hi hl k' id' hp
      have hne : id' ≠ id := by
        rintro rfl
        rw [hid] at hget
        cases hget
      exact ⟨p, by rw [Table.get?_put_ne permits hne]; exact hget, hh⟩
  · -- the new permit's identity is nobody else's
    have hother : ∀ j ∈ issued.rows, j.released = false → ∀ k', j.permit ≠ some (k', id) := by
      intro j hj hjl k' hjp
      obtain ⟨p, hget, -⟩ := h.permit j hj hjl k' id hjp
      rw [hid] at hget
      cases hget
    intro i hi j hj hil hjl k₁ k₂ id' hip hjp
    rcases Table.mem_put.1 hi with rfl | ⟨hi, -⟩ <;> rcases Table.mem_put.1 hj with rfl | ⟨hj, -⟩
    · rfl
    · cases hip
      exact absurd hjp (hother j hj hjl k₂)
    · cases hjp
      exact absurd hip (hother i hi hil k₁)
    · exact h.distinct i hi j hj hil hjl k₁ k₂ id' hip hjp

/-- What release does to the permits: the permit of the lease, if it has one, is no longer held. -/
theorem giveBack (h : PermitLink permits owned issued) {i : Issued} (hi : i ∈ issued.rows)
    (hl : i.released = false) (permits' : Table ProviderPermit.id)
    (hp : match i.permit with
      | none => permits' = permits
      | some (_, id) => ∃ p, permits.get? id = some p ∧ permits' = permits.put { p with held := false }) :
    PermitLink permits' (owned.erase i.lease) (issued.put { i with released := true }) := by
  -- the permits of the other live leases are not touched
  have hkeep : ∀ j ∈ issued.rows, j.released = false → j.lease ≠ i.lease → ∀ k id, j.permit = some (k, id) →
      permits'.get? id = permits.get? id := by
    intro j hj hjl hne k id hjp
    cases hip : i.permit with
    | none => rw [hip] at hp; simp only at hp; rw [hp]
    | some e =>
      obtain ⟨k', id'⟩ := e
      rw [hip] at hp
      obtain ⟨p, hget, hp'⟩ := hp
      have hpid : p.id = id' := Table.get?_key hget
      have hidne : id ≠ id' := by
        rintro rfl
        exact hne (congrArg Issued.lease (h.distinct j hj i hi hjl hl k k' id hjp hip))
      rw [hp']
      exact Table.get?_put_ne permits (hpid ▸ hidne)
  refine ⟨?_, ?_, ?_, ?_, ?_⟩
  · intro k
    have hlive := liveOf_giveBack hi hl k
    have hheld := h.held k
    generalize liveOf (issued.put { i with released := true }) k = live at hlive ⊢
    cases hip : i.permit with
    | none =>
      rw [hip] at hp
      simp only at hp
      have hprov : i.provider = none := by rw [Issued.provider, hip]; rfl
      rw [hprov, if_neg (by simp)] at hlive
      rw [hp, hheld]
      omega
    | some e =>
      obtain ⟨k', id⟩ := e
      rw [hip] at hp
      obtain ⟨p, hget, hp'⟩ := hp
      obtain ⟨q, hq, hqh, hqk⟩ := h.permit i hi hl k' id hip
      rw [hget] at hq
      cases hq
      have hpid : p.id = id := Table.get?_key hget
      have hprov : i.provider = some p.provider := by rw [Issued.provider, hip, hqk]; rfl
      have ht := Table.total_put_some (t := permits) (r := { p with held := false })
        (fun p => if p.provider = k then p.units else 0) (hpid.symm ▸ hget)
      rw [hp']
      simp only [hprov, Option.some.injEq, ProviderPermit.units, hqh, Bool.false_eq_true, if_false, if_true,
        ite_self, add_zero] at ht hlive hheld ⊢
      omega
  · intro j hj hjl
    rcases Table.mem_put.1 hj with rfl | ⟨hj, hne⟩
    · cases hjl
    · rw [Table.get?_erase, if_neg hne]
      exact h.owns j hj hjl
  · intro b hb
    rw [Table.get?_put] at hb
    rw [Table.get?_erase]
    split at hb
    · cases hb
    · rename_i hne
      rw [if_neg hne]
      exact h.known b hb
  · intro j hj hjl k id hjp
    rcases Table.mem_put.1 hj with rfl | ⟨hj, hne⟩
    · cases hjl
    · rw [hkeep j hj hjl hne k id hjp]
      exact h.permit j hj hjl k id hjp
  · intro j hj j' hj' hjl hjl'
    rcases Table.mem_put.1 hj with rfl | ⟨hj, -⟩
    · cases hjl
    rcases Table.mem_put.1 hj' with rfl | ⟨hj', -⟩
    · cases hjl'
    exact h.distinct j hj j' hj' hjl hjl'

end PermitLink

/-! ## Leases and the account registry -/

structure LeaseLink (registry : LeaseRegistry) (only : List AnyLease) (nextOnly : Nat)
    (issued : Table Issued.lease) : Prop where
  valid : registry.Valid
  inFlight : ∀ c, (registry.countOf c : Int) = liveOn issued c
  account : ∀ l, l ∈ registry.leasesOf l.connectionId ↔ Live issued (.account l)
  onlyLive : ∀ a, a ∈ only ↔ a.connection = none ∧ Live issued a
  onlyNodup : only.Nodup
  accountFresh : ∀ i ∈ issued.rows, ∀ l, i.lease = .account l → l.seq ≤ registry.seq
  onlyFresh : ∀ i ∈ issued.rows, ∀ id p, i.lease = .provider id p → id < nextOnly

theorem live_put {issued : Table Issued.lease} {i : Issued} (hl : i.released = false)
    (a : AnyLease) :
    Live (issued.put i) a ↔ a = i.lease ∨ Live issued a := by
  unfold Live
  constructor
  · rintro ⟨j, hj, rfl, hjl⟩
    rcases Table.mem_put.1 hj with rfl | ⟨hj, -⟩
    · exact Or.inl rfl
    · exact Or.inr ⟨j, hj, rfl, hjl⟩
  · rintro (rfl | ⟨j, hj, rfl, hjl⟩)
    · exact ⟨i, Table.mem_put_self _ _, rfl, hl⟩
    · by_cases hne : j.lease = i.lease
      · exact ⟨i, Table.mem_put_self _ _, hne.symm, hl⟩
      · exact ⟨j, Table.mem_put.2 (Or.inr ⟨hj, hne⟩), rfl, hjl⟩

theorem live_giveBack {issued : Table Issued.lease} (i : Issued) (a : AnyLease) :
    Live (issued.put { i with released := true }) a ↔ a ≠ i.lease ∧ Live issued a := by
  unfold Live
  constructor
  · rintro ⟨j, hj, rfl, hjl⟩
    rcases Table.mem_put.1 hj with rfl | ⟨hj, hne⟩
    · cases hjl
    · exact ⟨hne, j, hj, rfl, hjl⟩
  · rintro ⟨hne, j, hj, rfl, hjl⟩
    exact ⟨j, Table.mem_put.2 (Or.inr ⟨hj, hne⟩), rfl, hjl⟩

theorem liveOn_put {issued : Table Issued.lease} {i : Issued} (hnew : issued.get? i.lease = none)
    (c : String) :
    liveOn (issued.put i) c = liveOn issued c + if i.lease.connection = some c then i.units else 0 :=
  Table.total_put_none _ hnew

theorem liveOn_giveBack {issued : Table Issued.lease} {i : Issued} (hi : i ∈ issued.rows)
    (hl : i.released = false) (c : String) :
    liveOn (issued.put { i with released := true }) c + (if i.lease.connection = some c then 1 else 0) =
      liveOn issued c := by
  have hget : issued.get? i.lease = some i := Table.get?_of_mem hi
  have ht := Table.total_put_some (t := issued) (r := { i with released := true })
    (fun j => if j.lease.connection = some c then j.units else 0) hget
  simp only [Issued.units, hl, if_true, Bool.false_eq_true, if_false, ite_self, add_zero] at ht
  exact ht

namespace LeaseLink

variable {registry : LeaseRegistry} {only : List AnyLease} {nextOnly : Nat} {issued : Table Issued.lease}

theorem issue_account (h : LeaseLink registry only nextOnly issued)
    {capacityOf : String → Option Int} {c : String}
    {registry' : LeaseRegistry} {lease : Lease} (hr : registry.reserve capacityOf c = (registry', some lease))
    (permit : Option (String × Nat)) :
    issued.get? (.account lease) = none ∧
      LeaseLink registry' only nextOnly (issued.put { lease := .account lease, permit }) := by
  obtain ⟨hc, hseq, hseq', -, hset, -⟩ := LeaseRegistry.reserve_some capacityOf hr
  have hnew : issued.get? (.account lease) = none := by
    rw [Table.get?_eq_none]
    intro i hi he
    have := h.accountFresh i hi lease he
    omega
  have hvalid : registry'.Valid := by
    have := h.valid.reserve capacityOf c
    rwa [hr] at this
  refine ⟨hnew, hvalid, ?_, ?_, ?_, h.onlyNodup, ?_, ?_⟩
  · intro c'
    rw [liveOn_put hnew, ← h.inFlight c', LeaseRegistry.countOf, LeaseRegistry.countOf, hset c']
    by_cases hcc : c' = c
    · simp [hcc, AnyLease.connection, hc, Issued.units]
    · have : ¬ c = c' := fun he => hcc he.symm
      simp [hcc, AnyLease.connection, hc, this]
  · intro l
    rw [live_put rfl, ← h.account l, hset]
    by_cases hlc : l.connectionId = c
    · rw [if_pos hlc, hlc, List.mem_append, List.mem_singleton]
      simp only [AnyLease.account.injEq]
      exact or_comm
    · rw [if_neg hlc]
      have hne : AnyLease.account l ≠ .account lease := fun he => hlc (by cases he; exact hc)
      simp [hne]
  · intro a
    rw [live_put rfl, h.onlyLive a]
    constructor
    · exact fun ⟨h1, h2⟩ => ⟨h1, Or.inr h2⟩
    · rintro ⟨h1, rfl | h2⟩
      · cases h1
      · exact ⟨h1, h2⟩
  · intro i hi l hil
    rcases Table.mem_put.1 hi with rfl | ⟨hi, -⟩
    · cases hil
      omega
    · have := h.accountFresh i hi l hil
      omega
  · intro i hi id p hip
    rcases Table.mem_put.1 hi with rfl | ⟨hi, -⟩
    · cases hip
    · exact h.onlyFresh i hi id p hip

theorem issue_provider (h : LeaseLink registry only nextOnly issued) (provider : Option String)
    (permit : Option (String × Nat)) :
    issued.get? (.provider nextOnly provider) = none ∧
      LeaseLink registry (.provider nextOnly provider :: only) (nextOnly + 1)
        (issued.put { lease := .provider nextOnly provider, permit }) := by
  have hnew : issued.get? (.provider nextOnly provider) = none := by
    rw [Table.get?_eq_none]
    intro i hi he
    have := h.onlyFresh i hi _ _ he
    omega
  refine ⟨hnew, h.valid, ?_, ?_, ?_, ?_, ?_, ?_⟩
  · intro c
    rw [liveOn_put hnew, ← h.inFlight c]
    simp [AnyLease.connection]
  · intro l
    rw [live_put rfl, h.account l]
    simp
  · intro a
    rw [live_put rfl, List.mem_cons, h.onlyLive a]
    constructor
    · rintro (rfl | ⟨h1, h2⟩)
      · exact ⟨rfl, Or.inl rfl⟩
      · exact ⟨h1, Or.inr h2⟩
    · rintro ⟨h1, rfl | h2⟩
      · exact Or.inl rfl
      · exact Or.inr ⟨h1, h2⟩
  · refine List.nodup_cons.2 ⟨fun hmem => ?_, h.onlyNodup⟩
    obtain ⟨-, i, hi, he, -⟩ := (h.onlyLive _).1 hmem
    have := h.onlyFresh i hi _ _ he
    omega
  · intro i hi l hil
    rcases Table.mem_put.1 hi with rfl | ⟨hi, -⟩
    · cases hil
    · exact h.accountFresh i hi l hil
  · intro i hi id p hip
    rcases Table.mem_put.1 hi with rfl | ⟨hi, -⟩
    · cases hip
      exact Nat.lt_succ_self _
    · exact Nat.lt_succ_of_lt (h.onlyFresh i hi id p hip)

theorem fresh_giveBack (h : LeaseLink registry only nextOnly issued) {i : Issued}
    (hi : i ∈ issued.rows) :
    (∀ j ∈ (issued.put { i with released := true }).rows, ∀ l, j.lease = .account l → l.seq ≤ registry.seq) ∧
      ∀ j ∈ (issued.put { i with released := true }).rows, ∀ id p, j.lease = .provider id p → id < nextOnly := by
  constructor
  · intro j hj l hjl
    rcases Table.mem_put.1 hj with rfl | ⟨hj, -⟩
    · exact h.accountFresh i hi l hjl
    · exact h.accountFresh j hj l hjl
  · intro j hj id p hjp
    rcases Table.mem_put.1 hj with rfl | ⟨hj, -⟩
    · exact h.onlyFresh i hi id p hjp
    · exact h.onlyFresh j hj id p hjp

theorem giveBack_account (h : LeaseLink registry only nextOnly issued) {i : Issued}
    (hi : i ∈ issued.rows) (hl : i.released = false) {l : Lease} (hil : i.lease = .account l) :
    LeaseLink (registry.release l).1 only nextOnly (issued.put { i with released := true }) := by
  have hmem : l ∈ registry.leasesOf l.connectionId := (h.account l).2 ⟨i, hi, hil, hl⟩
  refine ⟨h.valid.release l, ?_, ?_, ?_, h.onlyNodup, ?_, (h.fresh_giveBack hi).2⟩
  · intro c
    have hlive := liveOn_giveBack hi hl c
    have hcount := h.inFlight c
    rw [LeaseRegistry.countOf, LeaseRegistry.release_leasesOf]
    rw [LeaseRegistry.countOf] at hcount
    by_cases hc : c = l.connectionId
    · subst hc
      have hlen := List.length_erase_of_mem hmem
      have hpos := List.length_pos_of_mem hmem
      rw [if_pos (by rw [hil]; rfl)] at hlive
      rw [if_pos rfl]
      omega
    · rw [if_neg (by rw [hil]; simpa [AnyLease.connection] using Ne.symm hc)] at hlive
      rw [if_neg hc]
      omega
  · intro l'
    rw [live_giveBack, ← h.account l', hil, LeaseRegistry.release_leasesOf]
    by_cases hc : l'.connectionId = l.connectionId
    · rw [if_pos hc, (h.valid.nodup _).mem_erase_iff]
      simp
    · rw [if_neg hc]
      have hne : AnyLease.account l' ≠ .account l := fun he => hc (by cases he; rfl)
      simp [hne]
  · intro a
    rw [live_giveBack, h.onlyLive a, hil]
    constructor
    · rintro ⟨h1, h2⟩
      exact ⟨h1, fun he => absurd (he ▸ h1) (by simp [AnyLease.connection]), h2⟩
    · exact fun ⟨h1, _, h2⟩ => ⟨h1, h2⟩
  · rw [LeaseRegistry.release_seq]
    exact (h.fresh_giveBack hi).1

theorem giveBack_provider (h : LeaseLink registry only nextOnly issued) {i : Issued}
    (hi : i ∈ issued.rows) (hl : i.released = false) (hil : i.lease.connection = none) :
    LeaseLink registry (only.erase i.lease) nextOnly (issued.put { i with released := true }) := by
  refine ⟨h.valid, ?_, ?_, ?_, h.onlyNodup.erase _, (h.fresh_giveBack hi).1, (h.fresh_giveBack hi).2⟩
  · intro c
    have hlive := liveOn_giveBack hi hl c
    have hcount := h.inFlight c
    rw [hil, if_neg (by simp)] at hlive
    omega
  · intro l
    rw [live_giveBack, h.account l]
    have hne : AnyLease.account l ≠ i.lease := by
      intro he
      rw [← he] at hil
      cases hil
    simp [hne]
  · intro a
    rw [live_giveBack, h.onlyNodup.mem_erase_iff, h.onlyLive a]
    exact ⟨fun ⟨h1, h2, h3⟩ => ⟨h2, h1, h3⟩, fun ⟨h1, h2, h3⟩ => ⟨h2, h1, h3⟩⟩

end LeaseLink

end TokenProxy.Admission
