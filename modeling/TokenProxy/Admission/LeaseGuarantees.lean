import TokenProxy.Admission.LeaseConservation

/-!
# What the lease registry guarantees over every run

After any sequence of reservations, releases (first, repeated, of leases never issued),
registrations, throttles and admission operations, the provider count and the account count are the
numbers of live leases; a refused reservation moves neither; a lease frees its permits with the
first release of it and with no other.
-/

namespace TokenProxy.Admission

open TokenProxy.Lib

def AccountGrant.Within (g : AccountGrant) : Prop := ∀ cap ∈ LeaseRegistry.gated g.limit, g.held ≤ cap

structure LeaseInv (st : LeaseSystem) : Prop where
  pool : ProvidersConserved st.admission.pool
  permits : PermitLink st.admission.pool.permits st.providerPermits st.issued
  leases : LeaseLink st.registry st.providerOnlyLeases st.nextProviderLease st.issued
  grants : ∀ g ∈ st.accountGrants, g.Within

variable {st : LeaseSystem}

namespace LeaseInv

/-- **The provider-level count** is the number of live leases that hold the provider's permit. -/
theorem active_eq (h : LeaseInv st) (key : String) :
    st.admission.pool.active key = liveOf st.issued key := by
  rw [h.pool.active_eq_held, ProviderPool.held, h.permits.held]

theorem inFlight_eq (h : LeaseInv st) (c : String) : st.inFlight c = liveOn st.issued c := h.leases.inFlight c

theorem of_eq {st' : LeaseSystem} (h : LeaseInv st) (hp : st'.admission.pool = st.admission.pool)
    (ho : st'.providerPermits = st.providerPermits) (hi : st'.issued = st.issued)
    (hr : st'.registry.held = st.registry.held ∧ st'.registry.seq = st.registry.seq)
    (hl : st'.providerOnlyLeases = st.providerOnlyLeases) (hn : st'.nextProviderLease = st.nextProviderLease)
    (hg : st'.accountGrants = st.accountGrants) : LeaseInv st' := by
  have hset : ∀ c, st'.registry.leasesOf c = st.registry.leasesOf c := fun c => by
    rw [LeaseRegistry.leasesOf, hr.1, LeaseRegistry.leasesOf]
  obtain ⟨v, f, a, o, n, af, pf⟩ := h.leases
  refine ⟨by rw [hp]; exact h.pool, by rw [hp, ho, hi]; exact h.permits, ?_, by rw [hg]; exact h.grants⟩
  rw [hl, hn, hi]
  refine ⟨⟨fun c => ?_, fun c => ?_, fun c => ?_⟩, fun c => ?_, fun l => ?_, o, n, ?_, pf⟩
  · rw [hset]; exact v.nodup c
  · rw [hset]; exact v.connection c
  · rw [hset, hr.2]; exact v.issued c
  · rw [LeaseRegistry.countOf, hset]; exact f c
  · rw [hset]; exact a l
  · rw [hr.2]; exact af

/-! ## Reservations -/

theorem reserveAccount_none (h : LeaseInv st)
    (c : String) : LeaseInv (st.reserveAccount c none).1 := by
  unfold LeaseSystem.reserveAccount
  split
  · rename_i registry hr
    obtain ⟨hheld, hseq⟩ := LeaseRegistry.reserve_none st.capacityOf hr
    exact h.of_eq rfl rfl rfl ⟨hheld, hseq⟩ rfl rfl rfl
  · rename_i registry lease hr
    obtain ⟨hnew, hleases⟩ := h.leases.issue_account hr none
    refine ⟨h.pool, h.permits.issue hnew, hleases, fun g hg => ?_⟩
    rcases List.mem_append.1 hg with hg | hg
    · exact h.grants g hg
    · obtain rfl := List.mem_singleton.1 hg
      obtain ⟨-, -, -, -, hset, hroom⟩ := LeaseRegistry.reserve_some st.capacityOf hr
      intro cap hcap
      have := hroom cap hcap
      simp only [LeaseRegistry.countOf, hset, if_true, List.length_append, List.length_singleton] at this ⊢
      omega

theorem releaseProvider_permits {adm : AdmissionState} {id : Nat} {p : ProviderPermit}
    (hp : adm.pool.permits.get? id = some p) (hh : p.held = true) :
    (adm.releaseProvider id).pool.permits = adm.pool.permits.put { p with held := false } := by
  simp only [AdmissionState.releaseProvider, hp, hh, if_true]

/-- The account's half of a reservation under the provider permit just made: the account
either hands a lease out that owns the permit, or the permit is released and no
provider's count has moved. -/
theorem reserveAccount_some (h : LeaseInv st) (c : String) {adm : AdmissionState} {key : String}
    {id entry : Nat}
    (hpool : ProvidersConserved adm.pool) (hid : st.admission.pool.permits.get? id = none)
    (hperm : adm.pool.permits = st.admission.pool.permits.put { id, provider := key, entry }) :
    LeaseInv (({ st with admission := adm } : LeaseSystem).reserveAccount c (some (key, id))).1 := by
  unfold LeaseSystem.reserveAccount
  split
  · -- refused: the permits are as before but for one that is no longer held
    rename_i registry hr
    obtain ⟨hheld, hseq⟩ := LeaseRegistry.reserve_none _ hr
    have hget : adm.pool.permits.get? id = some { id, provider := key, entry } := by
      rw [hperm]; exact Table.get?_put_self st.admission.pool.permits { id, provider := key, entry }
    have hrel := releaseProvider_permits hget rfl
    have hlink : PermitLink (adm.releaseProvider id).pool.permits st.providerPermits st.issued := by
      obtain ⟨lh, lo, lk, lp, ld⟩ := h.permits
      refine ⟨fun k => ?_, lo, lk, fun i hi hl k' id' hip => ?_, ld⟩
      · rw [hrel, ← lh k]
        have h1 := Table.total_put_some (t := adm.pool.permits) (r := { id, provider := key, entry, held := false })
          (fun p => if p.provider = k then p.units else 0) hget
        have h2 := Table.total_put_none (t := st.admission.pool.permits) (r := { id, provider := key, entry })
          (fun p => if p.provider = k then p.units else 0) hid
        rw [← hperm] at h2
        simp only [ProviderPermit.units, Bool.false_eq_true, if_false, ite_self, add_zero, if_true] at h1 h2 ⊢
        omega
      · obtain ⟨p, hp, hh⟩ := lp i hi hl k' id' hip
        have hne : id' ≠ id := by
          rintro rfl
          rw [hid] at hp
          cases hp
        rw [hrel, Table.get?_put_ne _ hne, hperm, Table.get?_put_ne _ hne]
        exact ⟨p, hp, hh⟩
    have hinv : LeaseInv { st with admission := adm.releaseProvider id } :=
      ⟨hpool.releaseProvider id, hlink, h.leases, h.grants⟩
    exact hinv.of_eq rfl rfl rfl ⟨hheld, hseq⟩ rfl rfl rfl
  · rename_i registry lease hr
    obtain ⟨hnew, hleases⟩ := h.leases.issue_account hr (some (key, id))
    refine ⟨hpool, ?_, hleases, fun g hg => ?_⟩
    · show PermitLink adm.pool.permits _ _
      rw [hperm]
      exact h.permits.issue_permit hnew entry hid
    · rcases List.mem_append.1 hg with hg | hg
      · exact h.grants g hg
      · obtain rfl := List.mem_singleton.1 hg
        obtain ⟨-, -, -, -, hset, hroom⟩ := LeaseRegistry.reserve_some _ hr
        intro cap hcap
        have := hroom cap hcap
        simp only [LeaseRegistry.countOf, hset, if_true, List.length_append, List.length_singleton] at this ⊢
        omega

theorem refused (h : LeaseInv st) {adm : AdmissionState} (hpool : ProvidersConserved adm.pool)
    (hperm : adm.pool.permits = st.admission.pool.permits) :
    LeaseInv { st with admission := adm } := by
  refine ⟨hpool, ?_, h.leases, h.grants⟩
  show PermitLink adm.pool.permits _ _
  rw [hperm]
  exact h.permits

theorem reserve (h : LeaseInv st) (c : String) : LeaseInv (st.reserve c).1 := by
  unfold LeaseSystem.reserve
  have hclear : LeaseInv (st.clearRefusal c) := h.of_eq rfl rfl rfl ⟨rfl, rfl⟩ rfl rfl rfl
  split
  · exact hclear.reserveAccount_none c
  · rename_i c' provider limit _
    have hspec := h.pool.reserveProvider (some provider) limit
    split
    · rename_i adm hr
      rw [hr] at hspec
      exact (h.refused hspec.1 hspec.2).of_eq rfl rfl rfl ⟨rfl, rfl⟩ rfl rfl rfl
    · rename_i adm id hr
      rw [hr] at hspec
      obtain ⟨hpool, hid, entry, hperm⟩ := hspec
      exact hclear.reserveAccount_some c hpool hid hperm

theorem reserveProviderLease (h : LeaseInv st) (provider : Option String) (limit : Option Int) :
    LeaseInv (st.reserveProviderLease provider limit).1 := by
  unfold LeaseSystem.reserveProviderLease
  have hspec := h.pool.reserveProvider provider limit
  split
  · rename_i adm hr
    rw [hr] at hspec
    exact h.refused hspec.1 hspec.2
  · rename_i adm id hr
    rw [hr] at hspec
    obtain ⟨hpool, hid, entry, hperm⟩ := hspec
    obtain ⟨hnew, hleases⟩ := h.leases.issue_provider provider (some (providerKey provider, id))
    refine ⟨hpool, ?_, hleases, h.grants⟩
    show PermitLink adm.pool.permits _ _
    simp only at hperm
    rw [hperm]
    exact h.permits.issue_permit hnew entry hid

/-! ## Releases -/

theorem giveBack_issued (st : LeaseSystem) {i : Issued} (hi : i ∈ st.issued.rows) :
    (st.giveBack i.lease).issued = st.issued.put { i with released := true } := by
  simp only [LeaseSystem.giveBack, Table.get?_of_mem hi]

theorem freeLease_live (h : LeaseInv st) {i : Issued} (hi : i ∈ st.issued.rows)
    (hl : i.released = false) :
    ∃ registry only, st.freeLease i.lease = ({ st with registry, providerOnlyLeases := only }, true) ∧
      LeaseLink registry only st.nextProviderLease (st.issued.put { i with released := true }) := by
  have hlive : Live st.issued i.lease := ⟨i, hi, rfl, hl⟩
  unfold LeaseSystem.freeLease
  cases hconn : i.lease with
  | provider id p =>
    have hmem : i.lease ∈ st.providerOnlyLeases := (h.leases.onlyLive _).2 ⟨by rw [hconn]; rfl, hlive⟩
    have hlink := h.leases.giveBack_provider hi hl (by rw [hconn]; rfl)
    rw [hconn] at hmem hlink
    rw [if_pos hmem]
    exact ⟨st.registry, _, rfl, hlink⟩
  | account l =>
    have hmem : AnyLease.account l ∉ st.providerOnlyLeases := fun hm => by
      have := ((h.leases.onlyLive _).1 hm).1
      cases this
    have hfreed : (st.registry.release l).2 = true :=
      (LeaseRegistry.release_freed _ _).2 ((h.leases.account l).2 (hconn ▸ hlive))
    have hlink := h.leases.giveBack_account hi hl hconn
    rw [hconn] at hlink
    rw [if_neg hmem]
    simp only [hfreed]
    exact ⟨_, st.providerOnlyLeases, rfl, hlink⟩

theorem dropPermit_live (h : LeaseInv st) {i : Issued} (hi : i ∈ st.issued.rows)
    (hl : i.released = false) :
    ProvidersConserved (st.dropPermit i.lease).admission.pool ∧
      PermitLink (st.dropPermit i.lease).admission.pool.permits (st.providerPermits.erase i.lease)
        (st.issued.put { i with released := true }) := by
  have howns := h.permits.owns i hi hl
  cases hip : i.permit with
  | none =>
    rw [hip] at howns
    have hadm : (st.dropPermit i.lease).admission = st.admission := by
      simp only [LeaseSystem.dropPermit, howns, Option.map_none]
    have hlink := h.permits.giveBack hi hl st.admission.pool.permits (by rw [hip])
    rw [hip] at hlink
    rw [hadm]
    exact ⟨h.pool, hlink⟩
  | some e =>
    obtain ⟨k, id⟩ := e
    obtain ⟨p, hget, hh, -⟩ := h.permits.permit i hi hl k id hip
    rw [hip] at howns
    have hadm : (st.dropPermit i.lease).admission = st.admission.releaseProvider id := by
      simp only [LeaseSystem.dropPermit, howns, Option.map_some]
    have hlink := h.permits.giveBack hi hl (st.admission.releaseProvider id).pool.permits
      (by rw [hip]; exact ⟨p, hget, releaseProvider_permits hget hh⟩)
    rw [hip] at hlink
    rw [hadm]
    exact ⟨h.pool.releaseProvider id, hlink⟩

/-- **The first release of a lease** reports that it freed, keeps the invariant, and
marks the lease given back. -/
theorem release_live (h : LeaseInv st) {i : Issued} (hi : i ∈ st.issued.rows)
    (hl : i.released = false) :
    (st.release i.lease).2 = true ∧ LeaseInv (st.release i.lease).1 ∧
      (st.release i.lease).1.issued = st.issued.put { i with released := true } := by
  obtain ⟨registry, only, hfree, hleases⟩ := h.freeLease_live hi hl
  obtain ⟨hpool, hlink⟩ := h.dropPermit_live hi hl
  simp only [LeaseSystem.release, hfree, if_true]
  have hissued := giveBack_issued (LeaseSystem.dropPermit { st with registry, providerOnlyLeases := only } i.lease) hi
  refine ⟨trivial, ⟨hpool, ?_, ?_, h.grants⟩, hissued⟩
  · rw [hissued]; exact hlink
  · rw [hissued]; exact hleases

theorem release_dead (h : LeaseInv st) {a : AnyLease} (ha : ¬ Live st.issued a) :
    (st.release a).2 = false ∧ (st.release a).1 = st := by
  have hgive : st.giveBack a = st := by
    unfold LeaseSystem.giveBack
    cases hget : st.issued.get? a with
    | none => rfl
    | some i =>
      have hia : i.lease = a := Table.get?_key hget
      have hreleased : i.released = true := by
        by_contra hne
        exact ha ⟨i, Table.get?_mem hget, hia, by simpa using hne⟩
      have hrow : { i with released := true } = i := by
        cases i
        simp only at hreleased
        rw [hreleased]
      simp only [hrow]
      rw [Table.put_of_get? (hia ▸ hget)]
  have hfree : st.freeLease a = (st, false) := by
    unfold LeaseSystem.freeLease
    have honly : a ∉ st.providerOnlyLeases := fun hm => ha ((h.leases.onlyLive a).1 hm).2
    rw [if_neg honly]
    cases a with
    | provider id p => rfl
    | account l =>
      have hnot : (st.registry.release l).2 = false := by
        by_contra hne
        exact ha ((h.leases.account l).1 ((LeaseRegistry.release_freed _ _).1 (by simpa using hne)))
      simp only [hnot, LeaseRegistry.release_of_not_freed hnot]
  simp only [LeaseSystem.release, hfree, Bool.false_eq_true, if_false, hgive]
  exact ⟨trivial, trivial⟩

theorem release (h : LeaseInv st) (a : AnyLease) : LeaseInv (st.release a).1 := by
  by_cases ha : Live st.issued a
  · obtain ⟨i, hi, rfl, hl⟩ := ha
    exact (h.release_live hi hl).2.1
  · rw [(h.release_dead ha).2]
    exact h

theorem step (h : LeaseInv st) (op : LeaseOp) : LeaseInv (leaseStep st op) := by
  cases op with
  | reserve c => exact h.reserve c
  | reserveProviderLease provider limit => exact h.reserveProviderLease provider limit
  | release a => exact h.release a
  | registerAccountCapacity c limit provider limitOfProvider => exact h.of_eq rfl rfl rfl ⟨rfl, rfl⟩ rfl rfl rfl
  | providerThrottle provider =>
    refine ⟨h.pool.providerThrottle provider, ?_, h.leases, h.grants⟩
    show PermitLink (st.admission.providerThrottle provider).pool.permits _ _
    rw [ProvidersConserved.providerThrottle_permits]
    exact h.permits
  | admission op => exact h.of_eq (Extends.step st.admission op).pool rfl rfl ⟨rfl, rfl⟩ rfl rfl rfl

end LeaseInv

theorem leaseInv_createLeaseSystem (clock : Nat → Int) (policy : AdmissionPolicy) :
    LeaseInv (createLeaseSystem clock policy) := by
  have hnone : ∀ i : Issued, i ∉ (createLeaseSystem clock policy).issued.rows := fun _ => List.not_mem_nil
  have hdead : ∀ a, ¬ Live (createLeaseSystem clock policy).issued a := fun _ ⟨i, hi, _⟩ => hnone i hi
  refine ⟨⟨fun _ => rfl, ?_, ?_, ?_, ?_, ?_⟩, ⟨fun _ => rfl, ?_, fun _ _ => rfl, ?_, ?_⟩,
    ⟨LeaseRegistry.valid_empty, fun _ => rfl, fun l => ?_, fun a => ?_, List.nodup_nil, ?_, ?_⟩, ?_⟩
  · exact fun p hp => absurd hp List.not_mem_nil
  · exact fun e he => absurd he List.not_mem_nil
  · exact fun p hp => absurd hp List.not_mem_nil
  · exact fun e he => absurd he List.not_mem_nil
  · exact fun g hg => absurd hg List.not_mem_nil
  · exact fun i hi => absurd hi (hnone i)
  · exact fun i hi => absurd hi (hnone i)
  · exact fun i hi => absurd hi (hnone i)
  · exact ⟨fun hl => absurd hl List.not_mem_nil, fun hl => absurd hl (hdead _)⟩
  · exact ⟨fun hl => absurd hl List.not_mem_nil, fun hl => absurd hl.2 (hdead _)⟩
  · exact fun i hi => absurd hi (hnone i)
  · exact fun i hi => absurd hi (hnone i)
  · exact fun g hg => absurd hg List.not_mem_nil

/-! ## A lease given back stays given back -/

def GivenBack (st : LeaseSystem) (a : AnyLease) : Prop := ∃ i ∈ st.issued.rows, i.lease = a ∧ i.released = true

theorem GivenBack.not_live {a : AnyLease} (h : GivenBack st a) : ¬ Live st.issued a := by
  rintro ⟨j, hj, hja, hjl⟩
  obtain ⟨i, hi, hia, hil⟩ := h
  have := Table.eq_of_key hi hj (hia.trans hja.symm)
  rw [this, hjl] at hil
  cases hil

theorem reserve_issued (h : LeaseInv st) (c : String) :
    (st.reserve c).1.issued = st.issued ∨
      ∃ i : Issued, st.issued.get? i.lease = none ∧ (st.reserve c).1.issued = st.issued.put i := by
  have haccount : ∀ (st' : LeaseSystem) permit, st'.issued = st.issued → st'.registry = st.registry →
      (st'.reserveAccount c permit).1.issued = st.issued ∨
        ∃ i : Issued, st.issued.get? i.lease = none ∧ (st'.reserveAccount c permit).1.issued = st.issued.put i := by
    intro st' permit hi hr
    unfold LeaseSystem.reserveAccount
    split
    · left
      unfold LeaseSystem.releasePermit
      split <;> exact hi
    · rename_i registry lease hres
      rw [hr] at hres
      exact Or.inr ⟨_, (h.leases.issue_account hres permit).1, by rw [← hi]⟩
  unfold LeaseSystem.reserve
  split
  · exact haccount _ _ rfl rfl
  · split
    · exact Or.inl rfl
    · exact haccount _ _ rfl rfl

theorem reserve_refused {c : String} (hc : (st.reserve c).2 = none) :
    (st.reserve c).1.issued = st.issued := by
  have haccount : ∀ (st' : LeaseSystem) permit, st'.issued = st.issued → (st'.reserveAccount c permit).2 = none →
      (st'.reserveAccount c permit).1.issued = st.issued := by
    intro st' permit hi hnone
    unfold LeaseSystem.reserveAccount at hnone ⊢
    split
    · unfold LeaseSystem.releasePermit
      split <;> exact hi
    · rename_i registry lease hres
      rw [hres] at hnone
      cases hnone
  unfold LeaseSystem.reserve at hc ⊢
  split
  · rename_i hmeta
    rw [hmeta] at hc
    exact haccount _ _ rfl hc
  · rename_i c' provider limit hmeta
    rw [hmeta] at hc
    simp only at hc
    split
    · rfl
    · rename_i adm id hres
      rw [hres] at hc
      exact haccount _ _ rfl hc

theorem reserveProviderLease_issued (h : LeaseInv st) (provider : Option String)
    (limit : Option Int) :
    (st.reserveProviderLease provider limit).1.issued = st.issued ∨
      ∃ i : Issued, st.issued.get? i.lease = none ∧
        (st.reserveProviderLease provider limit).1.issued = st.issued.put i := by
  unfold LeaseSystem.reserveProviderLease
  split
  · exact Or.inl rfl
  · exact Or.inr ⟨_, (h.leases.issue_provider provider none).1, rfl⟩

theorem GivenBack.put {a : AnyLease} (h : GivenBack st a) {st' : LeaseSystem}
    (hi : st'.issued = st.issued ∨ ∃ i : Issued, st.issued.get? i.lease = none ∧ st'.issued = st.issued.put i) :
    GivenBack st' a := by
  obtain ⟨j, hj, rfl, hjl⟩ := h
  rcases hi with hi | ⟨i, hnew, hi⟩
  · exact ⟨j, hi ▸ hj, rfl, hjl⟩
  · refine ⟨j, ?_, rfl, hjl⟩
    rw [hi]
    refine Table.mem_put.2 (Or.inr ⟨hj, fun he => ?_⟩)
    rw [← he, Table.get?_of_mem hj] at hnew
    cases hnew

theorem GivenBack.step (hinv : LeaseInv st) {a : AnyLease} (h : GivenBack st a) (op : LeaseOp) :
    GivenBack (leaseStep st op) a := by
  cases op with
  | reserve c => exact h.put (reserve_issued hinv c)
  | reserveProviderLease provider limit => exact h.put (reserveProviderLease_issued hinv provider limit)
  | release b =>
    by_cases hb : Live st.issued b
    · obtain ⟨i, hi, rfl, hl⟩ := hb
      obtain ⟨-, -, hissued⟩ := hinv.release_live hi hl
      obtain ⟨j, hj, rfl, hjl⟩ := h
      show GivenBack (st.release i.lease).1 j.lease
      unfold GivenBack
      rw [hissued]
      by_cases he : j.lease = i.lease
      · exact ⟨_, Table.mem_put_self _ _, he.symm, rfl⟩
      · exact ⟨j, Table.mem_put.2 (Or.inr ⟨hj, he⟩), rfl, hjl⟩
    · show GivenBack (st.release b).1 a
      rw [(hinv.release_dead hb).2]
      exact h
  | registerAccountCapacity c limit provider limitOfProvider => exact h
  | providerThrottle provider => exact h
  | admission op => exact h

/-- **Leases conserve their permits at both levels**, after every sequence of operations:
the provider count and the account count are the numbers of live leases, grants stay inside
the ceilings, a refused reservation moves no count, and a lease frees what it holds at the
first release and never again. -/
theorem accountLeases_conserve (clock : Nat → Int) (policy : AdmissionPolicy) (ops : List LeaseOp) :
    let st := run leaseStep (createLeaseSystem clock policy) ops
    (∀ key, st.admission.pool.active key = liveOf st.issued key) ∧
    (∀ c, st.inFlight c = liveOn st.issued c) ∧
    (∀ g ∈ st.admission.pool.grants, g.Within) ∧ (∀ g ∈ st.accountGrants, g.Within) ∧
    (∀ c, (st.reserve c).2 = none →
      (∀ key, (st.reserve c).1.admission.pool.active key = st.admission.pool.active key) ∧
      ∀ c', (st.reserve c).1.inFlight c' = st.inFlight c') ∧
    (∀ i ∈ st.issued.rows, i.released = false →
      (st.release i.lease).2 = true ∧
      (∀ key, (st.release i.lease).1.admission.pool.active key + (if i.provider = some key then 1 else 0) =
        st.admission.pool.active key) ∧
      (∀ c, (st.release i.lease).1.inFlight c + (if i.lease.connection = some c then 1 else 0) = st.inFlight c) ∧
      ∀ later, ¬ Live (run leaseStep (st.release i.lease).1 later).issued i.lease) ∧
    ∀ a, ¬ Live st.issued a → (st.release a).2 = false ∧ (st.release a).1 = st := by
  intro st
  have h : LeaseInv st := run_inv (fun _ op hs => hs.step op) (leaseInv_createLeaseSystem clock policy)
  refine ⟨h.active_eq, h.inFlight_eq, h.pool.within, h.grants, ?_, ?_, fun a ha => h.release_dead ha⟩
  · intro c hc
    have hinv := h.reserve c
    have hissued := reserve_refused hc
    exact ⟨fun key => by rw [hinv.active_eq, h.active_eq, hissued],
      fun c' => by rw [hinv.inFlight_eq, h.inFlight_eq, hissued]⟩
  · intro i hi hl
    obtain ⟨hfreed, hinv, hissued⟩ := h.release_live hi hl
    refine ⟨hfreed, fun key => ?_, fun c => ?_, fun later => ?_⟩
    · rw [hinv.active_eq, h.active_eq, hissued]
      exact PermitLink.liveOf_giveBack hi hl key
    · rw [hinv.inFlight_eq, h.inFlight_eq, hissued]
      exact liveOn_giveBack hi hl c
    · have hgiven : GivenBack (st.release i.lease).1 i.lease :=
        ⟨{ i with released := true }, hissued ▸ Table.mem_put_self _ _, rfl, rfl⟩
      have hend : LeaseInv (run leaseStep (st.release i.lease).1 later) ∧
          GivenBack (run leaseStep (st.release i.lease).1 later) i.lease :=
        run_inv (I := fun st => LeaseInv st ∧ GivenBack st i.lease)
          (fun st op hs => ⟨hs.1.step op, hs.2.step hs.1 op⟩) ⟨hinv, hgiven⟩
      exact hend.2.not_live

end TokenProxy.Admission
