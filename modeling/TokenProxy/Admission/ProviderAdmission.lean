import TokenProxy.Admission.Guarantees

/-!
# Provider permits

`reserveProvider` and `providerThrottle` of `resourceAdmission.js`: the provider half of the
process's reservations. `ProvidersConserved` says that a record's active count is the number of
permits that captured it and are held, and that such a record is still the one its provider maps to:
a record only leaves the map while nothing is active in it.
-/

namespace TokenProxy.Admission

open TokenProxy.Lib

/-- `provider || 'unknown'` -/
def providerKey : Option String → String
  | none => "unknown"
  | some p => if p = "" then "unknown" else p

def providerIdleMs : Int := 300000

/-- `s.effective ?? s.limit` -/
def ProviderEntry.cap (s : ProviderEntry) : Int := s.effective.getD s.limit

namespace AdmissionState

def setEntry (st : AdmissionState) (o : Nat) (s : ProviderEntry) : AdmissionState :=
  { st with pool.entries := Function.update st.pool.entries o s }

/-- One turn of the loop that drops idle providers; the clock is read
for an inactive record only. -/
def expireProvider (st : AdmissionState) (e : String × Nat) : AdmissionState :=
  let s := st.pool.entries e.2
  if s.active = 0 then
    { st.tick with
      pool.providers :=
        if st.now - s.lastSeen > providerIdleMs then st.pool.providers.erase e.1 else st.pool.providers }
  else st

def expireProviders (st : AdmissionState) : AdmissionState := st.pool.providers.rows.foldl expireProvider st

def providerFor (st : AdmissionState) (key : String) : AdmissionState × Nat :=
  match st.pool.providers.get? key with
  | some e => (st, e.2)
  | none =>
    let o := st.pool.nextEntry
    ({ st.tick.setEntry o { limit := st.policy.providerStreams.1, lastSeen := st.now } with
        pool.providers := st.pool.providers.put (key, o)
        pool.nextEntry := o + 1 }, o)

/-- The limit a reservation works under: the configured one where it is a positive integer, never
more than the policy's. -/
def providerLimit (st : AdmissionState) (configuredLimit : Option Int) : Int :=
  match configuredLimit with
  | some n => if 0 < n then min n st.policy.providerStreams.1 else st.policy.providerStreams.1
  | none => st.policy.providerStreams.1

/-- `reserveProvider` up to its ceiling test: the record takes the limit over, and a ceiling that a
throttle lowered recovers by one once the cool-down is over. -/
def refreshProvider (st : AdmissionState) (o : Nat)
    (configuredLimit : Option Int) : AdmissionState :=
  let s := st.pool.entries o
  let limit := st.providerLimit configuredLimit
  let effective := min (s.effective.getD limit) limit
  let s := { s with lastSeen := st.now, limit, effective := some effective }
  let st := st.tick
  if st.now ≥ s.throttledUntil ∧ effective < limit then
    let st := st.tick
    st.tick.setEntry o { s with
      effective := some (effective + 1)
      throttledUntil := st.now + (st.policy.cooldownMs.1 : Int)
      reason := "provider-gradual-recovery" }
  else st.tick.setEntry o s

/-- The new permit: `s.active++; let held = true`. -/
def takeProvider (st : AdmissionState) (key : String) (o : Nat) : AdmissionState :=
  let s := st.pool.entries o
  let id := st.pool.nextPermit
  { st.setEntry o { s with active := s.active + 1 } with
    pool.permits := st.pool.permits.put { id, provider := key, entry := o }
    pool.nextPermit := id + 1
    pool.grants := st.pool.grants ++ [{ permit := id, active := s.active + 1, effective := s.cap, limit := s.limit,
                                        providerStreams := st.policy.providerStreams.1 }] }

/-- `reserveProvider(provider, configuredLimit)`: the permit's identity, or nothing. -/
def reserveProvider (st : AdmissionState) (provider : Option String)
    (configuredLimit : Option Int) :
    AdmissionState × Option Nat :=
  let key := providerKey provider
  let (st, o) := st.expireProviders.providerFor key
  let st := st.refreshProvider o configuredLimit
  let s := st.pool.entries o
  if s.active ≥ s.cap then (st, none) else (st.takeProvider key o, some st.pool.nextPermit)

/-- `release()` of a provider permit. -/
def releaseProvider (st : AdmissionState) (id : Nat) : AdmissionState :=
  match st.pool.permits.get? id with
  | some p =>
    if p.held then
      let s := st.pool.entries p.entry
      { st.setEntry p.entry { s with active := s.active - 1 } with
        pool.permits := st.pool.permits.put { p with held := false } }
    else st
  | none => st

/-- `providerThrottle(provider)` -/
def providerThrottle (st : AdmissionState) (provider : String) : AdmissionState :=
  let st := st.expireProviders
  match st.pool.providers.get? provider with
  | none => st
  | some e =>
    let s := st.pool.entries e.2
    let (st, due) := if s.reason ≠ "observed-provider-throttle" then (st, true)
      else (st.tick, decide (st.now ≥ s.throttledUntil))
    if due then
      st.tick.tick.setEntry e.2 { s with
        effective := some (max 1 (s.cap / 2))
        throttledUntil := st.now + (st.policy.cooldownMs.1 : Int)
        reason := "observed-provider-throttle"
        lastSeen := st.tick.now }
    else st

end AdmissionState

def ProviderPool.active (pool : ProviderPool) (key : String) : Int :=
  match pool.providers.get? key with
  | some e => (pool.entries e.2).active
  | none => 0

open AdmissionState

/-! ## The invariant -/

def ProviderPermit.units (p : ProviderPermit) : Int := if p.held then 1 else 0

theorem ProviderPermit.units_nonneg (p : ProviderPermit) : 0 ≤ p.units := by
  unfold ProviderPermit.units; split <;> omega

/-- The count a provider grant left is inside the record's ceiling, that inside the limit, and
that inside the policy's. -/
structure ProviderGrant.Within (g : ProviderGrant) : Prop where
  active : g.active ≤ g.effective
  effective : g.effective ≤ g.limit
  limit : g.limit ≤ g.providerStreams

structure ProvidersConserved (pool : ProviderPool) : Prop where
  active : ∀ o, (pool.entries o).active = pool.permits.total fun p => if p.entry = o then p.units else 0
  record : ∀ p ∈ pool.permits.rows, p.held = true → pool.providers.get? p.provider = some (p.provider, p.entry)
  fresh : ∀ e ∈ pool.providers.rows, e.2 < pool.nextEntry
  permitFresh : ∀ p ∈ pool.permits.rows, p.id < pool.nextPermit ∧ p.entry < pool.nextEntry
  distinct : ∀ e ∈ pool.providers.rows, ∀ e' ∈ pool.providers.rows, e.2 = e'.2 → e = e'
  within : ∀ g ∈ pool.grants, g.Within

def ProviderPool.held (pool : ProviderPool) (key : String) : Int :=
  pool.permits.total fun p => if p.provider = key then p.units else 0

namespace ProvidersConserved

variable {st : AdmissionState}

/-- **The provider-level count** is the number of permits of the provider that are held. -/
theorem active_eq_held (h : ProvidersConserved st.pool)
    (key : String) : st.pool.active key = st.pool.held key := by
  unfold ProviderPool.active ProviderPool.held
  cases hk : st.pool.providers.get? key with
  | none =>
    refine (Table.total_eq_zero _ fun p hp => ?_).symm
    by_cases hpk : p.provider = key
    · rw [if_pos hpk]
      unfold ProviderPermit.units
      split
      · rename_i hh
        have := h.record p hp hh
        rw [hpk, hk] at this
        cases this
      · rfl
    · rw [if_neg hpk]
  | some e =>
    refine (h.active e.2).trans ?_
    refine Table.total_congr _ fun p hp => ?_
    have hkey : e.1 = key := Table.get?_key hk
    by_cases hh : p.held = true
    · -- a held permit's record is its provider's, and records are not shared
      have hrec := h.record p hp hh
      have hiff : p.entry = e.2 ↔ p.provider = key := by
        constructor
        · intro he
          have := h.distinct _ (Table.get?_mem hrec) _ (Table.get?_mem hk) he
          rw [← hkey, ← this]
        · intro hp'
          rw [hp', hk] at hrec
          rw [Option.some.inj hrec]
      by_cases hpk : p.provider = key
      · rw [if_pos hpk, if_pos (hiff.2 hpk)]
      · rw [if_neg hpk, if_neg fun he => hpk (hiff.1 he)]
    · have hzero : p.units = 0 := if_neg hh
      rw [hzero, ite_self, ite_self]

theorem one_le_active (h : ProvidersConserved st.pool) {p : ProviderPermit}
    (hp : p ∈ st.pool.permits.rows)
    (hh : p.held = true) : 1 ≤ (st.pool.entries p.entry).active := by
  rw [h.active]
  have := Table.le_total (t := st.pool.permits) (g := fun q => if q.entry = p.entry then q.units else 0)
    (fun q _ => by split <;> simp [ProviderPermit.units_nonneg]) hp
  simpa [ProviderPermit.units, hh] using this

theorem of_eq {pool' : ProviderPool} (h : ProvidersConserved st.pool)
    (he : ∀ o, (pool'.entries o).active = (st.pool.entries o).active) (hp : pool'.permits = st.pool.permits)
    (hv : pool'.providers = st.pool.providers) (hn : pool'.nextEntry = st.pool.nextEntry)
    (hi : pool'.nextPermit = st.pool.nextPermit) (hg : pool'.grants = st.pool.grants) :
    ProvidersConserved pool' := by
  refine ⟨?_, ?_, ?_, ?_, ?_, ?_⟩
  · intro o
    rw [he, hp]
    exact h.active o
  · rw [hp, hv]; exact h.record
  · rw [hv, hn]; exact h.fresh
  · rw [hp, hi, hn]; exact h.permitFresh
  · rw [hv]; exact h.distinct
  · rw [hg]; exact h.within

theorem expireProvider (h : ProvidersConserved st.pool) (e : String × Nat) (he : st.pool.providers.get? e.1 = some e ∨
    st.pool.providers.get? e.1 = none) : ProvidersConserved (st.expireProvider e).pool := by
  unfold AdmissionState.expireProvider
  simp only
  split
  · rename_i hidle
    split
    · refine ⟨h.active, ?_, ?_, h.permitFresh, ?_, h.within⟩
      · intro p hp hh
        have hget := h.record p hp hh
        have hne : p.provider ≠ e.1 := by
          rintro heq
          rcases he with he | he
          · rw [heq, he] at hget
            have hentry : e.2 = p.entry := congrArg Prod.snd (Option.some.inj hget)
            have := h.one_le_active hp hh
            rw [← hentry] at this
            omega
          · rw [heq, he] at hget
            cases hget
        simp only [Table.get?_erase, if_neg hne]
        exact hget
      · exact fun x hx => h.fresh x (Table.mem_erase.1 hx).1
      · exact fun x hx y hy => h.distinct x (Table.mem_erase.1 hx).1 y (Table.mem_erase.1 hy).1
    · exact h
  · exact h

theorem expireProvider_get? (e : String × Nat) (k : String) :
    (st.expireProvider e).pool.providers.get? k = st.pool.providers.get? k ∨
      (st.expireProvider e).pool.providers.get? k = none := by
  unfold AdmissionState.expireProvider
  simp only
  split
  · split
    · simp only [Table.get?_erase]
      by_cases hk : k = e.1
      · exact Or.inr (if_pos hk)
      · exact Or.inl (if_neg hk)
    · exact Or.inl rfl
  · exact Or.inl rfl

theorem expireProviders (h : ProvidersConserved st.pool) :
    ProvidersConserved st.expireProviders.pool := by
  have hfold : ∀ (l : List (String × Nat)) (st : AdmissionState), ProvidersConserved st.pool →
      (∀ e ∈ l, st.pool.providers.get? e.1 = some e ∨ st.pool.providers.get? e.1 = none) →
      ProvidersConserved (l.foldl AdmissionState.expireProvider st).pool := by
    intro l
    induction l with
    | nil => exact fun st h _ => h
    | cons e l ih =>
      intro st h hl
      refine ih _ (h.expireProvider e (hl e List.mem_cons_self)) fun x hx => ?_
      rcases @expireProvider_get? st e x.1 with hk | hk
      · rw [hk]; exact hl x (List.mem_cons_of_mem e hx)
      · exact Or.inr hk
  exact hfold _ st h fun e he => Or.inl (Table.get?_of_mem he)

theorem providerFor (h : ProvidersConserved st.pool)
    (key : String) : ProvidersConserved (st.providerFor key).1.pool := by
  unfold AdmissionState.providerFor
  cases hk : st.pool.providers.get? key with
  | some e => exact h
  | none =>
    simp only
    refine ⟨?_, ?_, ?_, ?_, ?_, h.within⟩
    · intro o
      simp only [setEntry, AdmissionState.tick, Function.update_apply]
      by_cases ho : o = st.pool.nextEntry
      · -- no permit ever captured the new record
        rw [if_pos ho]
        refine (Table.total_eq_zero _ fun p hp => ?_).symm
        have := (h.permitFresh p hp).2
        rw [if_neg (by omega)]
      · rw [if_neg ho]
        exact h.active o
    · intro p hp hh
      have hget := h.record p hp hh
      have hne : p.provider ≠ key := by
        rintro heq
        rw [heq, hk] at hget
        cases hget
      simp only [Table.get?_put, if_neg hne]
      exact hget
    · intro e he
      rcases Table.mem_put.1 he with rfl | ⟨he, -⟩
      · exact Nat.lt_succ_self _
      · exact Nat.lt_succ_of_lt (h.fresh e he)
    · exact fun p hp => ⟨(h.permitFresh p hp).1, Nat.lt_succ_of_lt (h.permitFresh p hp).2⟩
    · intro e he e' he' heq
      rcases Table.mem_put.1 he with rfl | ⟨he, -⟩ <;> rcases Table.mem_put.1 he' with rfl | ⟨he', -⟩
      · rfl
      · have := h.fresh e' he'
        simp only at heq
        omega
      · have := h.fresh e he
        simp only at heq
        omega
      · exact h.distinct e he e' he' heq

theorem providerFor_get? (st : AdmissionState) (key : String) :
    (st.providerFor key).1.pool.providers.get? key = some (key, (st.providerFor key).2) := by
  unfold AdmissionState.providerFor
  split
  · rename_i e he
    have hkey : e.1 = key := Table.get?_key he
    subst hkey
    exact he
  · exact Table.get?_put_self _ _

theorem setEntry_of_active (h : ProvidersConserved st.pool) (o : Nat) (s : ProviderEntry)
    (hs : s.active = (st.pool.entries o).active) : ProvidersConserved (st.setEntry o s).pool := by
  refine h.of_eq (fun o' => ?_) rfl rfl rfl rfl rfl
  simp only [setEntry, Function.update_apply]
  by_cases ho : o' = o
  · rw [if_pos ho, hs, ho]
  · rw [if_neg ho]

theorem refreshProvider (h : ProvidersConserved st.pool) (o : Nat) (limit : Option Int) :
    ProvidersConserved (st.refreshProvider o limit).pool := by
  unfold AdmissionState.refreshProvider
  simp only
  split
  · exact h.setEntry_of_active o _ rfl
  · exact h.setEntry_of_active o _ rfl

theorem refreshProvider_entry (st : AdmissionState) (o : Nat) (limit : Option Int) :
    ((st.refreshProvider o limit).pool.entries o).cap ≤ ((st.refreshProvider o limit).pool.entries o).limit ∧
      ((st.refreshProvider o limit).pool.entries o).limit ≤ st.policy.providerStreams.1 := by
  have hlimit : st.providerLimit limit ≤ st.policy.providerStreams.1 := by
    unfold providerLimit
    split
    · split
      · exact min_le_right _ _
      · exact le_rfl
    · exact le_rfl
  unfold AdmissionState.refreshProvider
  simp only
  split
  · rename_i hrec
    simp only [setEntry, Function.update_self, ProviderEntry.cap, Option.getD_some]
    omega
  · simp only [setEntry, Function.update_self, ProviderEntry.cap, Option.getD_some]
    omega

theorem refreshProvider_frame (st : AdmissionState) (o : Nat) (limit : Option Int) :
    (st.refreshProvider o limit).pool.providers = st.pool.providers ∧
      (st.refreshProvider o limit).pool.permits = st.pool.permits ∧
      (st.refreshProvider o limit).policy = st.policy := by
  unfold AdmissionState.refreshProvider
  simp only
  split <;> exact ⟨rfl, rfl, rfl⟩

theorem providerFor_permits (st : AdmissionState) (key : String) :
    (st.providerFor key).1.pool.permits = st.pool.permits := by
  unfold AdmissionState.providerFor
  split <;> rfl

theorem expireProviders_permits (st : AdmissionState) :
    st.expireProviders.pool.permits = st.pool.permits := by
  refine run_inv (I := fun st' : AdmissionState => st'.pool.permits = st.pool.permits) (fun st' e hs => ?_) rfl
  unfold AdmissionState.expireProvider
  simp only
  split <;> exact hs

theorem takeProvider (h : ProvidersConserved st.pool) {key : String} {o : Nat}
    (hrec : st.pool.providers.get? key = some (key, o)) (hcap : (st.pool.entries o).cap ≤ (st.pool.entries o).limit)
    (hlimit : (st.pool.entries o).limit ≤ st.policy.providerStreams.1)
    (hroom : (st.pool.entries o).active < (st.pool.entries o).cap) :
    ProvidersConserved (st.takeProvider key o).pool := by
  have hnew : st.pool.permits.get? st.pool.nextPermit = none := by
    rw [Table.get?_eq_none]
    intro p hp he
    have := (h.permitFresh p hp).1
    omega
  refine ⟨?_, ?_, h.fresh, ?_, h.distinct, ?_⟩
  · intro o'
    simp only [AdmissionState.takeProvider, setEntry, Function.update_apply]
    rw [Table.total_put_none _ hnew, ← h.active o']
    by_cases ho : o' = o
    · simp [ho, ProviderPermit.units]
    · simp [ho, Ne.symm ho]
  · intro p hp hh
    rcases Table.mem_put.1 hp with rfl | ⟨hp, -⟩
    · exact hrec
    · exact h.record p hp hh
  · intro p hp
    rcases Table.mem_put.1 hp with rfl | ⟨hp, -⟩
    · exact ⟨Nat.lt_succ_self _, h.fresh _ (Table.get?_mem hrec)⟩
    · exact ⟨Nat.lt_succ_of_lt (h.permitFresh p hp).1, (h.permitFresh p hp).2⟩
  · intro g hg
    rcases List.mem_append.1 hg with hg | hg
    · exact h.within g hg
    · obtain rfl := List.mem_singleton.1 hg
      exact ⟨by simp only; omega, hcap, hlimit⟩

/-- **What a provider reservation does**: refused, it leaves every permit as it was; admitted, it
adds one held permit of the provider under a new identity. -/
theorem reserveProvider (h : ProvidersConserved st.pool) (provider : Option String)
    (limit : Option Int) :
    ProvidersConserved (st.reserveProvider provider limit).1.pool ∧
      match (st.reserveProvider provider limit).2 with
      | none => (st.reserveProvider provider limit).1.pool.permits = st.pool.permits
      | some id => st.pool.permits.get? id = none ∧ ∃ entry, (st.reserveProvider provider limit).1.pool.permits =
          st.pool.permits.put { id, provider := providerKey provider, entry } := by
  unfold AdmissionState.reserveProvider
  simp only
  have hperm : (st.expireProviders.providerFor (providerKey provider)).1.pool.permits = st.pool.permits :=
    (providerFor_permits _ _).trans (expireProviders_permits st)
  have hget := providerFor_get? st.expireProviders (providerKey provider)
  have hcons := h.expireProviders.providerFor (providerKey provider)
  generalize st.expireProviders.providerFor (providerKey provider) = x at hperm hget hcons
  obtain ⟨st₁, o⟩ := x
  simp only at hperm hget hcons ⊢
  obtain ⟨hprov, hperm', hpol⟩ := refreshProvider_frame st₁ o limit
  obtain ⟨hcap, hlimit⟩ := refreshProvider_entry st₁ o limit
  have hrefresh := hcons.refreshProvider o limit
  rw [← hperm, ← hperm']
  rw [← hprov] at hget
  rw [← hpol] at hlimit
  generalize st₁.refreshProvider o limit = st₂ at hget hcap hlimit hrefresh
  split
  · exact ⟨hrefresh, rfl⟩
  · rename_i hroom
    refine ⟨hrefresh.takeProvider hget hcap hlimit (by omega), ?_, o, rfl⟩
    rw [Table.get?_eq_none]
    intro p hp he
    have := (hrefresh.permitFresh p hp).1
    omega

theorem releaseProvider (h : ProvidersConserved st.pool)
    (id : Nat) : ProvidersConserved (st.releaseProvider id).pool := by
  unfold AdmissionState.releaseProvider
  split
  swap
  · exact h
  rename_i p hp
  split
  swap
  · exact h
  rename_i hheld
  have hid : p.id = id := Table.get?_key hp
  subst hid
  refine ⟨?_, ?_, h.fresh, ?_, h.distinct, h.within⟩
  · intro o
    have ht := Table.total_put_some (t := st.pool.permits) (r := { p with held := false })
      (fun q => if q.entry = o then q.units else 0) hp
    have ha := h.active o
    simp only [setEntry, Function.update_apply]
    by_cases ho : o = p.entry
    · subst ho
      simp only [ProviderPermit.units, hheld, if_true, Bool.false_eq_true, if_false] at ht ha ⊢
      omega
    · simp only [if_neg ho, if_neg (Ne.symm ho)] at ht ⊢
      omega
  · intro q hq hh
    rcases Table.mem_put.1 hq with rfl | ⟨hq, -⟩
    · exact absurd hh (by simp)
    · exact h.record q hq hh
  · intro q hq
    rcases Table.mem_put.1 hq with rfl | ⟨hq, -⟩
    · exact h.permitFresh p (Table.get?_mem hp)
    · exact h.permitFresh q hq

theorem providerThrottle (h : ProvidersConserved st.pool) (provider : String) :
    ProvidersConserved (st.providerThrottle provider).pool := by
  unfold AdmissionState.providerThrottle
  simp only
  split
  · exact h.expireProviders
  · split_ifs
    · exact h.expireProviders.setEntry_of_active _ _ rfl
    · exact h.expireProviders
    · exact h.expireProviders.setEntry_of_active _ _ rfl
    · exact h.expireProviders

theorem providerThrottle_permits (st : AdmissionState) (provider : String) :
    (st.providerThrottle provider).pool.permits = st.pool.permits := by
  unfold AdmissionState.providerThrottle
  simp only
  split
  · exact expireProviders_permits st
  · split_ifs <;> exact expireProviders_permits st

end ProvidersConserved

end TokenProxy.Admission
