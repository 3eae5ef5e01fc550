import TokenProxy.QuotaGuard.Evidence

/-!
# The snapshot cache

Where an entry comes from (`EntryOrigin`): it was there, it was persisted with a connection, or it
is the reading of the refresh that is in flight.
-/

namespace TokenProxy.QuotaGuard

open Lib

variable {W U : Type}

/-! ### Frames -/

theorem mem_setBounded {V : Type} {map : Dict String V} {key : String} {value : V} {x : String × V}
    (h : x ∈ (setBounded map key value).rows) : x = (key, value) ∨ (x ∈ map.rows ∧ x.1 ≠ key) := by
  unfold setBounded at h
  obtain rfl | ⟨hx, hne⟩ := Table.mem_put.1 (Table.mem_of_mem_keepLast h)
  · exact Or.inl rfl
  · exact Or.inr ⟨(Table.mem_erase.1 hx).1, hne⟩

theorem abortInFlight_eq (s : GuardState W U) (id : String) :
    abortInFlight s id = { s with refreshes := (abortInFlight s id).refreshes } := by
  unfold abortInFlight
  split <;> rfl

theorem readSnapshot_eq (s : GuardState W U) (connection : Connection W)
    (identity : EvidenceIdentity) (now : Nat) :
    (readSnapshot s connection identity now).1 =
      { s with memoryCache := (readSnapshot s connection identity now).1.memoryCache } := by
  unfold readSnapshot
  split
  · rfl
  · split
    · split <;> rfl
    · rfl

theorem staleSnapshot_eq (s : GuardState W U) (connection : Connection W)
    (identity : EvidenceIdentity) :
    (staleSnapshot s connection identity).1 = { s with memoryCache := (staleSnapshot s connection identity).1.memoryCache } := by
  unfold staleSnapshot
  split
  · split <;> rfl
  · split <;> rfl

theorem startRefresh_memoryCache (s : GuardState W U) (connection : Connection W)
    (identity : EvidenceIdentity) :
    (startRefresh s connection identity).memoryCache = s.memoryCache := rfl

theorem scheduleRefresh_memoryCache (s : GuardState W U) (connection : Connection W)
    (identity : EvidenceIdentity) (now : Nat) :
    (scheduleRefresh s connection identity now).1.memoryCache = s.memoryCache := by
  unfold scheduleRefresh
  split
  · rfl
  · split
    · split
      · rfl
      · rw [startRefresh_memoryCache, abortInFlight_eq]
    · rfl

/-! ### Where cache entries come from -/

section Cache

variable (derive : U → Nat → Option (Snapshot W)) (pauses : Connection W → Option (Snapshot W) → Bool)

inductive EntryOrigin (s : GuardState W U) (now : Nat) (op : GuardOp W U) (k : String) (e : CacheEntry W) : Prop where
  | old (h : (k, e) ∈ s.memoryCache.rows)
  | persisted (id : Nat) (connection : Connection W) (proxyOptions : String) (snapshot : Snapshot W)
      (hop : op = .evaluate id connection (some proxyOptions)) (hk : k = connection.id)
      (hbound : boundSnapshot connection (quotaEvidenceIdentity connection proxyOptions) = some snapshot)
      (he : e = ⟨quotaEvidenceIdentity connection proxyOptions, snapshot, snapshot.fetchedAt⟩)
      (hnewer : (cachedFresh s k (quotaEvidenceIdentity connection proxyOptions) now = none ∧
        freshSnapshot now snapshot.fetchedAt = true) ∨ cached s k = none)
  | live (r : Refresh W U) (usage : U) (snapshot : Snapshot W) (hop : op = .fetched r.id (.usage usage))
      (hget : s.refreshes.get? r.id = some r) (hk : k = r.connection.id) (hcurrent : inFlight s k = some r.id)
      (hderive : derive usage now = some snapshot)
      (he : e = ⟨r.identity, { snapshot with evidenceIdentity := some r.identity }, snapshot.fetchedAt⟩)

theorem readSnapshot_entries (s : GuardState W U) {connection : Connection W}
    {identity : EvidenceIdentity} {now : Nat}
    {k : String} {e : CacheEntry W} (h : (k, e) ∈ (readSnapshot s connection identity now).1.memoryCache.rows) :
    (k, e) ∈ s.memoryCache.rows ∨ ∃ snapshot, k = connection.id ∧ boundSnapshot connection identity = some snapshot ∧
      e = ⟨identity, snapshot, snapshot.fetchedAt⟩ ∧ cachedFresh s k identity now = none ∧
      freshSnapshot now snapshot.fetchedAt = true := by
  unfold readSnapshot at h
  split at h
  · exact Or.inl h
  · rename_i hnone
    split at h
    · rename_i snapshot hbound
      split at h
      · rename_i hfresh
        obtain he | ⟨hold, -⟩ := mem_setBounded h
        · cases he
          exact Or.inr ⟨snapshot, rfl, hbound, rfl, hnone, hfresh⟩
        · exact Or.inl hold
      · exact Or.inl h
    · exact Or.inl h

theorem readSnapshot_none {s : GuardState W U} {connection : Connection W}
    {identity : EvidenceIdentity} {now : Nat}
    (h : (readSnapshot s connection identity now).2 = none) :
    (readSnapshot s connection identity now).1 = s := by
  unfold readSnapshot at h ⊢
  split
  · rfl
  · split
    · split
      · rename_i hnone _ snapshot hbound hfresh
        simp only [hnone, hbound, hfresh, if_true] at h
        cases h
      · rfl
    · rfl

theorem staleSnapshot_entries (s : GuardState W U) {connection : Connection W}
    {identity : EvidenceIdentity} {k : String}
    {e : CacheEntry W} (h : (k, e) ∈ (staleSnapshot s connection identity).1.memoryCache.rows) :
    (k, e) ∈ s.memoryCache.rows ∨ ∃ snapshot, k = connection.id ∧ boundSnapshot connection identity = some snapshot ∧
      e = ⟨identity, snapshot, snapshot.fetchedAt⟩ ∧ cached s k = none := by
  unfold staleSnapshot at h
  split at h
  · split at h <;> exact Or.inl h
  · rename_i hnone
    split at h
    · rename_i snapshot hbound
      obtain he | ⟨hold, -⟩ := mem_setBounded h
      · cases he
        exact Or.inr ⟨snapshot, rfl, hbound, rfl, hnone⟩
      · exact Or.inl hold
    · exact Or.inl h

theorem staleSnapshot_none {s : GuardState W U} {connection : Connection W}
    {identity : EvidenceIdentity}
    (h : (staleSnapshot s connection identity).2 = none) :
    (staleSnapshot s connection identity).1 = s := by
  unfold staleSnapshot at h ⊢
  split
  · split <;> rfl
  · split
    · rename_i hnone _ snapshot hbound
      simp only [hnone, hbound] at h
      cases h
    · rfl

inductive Evaluated (s : GuardState W U) (connection : Connection W) (proxyOptions : Option String) (now : Nat) :
    GuardState W U × CallPhase W U → Prop where
  | refused (reason : String) : Evaluated s connection proxyOptions now (s, .done (noSnapshot reason))
  | fresh (o : String) (ho : proxyOptions = some o) (snapshot : Snapshot W)
      (h : (readSnapshot s connection (quotaEvidenceIdentity connection o) now).2 = some snapshot) :
      Evaluated s connection proxyOptions now
        ((readSnapshot s connection (quotaEvidenceIdentity connection o) now).1,
          .done (quotaResult pauses connection (some snapshot) none none))
  | stale (o : String) (ho : proxyOptions = some o) (snapshot : Snapshot W)
      (h : (staleSnapshot s connection (quotaEvidenceIdentity connection o)).2 = some snapshot) :
      Evaluated s connection proxyOptions now
        ((scheduleRefresh (staleSnapshot s connection (quotaEvidenceIdentity connection o)).1 connection
            (quotaEvidenceIdentity connection o) now).1,
          .done (quotaResult pauses connection (some snapshot) none none))
  | waits (o : String) (ho : proxyOptions = some o) :
      Evaluated s connection proxyOptions now (scheduleRefresh s connection (quotaEvidenceIdentity connection o) now)

theorem evaluateQuota_evaluated (s : GuardState W U) (connection : Connection W)
    (proxyOptions : Option String) (now : Nat) :
    Evaluated pauses s connection proxyOptions now (evaluateQuota pauses s connection proxyOptions now) := by
  unfold evaluateQuota
  split
  · exact .refused _
  · split
    · exact .refused _
    · rename_i o
      dsimp only
      split
      · rename_i s' snapshot hread
        have hfst : s' = (readSnapshot s connection (quotaEvidenceIdentity connection o) now).1 := by rw [hread]
        rw [hfst]
        exact .fresh o rfl snapshot (by rw [hread])
      · rename_i s' hread
        have hsame : s' = s := by
          have hnone := readSnapshot_none (congrArg Prod.snd hread)
          rw [hread] at hnone
          exact hnone
        subst hsame
        split
        · rename_i s'' snapshot hstale
          have hfst : s'' = (staleSnapshot s' connection (quotaEvidenceIdentity connection o)).1 := by rw [hstale]
          rw [hfst]
          exact .stale o rfl snapshot (by rw [hstale])
        · rename_i s'' hstale
          have hsame : s'' = s' := by
            have hnone := staleSnapshot_none (congrArg Prod.snd hstale)
            rw [hstale] at hnone
            exact hnone
          subst hsame
          exact .waits o rfl

theorem clearQuotaCache_memoryCache (s : GuardState W U) (connection : Option String)
    {x : String × CacheEntry W}
    (h : x ∈ (clearQuotaCache s connection).memoryCache.rows) : x ∈ s.memoryCache.rows := by
  cases connection with
  | none => cases h
  | some id =>
    have hmem := (Table.mem_erase.1 h).1
    rwa [abortInFlight_eq] at hmem

theorem setNegative_memoryCache (s : GuardState W U) (r : Refresh W U) (failureClass : String)
    (now : Nat) :
    (setNegative s r failureClass now).memoryCache = s.memoryCache := by
  simp only [setNegative]

/-- The refresh as its `catch` leaves it. -/
def failed (r : Refresh W U) (errorName : String) : Refresh W U :=
  { r with phase := .returned { failureClass := some (failureClassOf r errorName) } }

theorem refreshFails_cases (s : GuardState W U) (r : Refresh W U) (errorName : String) (now : Nat) :
    refreshFails s r errorName now = setRefresh s (failed r errorName) ∨
      (inFlight s r.connection.id = some r.id ∧
        refreshFails s r errorName now = setNegative (setRefresh s (failed r errorName)) r (failureClassOf r errorName) now) := by
  unfold refreshFails
  by_cases h : inFlight (setRefresh s (failed r errorName)) r.connection.id = some r.id ∧ failureClassOf r errorName ≠ "superseded"
  · exact Or.inr ⟨h.1, if_pos h⟩
  · exact Or.inl (if_neg h)

theorem refreshFails_memoryCache (s : GuardState W U) (r : Refresh W U) (errorName : String)
    (now : Nat) :
    (refreshFails s r errorName now).memoryCache = s.memoryCache := by
  obtain h | ⟨-, h⟩ := refreshFails_cases s r errorName now
  · rw [h, setRefresh]
  · rw [h, setNegative_memoryCache, setRefresh]

theorem fetchSettles_entries {s : GuardState W U} {r : Refresh W U}
    (hget : s.refreshes.get? r.id = some r)
    {outcome : FetchOutcome U} {now : Nat} {k : String} {e : CacheEntry W}
    (h : (k, e) ∈ (fetchSettles derive s r outcome now).memoryCache.rows) :
    EntryOrigin derive s now (.fetched r.id outcome) k e := by
  unfold fetchSettles at h
  split at h
  · rw [refreshFails_memoryCache] at h
    exact .old h
  · rw [refreshFails_memoryCache] at h
    exact .old h
  · split at h
    · exact .old h
    · rename_i hcurrent
      split at h
      · rename_i usage _
        split at h
        · rename_i snapshot hderive
          obtain he | ⟨hold, -⟩ := mem_setBounded h
          · cases he
            exact .live r usage snapshot rfl hget rfl (not_not.1 hcurrent) hderive rfl
          · exact .old hold
        · exact .old h
      · exact .old h

theorem refreshStep_entries {s : GuardState W U} {r : Refresh W U}
    (hget : s.refreshes.get? r.id = some r) {op : GuardOp W U}
    (hop : op.refresh? = some r.id) {now : Nat} {k : String} {e : CacheEntry W}
    (h : (k, e) ∈ (refreshStep derive s r now op).memoryCache.rows) :
    EntryOrigin derive s now op k e := by
  cases op with
  | fetched id outcome =>
    cases hop
    simp only [refreshStep] at h
    split at h
    · exact fetchSettles_entries derive hget h
    · exact .old h
  | retained id error =>
    simp only [refreshStep] at h
    split at h
    · cases error with
      | none => exact .old h
      | some errorName =>
        rw [show retainSettles s r _ (some errorName) now = refreshFails s r errorName now from rfl,
          refreshFails_memoryCache] at h
        exact .old h
    · exact .old h
  | ended id =>
    simp only [refreshStep] at h
    split at h <;> exact .old h
  | timeout id =>
    simp only [refreshStep] at h
    split at h <;> exact .old h
  | persists id committed =>
    simp only [refreshStep] at h
    split at h
    · split at h <;> exact .old h
    · exact .old h
  | evaluate => cases hop
  | resume => cases hop
  | cancel => cases hop
  | clear => cases hop

theorem guardStep_refresh_eq (g : GuardRun W U) (now : Nat) {op : GuardOp W U} {id : Nat}
    (hop : op.refresh? = some id) :
    guardStep derive pauses g (now, op) =
      (g.state.refreshes.get? id).elim g fun r => { g with state := refreshStep derive g.state r now op } := by
  cases op with
  | evaluate => cases hop
  | resume => cases hop
  | cancel => cases hop
  | clear => cases hop
  | _ =>
    cases hop
    cases hget : g.state.refreshes.get? id <;> simp [guardStep, GuardOp.refresh?, hget]

theorem guardStep_refresh (g : GuardRun W U) (now : Nat) {op : GuardOp W U} {id : Nat}
    (hop : op.refresh? = some id) :
    guardStep derive pauses g (now, op) = g ∨ ∃ r, g.state.refreshes.get? id = some r ∧
      guardStep derive pauses g (now, op) = { g with state := refreshStep derive g.state r now op } := by
  rw [guardStep_refresh_eq derive pauses g now hop]
  cases hget : g.state.refreshes.get? id with
  | none => exact Or.inl rfl
  | some r => exact Or.inr ⟨r, rfl, rfl⟩

/-- **Step.** An entry of the cache was there, was persisted with a connection, or is of
the refresh that is in flight. -/
theorem guardStep_entries (g : GuardRun W U) (now : Nat) (op : GuardOp W U) {k : String}
    {e : CacheEntry W}
    (h : (k, e) ∈ (guardStep derive pauses g (now, op)).state.memoryCache.rows) :
    EntryOrigin derive g.state now op k e := by
  cases hop : op.refresh? with
  | some id =>
    obtain hsame | ⟨r, hget, hstep⟩ := guardStep_refresh derive pauses g now hop
    · rw [hsame] at h
      exact .old h
    · rw [hstep] at h
      obtain rfl : r.id = id := Table.get?_key hget
      exact refreshStep_entries derive hget hop h
  | none =>
    cases op with
    | evaluate id connection proxyOptions =>
      simp only [guardStep] at h
      split at h
      · exact .old h
      · have hevaluated := evaluateQuota_evaluated pauses g.state connection proxyOptions now
        dsimp only at h
        generalize evaluateQuota pauses g.state connection proxyOptions now = result at h hevaluated
        cases hevaluated with
        | refused reason => exact .old h
        | fresh o ho snapshot hread =>
          obtain hold | ⟨snapshot, hk, hbound, he, hnewer⟩ := readSnapshot_entries g.state h
          · exact .old hold
          · exact .persisted id connection o snapshot (by rw [ho]) hk hbound he (Or.inl hnewer)
        | stale o ho snapshot hstale =>
          rw [scheduleRefresh_memoryCache] at h
          obtain hold | ⟨snapshot, hk, hbound, he, hnone⟩ := staleSnapshot_entries g.state h
          · exact .old hold
          · exact .persisted id connection o snapshot (by rw [ho]) hk hbound he (Or.inr hnone)
        | waits o ho =>
          rw [scheduleRefresh_memoryCache] at h
          exact .old h
    | resume id => exact .old h
    | cancel id => exact .old h
    | clear connection => exact .old (clearQuotaCache_memoryCache g.state connection h)
    | _ => cases hop

theorem freshSnapshot_iff {now : Nat} {fetchedAt : Option Nat} :
    freshSnapshot now fetchedAt = true ↔ ∃ t, fetchedAt = some t ∧ now < t + cacheTtlMs := by
  rw [freshSnapshot, Option.any_eq_true]
  simp only [decide_eq_true_eq]

/-- As long as an identity keeps its entry, a persisted snapshot replaces it by a later one only. -/
theorem cached_forward (g : GuardRun W U) (now : Nat) (op : GuardOp W U) {k : String}
    {e e' : CacheEntry W}
    (he : cached g.state k = some e) (he' : cached (guardStep derive pauses g (now, op)).state k = some e')
    (hsame : e'.identity = e.identity) :
    (∀ t, e.fetchedAt = some t → ∃ t', e'.fetchedAt = some t' ∧ t ≤ t') ∨
      ∃ r usage snapshot, op = .fetched r (.usage usage) ∧ derive usage now = some snapshot ∧
        e'.fetchedAt = snapshot.fetchedAt := by
  obtain ⟨x, hx, rfl⟩ := Option.map_eq_some_iff.1 he'
  obtain ⟨y, hy, rfl⟩ := Option.map_eq_some_iff.1 he
  have hxk : x.1 = k := Table.get?_key hx
  have hmem : (k, x.2) ∈ (guardStep derive pauses g (now, op)).state.memoryCache.rows := by
    rw [← hxk]
    exact Table.get?_mem hx
  cases guardStep_entries derive pauses g now op hmem with
  | old hold =>
    have hkey := Table.get?_of_mem hold
    rw [show (k, x.2).1 = k from rfl, hy] at hkey
    left
    intro t ht
    cases hkey
    exact ⟨t, ht, le_rfl⟩
  | live r usage snapshot hop hget hk hcurrent hderive hentry =>
    exact Or.inr ⟨r.id, usage, snapshot, hop, hderive, by rw [hentry]⟩
  | persisted id connection o snapshot hop hk hbound hentry hnewer =>
    left
    intro t ht
    obtain ⟨hstale, hfresh⟩ | hnone := hnewer
    · rw [hentry] at hsame
      simp only [cachedFresh, he, ← hsame, true_and] at hstale
      split at hstale
      · cases hstale
      · rename_i hold
        obtain ⟨t', ht', hnow⟩ := freshSnapshot_iff.1 hfresh
        refine ⟨t', by rw [hentry, ht'], ?_⟩
        by_contra hlt
        refine hold ⟨?_, freshSnapshot_iff.2 ⟨t, ht, by omega⟩⟩
        rw [ht, ne_eq, Option.some.injEq]
        omega
    · rw [he] at hnone
      cases hnone

end Cache

end TokenProxy.QuotaGuard
