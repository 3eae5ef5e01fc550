import TokenProxy.QuotaGuard.Refreshes

/-!
# Quota evidence stays with its credentials

Every cached snapshot is bound to the identity of a call on its connection, and every answer is
evidence for the identity of its call (`GuardInv`). A refresh that is in flight no more never is
again.
-/

namespace TokenProxy.QuotaGuard

open Lib

variable {W U : Type}

variable {New : Refresh W U → Prop} {derive : U → Nat → Option (Snapshot W)}

/-! ### Answers -/

/-- An answer is evidence for the identity of its call, and a usage comes with the
snapshot that was derived of it. -/
structure Answers (derive : U → Nat → Option (Snapshot W)) (s : GuardState W U) (call : Call W U)
    (result : QuotaResult W U) :
    Prop where
  usage : ∀ usage, result.rawUsage = some usage →
    ∃ snapshot now, result.snapshot = some snapshot ∧ derive usage now = some snapshot
  identity : ∀ snapshot, result.snapshot = some snapshot → snapshot.evidenceIdentity = some call.identity ∨
    ∃ r ∈ s.refreshes.rows, ∃ f, r.phase = .settled f ∧ r.connection.id = call.connection.id ∧ r.identity = call.identity ∧
      f.snapshot = some snapshot ∧ f.rawUsage = result.rawUsage

def CallOk (derive : U → Nat → Option (Snapshot W)) (s : GuardState W U) (call : Call W U) : Prop :=
  match call.phase with
  | .waiting refresh => ∃ r ∈ s.refreshes.rows, r.id = refresh ∧ r.connection.id = call.connection.id ∧ r.identity = call.identity
  | .resolved fetched => fetched.snapshot = none
  | .done result => Answers derive s call result
  | .cancelled => True

theorem Evolves.kept_mem {s s' : GuardState W U} (h : Evolves New s s') {r : Refresh W U}
    (hr : r ∈ s.refreshes.rows) :
    ∃ r' ∈ s'.refreshes.rows, Kept r r' := by
  obtain ⟨r', hr', hkept⟩ := h.kept r.id r (Table.get?_of_mem hr)
  exact ⟨r', Table.get?_mem hr', hkept⟩

theorem CallOk.evolves {s s' : GuardState W U} (he : Evolves New s s') {call : Call W U}
    (h : CallOk derive s call) :
    CallOk derive s' call := by
  unfold CallOk at h ⊢
  split at h
  · obtain ⟨r, hr, hid, hk, hidentity⟩ := h
    obtain ⟨r', hr', hkept⟩ := he.kept_mem hr
    exact ⟨r', hr', by rw [hkept.id, hid], by rw [hkept.connection, hk], by rw [hkept.identity, hidentity]⟩
  · exact h
  · refine ⟨h.usage, fun snapshot hsnapshot => (h.identity snapshot hsnapshot).imp_right ?_⟩
    rintro ⟨r, hr, f, hphase, hk, hidentity, hf⟩
    obtain ⟨r', hr', hkept⟩ := he.kept_mem hr
    exact ⟨r', hr', f, hkept.settled f hphase, by rw [hkept.connection, hk], by rw [hkept.identity, hidentity], hf⟩
  · trivial

/-! ### Steps -/

section Steps

variable (pauses : Connection W → Option (Snapshot W) → Bool)

def Called (g : GuardRun W U) (k : String) (identity : EvidenceIdentity) : Prop :=
  ∃ call ∈ g.calls.rows, call.connection.id = k ∧ call.identity = identity

theorem Evolves.mono {New' : Refresh W U → Prop} {s s' : GuardState W U} (h : Evolves New s s')
    (hnew : ∀ r, New r → New' r) :
    Evolves New' s s' :=
  { h with back := fun r hr => (h.back r hr).imp_right fun hr => ⟨hnew r hr.1, hr.2⟩ }

theorem evaluated_state {s : GuardState W U} (hinv : RefreshesInv derive s)
    {connection : Connection W}
    {proxyOptions : Option String} {now : Nat} {result : GuardState W U × CallPhase W U}
    (h : Evaluated pauses s connection proxyOptions now result) :
    RefreshesInv derive result.1 ∧ result.1.persisted = s.persisted ∧
      Evolves (fun r => r.connection = connection ∧ r.identity = quotaEvidenceIdentity connection (proxyOptions.getD "")) s
        result.1 := by
  cases h with
  | refused reason => exact ⟨hinv, rfl, .refl s⟩
  | fresh o ho snapshot h =>
    rw [readSnapshot_eq]
    exact ⟨hinv.withCache _, rfl, .same rfl rfl fun _ _ h => h⟩
  | stale o ho snapshot h =>
    subst ho
    rw [staleSnapshot_eq]
    have hscheduled := scheduleRefresh_scheduled
      (hinv.withCache (staleSnapshot s connection (quotaEvidenceIdentity connection o)).1.memoryCache) connection
      (quotaEvidenceIdentity connection o) now
    refine ⟨hscheduled.inv, hscheduled.persisted, ?_⟩
    have hwarm : Evolves (fun r => r.connection = connection ∧ r.identity = quotaEvidenceIdentity connection o) s
        { s with memoryCache := (staleSnapshot s connection (quotaEvidenceIdentity connection o)).1.memoryCache } :=
      .same rfl rfl fun _ _ h => h
    exact hwarm.trans hscheduled.evolves fun r r' hr hkept => ⟨hkept.connection.trans hr.1,
      hkept.identity.trans hr.2⟩
  | waits o ho =>
    subst ho
    have hscheduled := scheduleRefresh_scheduled hinv connection (quotaEvidenceIdentity connection o) now
    exact ⟨hscheduled.inv, hscheduled.persisted, hscheduled.evolves⟩

/-- **Step**, as far as the refreshes go. -/
theorem guardStep_evolves {g : GuardRun W U} (hinv : RefreshesInv derive g.state) (now : Nat)
    (op : GuardOp W U) :
    RefreshesInv derive (guardStep derive pauses g (now, op)).state ∧
      Evolves (fun r => Called (guardStep derive pauses g (now, op)) r.connection.id r.identity) g.state
        (guardStep derive pauses g (now, op)).state := by
  cases hop : op.refresh? with
  | some id =>
    obtain hsame | ⟨r, hget, hstep⟩ := guardStep_refresh derive pauses g now hop
    · rw [hsame]
      exact ⟨hinv, .refl _⟩
    · rw [hstep]
      obtain rfl : r.id = id := Table.get?_key hget
      obtain hsame | ⟨r', hprogress⟩ := refreshStep_progress g.state (hinv.derived r (Table.get?_mem hget)) now op
      · dsimp only
        rw [hsame]
        exact ⟨hinv, .refl _⟩
      · exact ⟨hprogress.inv hget hinv, hprogress.evolves hget⟩
  | none =>
    cases op with
    | evaluate id connection proxyOptions =>
      simp only [guardStep]
      split
      · exact ⟨hinv, .refl _⟩
      · obtain ⟨hstate, -, hevolves⟩ :=
          evaluated_state pauses hinv (evaluateQuota_evaluated pauses g.state connection proxyOptions now)
        refine ⟨hstate, hevolves.mono fun r hr => ⟨_, Table.mem_put_self _ _, ?_, ?_⟩⟩
        · rw [hr.1]
        · rw [hr.2]
    | resume id => exact ⟨hinv, .refl _⟩
    | cancel id => exact ⟨hinv, .refl _⟩
    | clear connection =>
      obtain ⟨hstate, hevolves, -⟩ := clearQuotaCache_inv hinv connection
      exact ⟨hstate, hevolves.mono fun _ h => h.elim⟩
    | _ => cases hop

theorem mem_mapCall {calls : Table (Call.id : Call W U → Nat)} {id : Nat} {f : Call W U → Call W U}
    {call : Call W U}
    (h : call ∈ (mapCall calls id f).rows) : call ∈ calls.rows ∨ ∃ c ∈ calls.rows, call = f c := by
  unfold mapCall at h
  split at h
  · rename_i c hc
    obtain rfl | ⟨h, -⟩ := Table.mem_put.1 h
    · exact Or.inr ⟨c, Table.get?_mem hc, rfl⟩
    · exact Or.inl h
  · exact Or.inl h

def SameCall (c c' : Call W U) : Prop := c'.id = c.id ∧ c'.connection = c.connection ∧ c'.identity = c.identity

theorem cancelCall_same (call : Call W U) : SameCall call (cancelCall call) := by
  unfold cancelCall
  split <;> exact ⟨rfl, rfl, rfl⟩

theorem resumeCall_same (s : GuardState W U) (call : Call W U) :
    SameCall call (resumeCall pauses s call) := by
  unfold resumeCall
  split
  · split <;> exact ⟨rfl, rfl, rfl⟩
  · exact ⟨rfl, rfl, rfl⟩
  · exact ⟨rfl, rfl, rfl⟩

theorem mapCall_kept {calls : Table (Call.id : Call W U → Nat)} {id : Nat} {f : Call W U → Call W U}
    (hf : ∀ c, SameCall c (f c)) {call : Call W U} (h : call ∈ calls.rows) :
    ∃ c ∈ (mapCall calls id f).rows, SameCall call c := by
  unfold mapCall
  split
  · rename_i c hc
    by_cases hid : call.id = (f c).id
    · have heq : call = c := Table.eq_of_key h (Table.get?_mem hc) (hid.trans (hf c).1)
      subst heq
      exact ⟨_, Table.mem_put_self _ _, hf call⟩
    · exact ⟨call, Table.mem_put.2 (Or.inr ⟨h, hid⟩), rfl, rfl, rfl⟩
  · exact ⟨call, h, rfl, rfl, rfl⟩

theorem guardStep_calls (g : GuardRun W U) (now : Nat) (op : GuardOp W U) {call : Call W U}
    (h : call ∈ g.calls.rows) :
    ∃ c ∈ (guardStep derive pauses g (now, op)).calls.rows, SameCall call c := by
  cases hop : op.refresh? with
  | some id =>
    obtain hsame | ⟨r, -, hstep⟩ := guardStep_refresh derive pauses g now hop
    · rw [hsame]
      exact ⟨call, h, rfl, rfl, rfl⟩
    · rw [hstep]
      exact ⟨call, h, rfl, rfl, rfl⟩
  | none =>
    cases op with
    | evaluate id connection proxyOptions =>
      simp only [guardStep]
      split
      · exact ⟨call, h, rfl, rfl, rfl⟩
      · rename_i hnone
        refine ⟨call, Table.mem_put.2 (Or.inr ⟨h, fun hid => hnone ?_⟩), rfl, rfl, rfl⟩
        have hcall := Table.get?_of_mem h
        rw [show call.id = id from hid] at hcall
        rw [hcall]
        rfl
    | resume id => exact mapCall_kept (resumeCall_same pauses g.state) h
    | cancel id => exact mapCall_kept cancelCall_same h
    | clear connection => exact ⟨call, h, rfl, rfl, rfl⟩
    | _ => cases hop

theorem Called.step {g : GuardRun W U} {k : String} {identity : EvidenceIdentity}
    (h : Called g k identity) (now : Nat)
    (op : GuardOp W U) : Called (guardStep derive pauses g (now, op)) k identity := by
  obtain ⟨call, hcall, hk, hidentity⟩ := h
  obtain ⟨c, hc, -, hconnection, hsame⟩ := @guardStep_calls W U derive pauses g now op call hcall
  exact ⟨c, hc, by rw [hconnection, hk], by rw [hsame, hidentity]⟩

/-! ### The invariant -/

/-- A cached snapshot is bound to the identity it is cached for. -/
def Bound (x : String × CacheEntry W) : Prop := x.2.snapshot.evidenceIdentity = some x.2.identity

structure GuardInv (derive : U → Nat → Option (Snapshot W)) (g : GuardRun W U) : Prop where
  refreshes : RefreshesInv derive g.state
  caller : ∀ r ∈ g.state.refreshes.rows, Called g r.connection.id r.identity
  cache : ∀ x ∈ g.state.memoryCache.rows, Bound x ∧ Called g x.1 x.2.identity
  calls : ∀ call ∈ g.calls.rows, CallOk derive g.state call

theorem boundSnapshot_identity {connection : Connection W} {identity : EvidenceIdentity}
    {snapshot : Snapshot W}
    (h : boundSnapshot connection identity = some snapshot) :
    snapshot.evidenceIdentity = some identity := by
  simpa using (Option.filter_eq_some_iff.1 h).2

theorem cached_bound {s : GuardState W U} (hcache : ∀ x ∈ s.memoryCache.rows, Bound x) {k : String}
    {e : CacheEntry W}
    (h : cached s k = some e) : e.snapshot.evidenceIdentity = some e.identity := by
  obtain ⟨x, hx, rfl⟩ := Option.map_eq_some_iff.1 h
  exact hcache x (Table.get?_mem hx)

theorem readSnapshot_identity {s : GuardState W U} (hcache : ∀ x ∈ s.memoryCache.rows, Bound x)
    {connection : Connection W} {identity : EvidenceIdentity} {now : Nat} {snapshot : Snapshot W}
    (h : (readSnapshot s connection identity now).2 = some snapshot) :
    snapshot.evidenceIdentity = some identity := by
  unfold readSnapshot at h
  split at h
  · rename_i found hfound
    cases h
    unfold cachedFresh at hfound
    split at hfound
    · rename_i entry hentry
      split at hfound
      · rename_i hfresh
        cases hfound
        rw [← hfresh.1]
        exact cached_bound hcache hentry
      · cases hfound
    · cases hfound
  · split at h
    · rename_i found hbound
      split at h
      · cases h
        exact boundSnapshot_identity hbound
      · cases h
    · cases h

theorem staleSnapshot_identity {s : GuardState W U} (hcache : ∀ x ∈ s.memoryCache.rows, Bound x)
    {connection : Connection W}
    {identity : EvidenceIdentity} {snapshot : Snapshot W} (h : (staleSnapshot s connection identity).2 = some snapshot) :
    snapshot.evidenceIdentity = some identity := by
  unfold staleSnapshot at h
  split at h
  · rename_i entry hentry
    split at h
    · rename_i hsame
      cases h
      rw [← hsame]
      exact cached_bound hcache hentry
    · cases h
  · split at h
    · rename_i found hbound
      cases h
      exact boundSnapshot_identity hbound
    · cases h

theorem answers_at_hand {s : GuardState W U} {call : Call W U} {snapshot : Snapshot W}
    (h : snapshot.evidenceIdentity = some call.identity) (connection : Connection W) :
    Answers derive s call (quotaResult pauses connection (some snapshot) none none) where
  usage usage husage := by cases husage
  identity found hfound := by
    cases hfound
    exact Or.inl h

theorem answers_none {s : GuardState W U} {call : Call W U}
    (reason : String) : Answers derive s call (noSnapshot reason) where
  usage usage husage := by cases husage
  identity snapshot hsnapshot := by cases hsnapshot

theorem answers_fetched {s : GuardState W U} {call : Call W U} {f : Fetched W U}
    (hf : FetchedOk derive f)
    (hsource : ∀ snapshot, f.snapshot = some snapshot → ∃ r ∈ s.refreshes.rows, r.phase = .settled f ∧
      r.connection.id = call.connection.id ∧ r.identity = call.identity) :
    Answers derive s call (fetchedResult pauses call.connection f) := by
  unfold fetchedResult
  split
  · exact answers_none _
  · refine ⟨fun usage husage => ?_, fun snapshot hsnapshot => Or.inr ?_⟩
    · simp only [quotaResult] at husage ⊢
      split at husage
      · rename_i hsome
        obtain ⟨snapshot, hsnapshot⟩ := Option.isSome_iff_exists.1 hsome
        obtain ⟨u, now, hu, hderive⟩ := hf snapshot hsnapshot
        rw [hu] at husage
        cases husage
        exact ⟨snapshot, now, hsnapshot, hderive⟩
      · cases husage
    · have hsome : f.snapshot = some snapshot := hsnapshot
      obtain ⟨r, hr, hphase, hk, hidentity⟩ := hsource snapshot hsome
      refine ⟨r, hr, f, hphase, hk, hidentity, hsome, ?_⟩
      simp [quotaResult, hsome]

theorem resumeCall_ok {s : GuardState W U} (hinv : RefreshesInv derive s) {call : Call W U}
    (h : CallOk derive s call) :
    CallOk derive s (resumeCall pauses s call) := by
  unfold resumeCall
  split
  · rename_i rid hphase
    split
    · rename_i f hf
      obtain ⟨r, hr, hrphase⟩ := Option.map_eq_some_iff.1 hf
      simp only [CallOk, hphase] at h
      obtain ⟨x, hx, hid, hk, hidentity⟩ := h
      have hsame : some x = some r := by rw [← hr, ← hid, Table.get?_of_mem hx]
      cases hsame
      exact answers_fetched pauses (hinv.derived r hx f (by rw [hrphase]; rfl)) fun _ _ => ⟨r, hx, hrphase, hk, hidentity⟩
    · exact h
  · rename_i f hphase
    simp only [CallOk, hphase] at h
    exact answers_fetched pauses (FetchedOk.none h) fun snapshot hsnapshot => by rw [h] at hsnapshot; cases hsnapshot
  · exact h

theorem cancelCall_ok {s : GuardState W U} {call : Call W U}
    (h : CallOk derive s call) : CallOk derive s (cancelCall call) := by
  unfold cancelCall
  split
  · trivial
  · trivial
  · exact h

theorem evaluated_ok {s : GuardState W U} (hinv : RefreshesInv derive s)
    (hcache : ∀ x ∈ s.memoryCache.rows, Bound x) (id : Nat)
    {connection : Connection W} {proxyOptions : Option String} {now : Nat} {result : GuardState W U × CallPhase W U}
    (h : Evaluated pauses s connection proxyOptions now result) :
    CallOk derive result.1
      { id := id
        connection := connection
        identity := quotaEvidenceIdentity connection (proxyOptions.getD "")
        phase := result.2 } := by
  cases h with
  | refused reason => exact answers_none reason
  | fresh o ho snapshot h =>
    subst ho
    exact answers_at_hand pauses (readSnapshot_identity hcache h) connection
  | stale o ho snapshot h =>
    subst ho
    exact answers_at_hand pauses (staleSnapshot_identity hcache h) connection
  | waits o ho =>
    subst ho
    obtain ⟨f, hphase, hf⟩ | ⟨r, hr, hphase, hk, hidentity⟩ :=
      (scheduleRefresh_scheduled hinv connection (quotaEvidenceIdentity connection o) now).phase
    · simp only [CallOk, hphase]
      exact hf
    · simp only [CallOk, hphase]
      exact ⟨r, hr, rfl, hk, hidentity⟩

theorem GuardInv.step {g : GuardRun W U} (h : GuardInv derive g) (now : Nat) (op : GuardOp W U) :
    GuardInv derive (guardStep derive pauses g (now, op)) := by
  obtain ⟨hrefreshes, hevolves⟩ := guardStep_evolves pauses h.refreshes now op
  refine ⟨hrefreshes, ?_, ?_, ?_⟩
  · intro r' hr'
    obtain ⟨r, hr, hkept⟩ | ⟨hcalled, -⟩ := hevolves.back r' hr'
    · rw [hkept.connection, hkept.identity]
      exact (h.caller r hr).step pauses now op
    · exact hcalled
  · rintro ⟨k, e⟩ hx
    cases guardStep_entries derive pauses g now op hx with
    | old hold => exact ⟨(h.cache _ hold).1, (h.cache _ hold).2.step pauses now op⟩
    | live r usage snapshot hop hget hk hcurrent hderive he =>
      subst he hk
      exact ⟨rfl, (h.caller r (Table.get?_mem hget)).step pauses now op⟩
    | persisted id connection o snapshot hop hk hbound he hnewer =>
      subst hop hk
      simp only [guardStep] at hx ⊢
      split at hx
      · rename_i hsome
        rw [if_pos hsome]
        exact h.cache _ hx
      · rename_i hnone
        rw [if_neg hnone, he]
        exact ⟨boundSnapshot_identity hbound, _, Table.mem_put_self _ _, rfl, rfl⟩
  · have hkeep : ∀ call ∈ g.calls.rows, CallOk derive (guardStep derive pauses g (now, op)).state call :=
      fun call hcall => (h.calls call hcall).evolves hevolves
    intro call hcall
    cases hop : op.refresh? with
    | some id =>
      refine hkeep call ?_
      obtain hsame | ⟨r, -, hstep⟩ := guardStep_refresh derive pauses g now hop
      · rwa [hsame] at hcall
      · rwa [hstep] at hcall
    | none =>
      cases op with
      | evaluate id connection proxyOptions =>
        simp only [guardStep] at hcall hkeep ⊢
        split at hcall
        · rename_i hsome
          rw [if_pos hsome]
          exact h.calls call hcall
        · rename_i hnone
          rw [if_neg hnone] at hkeep ⊢
          obtain rfl | ⟨hold, -⟩ := Table.mem_put.1 hcall
          · exact evaluated_ok pauses h.refreshes (fun x hx => (h.cache x hx).1) id
              (evaluateQuota_evaluated pauses g.state connection proxyOptions now)
          · exact hkeep call hold
      | resume id =>
        obtain hold | ⟨c, hc, rfl⟩ := mem_mapCall hcall
        · exact hkeep call hold
        · exact resumeCall_ok pauses h.refreshes (h.calls c hc)
      | cancel id =>
        obtain hold | ⟨c, hc, rfl⟩ := mem_mapCall hcall
        · exact hkeep call hold
        · exact cancelCall_ok (h.calls c hc)
      | clear connection => exact hkeep call hcall
      | _ => cases hop

/-! ### Runs -/

theorem guardInv_initial : GuardInv derive ({} : GuardRun W U) where
  refreshes :=
    { ids := fun r hr => by cases hr
      derived := fun r hr => by cases hr
      flying := fun k id h => by cases h
      revoked := fun r hr => by cases hr }
  caller r hr := by cases hr
  cache x hx := by cases hx
  calls call hcall := by cases hcall

theorem run_guardInv {g : GuardRun W U} (h : GuardInv derive g) (ops : List (Nat × GuardOp W U)) :
    GuardInv derive (run (guardStep derive pauses) g ops) :=
  run_inv (I := GuardInv derive) (fun _ op h => h.step pauses op.1 op.2) h

def Superseded (id : Nat) (g : GuardRun W U) : Prop :=
  (∀ k, inFlight g.state k ≠ some id) ∧ ∃ r, g.state.refreshes.get? id = some r ∧ r.aborted ≠ none

theorem Superseded.step {g : GuardRun W U} {id : Nat} (hinv : GuardInv derive g)
    (h : Superseded id g) (now : Nat)
    (op : GuardOp W U) : Superseded id (guardStep derive pauses g (now, op)) := by
  obtain ⟨hflight, r, hget, haborted⟩ := h
  obtain ⟨-, hevolves⟩ := guardStep_evolves pauses hinv.refreshes now op
  obtain ⟨r', hget', hkept⟩ := hevolves.kept id r hget
  refine ⟨fun k hk => ?_, r', hget', hkept.aborted haborted⟩
  obtain hold | ⟨hnew, -⟩ := hevolves.flight k id hk
  · exact hflight k hold
  · have hlt := hinv.refreshes.ids r (Table.get?_mem hget)
    rw [Table.get?_key hget] at hlt
    omega

theorem Superseded.silent {g : GuardRun W U} {id : Nat} (hinv : GuardInv derive g)
    (h : Superseded id g) (now : Nat) {op : GuardOp W U} (hop : op.refresh? = some id) :
    (guardStep derive pauses g (now, op)).state.memoryCache = g.state.memoryCache ∧
      (guardStep derive pauses g (now, op)).state.negativeCache = g.state.negativeCache ∧
      (guardStep derive pauses g (now, op)).state.persisted = g.state.persisted := by
  obtain ⟨hflight, r, hget, haborted⟩ := h
  obtain hsame | ⟨r', hget', hstep⟩ := guardStep_refresh derive pauses g now hop
  · rw [hsame]
    exact ⟨rfl, rfl, rfl⟩
  · cases hget.symm.trans hget'
    rw [hstep]
    dsimp only
    obtain hsame | ⟨r', hprogress⟩ := refreshStep_progress g.state (hinv.refreshes.derived r (Table.get?_mem hget)) now op
    · rw [hsame]
      exact ⟨rfl, rfl, rfl⟩
    · have hid : r.id = id := Table.get?_key hget
      obtain ⟨hmemory, hnegative⟩ := hprogress.caches (hid ▸ hflight r.connection.id)
      exact ⟨hmemory, hnegative, hprogress.persisted.resolve_right haborted⟩

structure SameBut (id : Nat) (g g' : GuardRun W U) : Prop where
  state : g'.state = g.state
  others : ∀ k, k ≠ id → g'.calls.get? k = g.calls.get? k
  there : (g'.calls.get? id).isSome = (g.calls.get? id).isSome

theorem get?_mapCall {calls : Table (Call.id : Call W U → Nat)} {id : Nat} {f : Call W U → Call W U}
    (hf : ∀ c, SameCall c (f c)) (k : Nat) :
    (mapCall calls id f).get? k = if k = id then (calls.get? k).map f else calls.get? k := by
  unfold mapCall
  split
  · rename_i c hget
    rw [Table.get?_put, (hf c).1.trans (Table.get?_key hget)]
    split
    · rename_i hk
      rw [hk, hget]
      rfl
    · rfl
  · rename_i hget
    split
    · rename_i hk
      rw [hk, hget]
      rfl
    · rfl

theorem SameBut.map {id : Nat} {g g' : GuardRun W U} (h : SameBut id g g') (k : Nat)
    {f f' : Call W U → Call W U}
    (hf : ∀ c, SameCall c (f c)) (hf' : ∀ c, SameCall c (f' c)) (hsame : k ≠ id → f' = f) :
    SameBut id { g with calls := mapCall g.calls k f } { g' with calls := mapCall g'.calls k f' } where
  state := h.state
  others x hx := by
    dsimp only
    rw [get?_mapCall hf, get?_mapCall hf', h.others x hx]
    by_cases hk : x = k
    · rw [hsame (hk ▸ hx)]
    · rw [if_neg hk, if_neg hk]
  there := by
    dsimp only
    rw [get?_mapCall hf, get?_mapCall hf']
    split
    · rw [Option.isSome_map, Option.isSome_map, h.there]
    · exact h.there

theorem SameBut.step {id : Nat} {g g' : GuardRun W U} (h : SameBut id g g')
    (op : Nat × GuardOp W U) :
    SameBut id (guardStep derive pauses g op) (guardStep derive pauses g' op) := by
  obtain ⟨now, op⟩ := op
  cases hop : op.refresh? with
  | some rid =>
    rw [guardStep_refresh_eq derive pauses g now hop, guardStep_refresh_eq derive pauses g' now hop, h.state]
    cases g.state.refreshes.get? rid with
    | none => exact h
    | some r => exact ⟨rfl, h.others, h.there⟩
  | none =>
    cases op with
    | evaluate cid connection proxyOptions =>
      have hthere : (g'.calls.get? cid).isSome = (g.calls.get? cid).isSome := by
        by_cases hid : cid = id
        · rw [hid, h.there]
        · rw [h.others cid hid]
      simp only [guardStep, hthere, h.state]
      split
      · exact h
      · refine ⟨rfl, fun k hk => ?_, ?_⟩
        · simp only [Table.get?_put, h.others k hk]
        · simp only [Table.get?_put]
          split
          · rfl
          · exact h.there
    | resume cid =>
      have hresume : resumeCall pauses g'.state = resumeCall pauses g.state := by rw [h.state]
      exact h.map cid (resumeCall_same pauses g.state) (resumeCall_same pauses g'.state) fun _ => hresume
    | cancel cid => exact h.map cid cancelCall_same cancelCall_same fun _ => rfl
    | clear connection =>
      simp only [guardStep, h.state]
      exact ⟨rfl, h.others, h.there⟩
    | _ => cases hop

theorem cancel_sameBut (g : GuardRun W U) (now id : Nat) : SameBut id g (guardStep derive pauses g (now, .cancel id)) where
  state := rfl
  others k hk := by
    show (mapCall g.calls id cancelCall).get? k = _
    rw [get?_mapCall cancelCall_same, if_neg hk]
  there := by
    show ((mapCall g.calls id cancelCall).get? id).isSome = _
    rw [get?_mapCall cancelCall_same, if_pos rfl, Option.isSome_map]

theorem run_sameBut {id : Nat} {g g' : GuardRun W U} (h : SameBut id g g')
    (ops : List (Nat × GuardOp W U)) :
    SameBut id (run (guardStep derive pauses) g ops) (run (guardStep derive pauses) g' ops) := by
  induction ops generalizing g g' with
  | nil => exact h
  | cons op ops ih => exact ih (h.step pauses op)

/-- **Quota evidence stays with its credentials.** After any run: an answer is evidence for the
identity of its call, and a usage comes with the snapshot derived of it; a cached snapshot is bound
to the identity of a call on its connection; a refresh that was taken out of flight before it
settled writes no cache and persists nothing ever after; one refresh at most is in flight for a
connection; a cancellation changes no other call; and while an identity keeps its cache entry, a
persisted snapshot replaces it by a later one only. -/
theorem quotaEvidence_bound (ops : List (Nat × GuardOp W U)) :
    let step := guardStep derive pauses
    let g := run step {} ops
    (∀ call ∈ g.calls.rows, ∀ result, call.phase = .done result → Answers derive g.state call result) ∧
      (∀ x ∈ g.state.memoryCache.rows, x.2.snapshot.evidenceIdentity = some x.2.identity ∧ Called g x.1 x.2.identity) ∧
      (∀ r ∈ g.state.refreshes.rows, Unsettled r → inFlight g.state r.connection.id ≠ some r.id →
        ∀ later now op, op.refresh? = some r.id →
          let g' := run step g later
          (step g' (now, op)).state.memoryCache = g'.state.memoryCache ∧
            (step g' (now, op)).state.negativeCache = g'.state.negativeCache ∧
            (step g' (now, op)).state.persisted = g'.state.persisted) ∧
      (∀ r ∈ g.state.refreshes.rows, ∀ r' ∈ g.state.refreshes.rows, r.connection.id = r'.connection.id →
        inFlight g.state r.connection.id = some r.id → inFlight g.state r'.connection.id = some r'.id → r = r') ∧
      (∀ now id later, ∀ call ∈ (run step g later).calls.rows, call.id ≠ id →
        call ∈ (run step (step g (now, .cancel id)) later).calls.rows) ∧
      ∀ now op k e e', cached g.state k = some e → cached (step g (now, op)).state k = some e' → e'.identity = e.identity →
        (∀ t, e.fetchedAt = some t → ∃ t', e'.fetchedAt = some t' ∧ t ≤ t') ∨
          ∃ r usage snapshot, op = .fetched r (.usage usage) ∧ derive usage now = some snapshot ∧
            e'.fetchedAt = snapshot.fetchedAt := by
  intro step g
  have hinv : GuardInv derive g := run_guardInv pauses guardInv_initial ops
  refine ⟨fun call hcall result hphase => ?_, hinv.cache, ?_, ?_, ?_, ?_⟩
  · have hok := hinv.calls call hcall
    simp only [CallOk, hphase] at hok
    exact hok
  · intro r hr hopen hflight later now op hop g'
    have hsuperseded : Superseded r.id g := by
      refine ⟨fun k hk => ?_, r, Table.get?_of_mem hr, (hinv.refreshes.revoked r hr hopen).resolve_left hflight⟩
      obtain ⟨x, hx, hxk⟩ := hinv.refreshes.flying k r.id hk
      rw [Table.get?_of_mem hr] at hx
      cases hx
      exact hflight (by rw [hxk, hk])
    have hlater : GuardInv derive g' ∧ Superseded r.id g' :=
      run_inv (I := fun g => GuardInv derive g ∧ Superseded r.id g)
        (fun _ op h => ⟨h.1.step pauses op.1 op.2, h.2.step pauses h.1 op.1 op.2⟩) ⟨hinv, hsuperseded⟩
    exact hlater.2.silent pauses hlater.1 now hop
  · intro r hr r' hr' hk hflight hflight'
    rw [hk, hflight'] at hflight
    exact Table.eq_of_key hr hr' (Option.some.inj hflight).symm
  · intro now id later call hcall hid
    have hsame := @run_sameBut W U derive pauses id _ _ (@cancel_sameBut W U derive pauses g now id) later
    exact Table.get?_mem ((hsame.others call.id hid).trans (Table.get?_of_mem hcall))
  · intro now op k e e' he he' hsame
    exact cached_forward derive pauses g now op he he' hsame

end Steps

/-! ### What the cache forgets -/

def CallPhase.answer? : CallPhase W U → Option (QuotaResult W U)
  | .done result => some result
  | _ => none

/-- A copy of one account, with the reading of time `t` that its credentials `c` persisted. -/
def accountWith (c : String) (t : Nat) : Connection Unit where
  id := "a"
  credentials := c
  lastQuotaSnapshot :=
    some { windows := (), fetchedAt := some t, evidenceIdentity := some { id := "a", credentials := c, proxyOptions := "" } }

/-- An entry of other credentials in between lets an older copy of the account back in, and a live
reading is returned unbound. -/
theorem older_copy_returns :
    let step := guardStep (U := Unit) (fun _ now => some { windows := (), fetchedAt := some now }) fun _ _ => false
    let first := run step {} [(250, .evaluate 1 (accountWith "k1" 200) (some ""))]
    let later := run step first
      [(250, .evaluate 2 (accountWith "k2" 150) (some "")), (250, .evaluate 3 (accountWith "k1" 100) (some ""))]
    let live := run step {}
      [(1, .evaluate 1 { id := "a", credentials := "k1" } (some "")), (2, .fetched 0 (.usage ())), (3, .retained 0 none),
        (4, .ended 0), (5, .resume 1)]
    (cached first.state "a").map (fun e => (e.identity.credentials, e.fetchedAt)) = some ("k1", some 200) ∧
      (cached later.state "a").map (fun e => (e.identity.credentials, e.fetchedAt)) = some ("k1", some 100) ∧
      (((live.calls.get? 1).bind fun call => call.phase.answer?).bind QuotaResult.snapshot).map Snapshot.evidenceIdentity =
        some none := by
  decide +kernel

end TokenProxy.QuotaGuard
