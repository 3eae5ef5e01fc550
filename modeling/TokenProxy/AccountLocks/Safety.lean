import TokenProxy.AccountLocks.Bookkeeping

/-!
# When the bookkeeping is safe

Locks and metadata stay together in every interleaving. A clear removes or resets too much exactly
if it is outdated when it is written.
-/

namespace TokenProxy.AccountLocks

open Lib (run Meets run_inv meets_congr_of_inv)

variable {c : Connection} {model : Option String} {now : Nat} {k : String}

def Request.Ok (s : State) (r : Request) : Prop := KeysPaired r.snapshot ∧ r.selectedAt ≤ s.writes ∧ r.Seen s.row

def Call.Ok (s : State) : Call → Prop
  | .writing patch none => patch.clearLocks = [] ∧ patch.clearFailures = []
  | .writing patch (some (r, at')) => r.Ok s ∧ at' ≤ s.clock ∧ clearPatch r.snapshot r.model at' = some patch
  | _ => True

structure Inv (s : State) : Prop where
  paired : Paired s.row
  keys : KeysPaired s.row
  stamped : ∀ k, ∀ l ∈ s.row.lock k, l.written < s.writes
  requests : ∀ r ∈ s.requests, r.Ok s
  calls : ∀ c ∈ s.calls, c.Ok s

theorem mem_failureKeysToClear (hkeys : KeysPaired c) :
    k ∈ failureKeysToClear c model now ↔ k ∈ keysToClear c model now := by
  rw [failureKeysToClear, List.mem_append]
  refine ⟨fun h => h.elim id fun h => ?_, Or.inl⟩
  simp only [List.mem_filter, List.mem_cons, List.not_mem_nil, or_false, Bool.and_eq_true] at h
  obtain ⟨hk, hnamed, hfailure⟩ := h
  exact mem_keysToClear.2 ⟨hkeys k hfailure, Or.inl ⟨hnamed, hk⟩⟩

/-! ### One write -/

theorem lock_merge_clear {row : Connection} {patch : Patch} (hset : patch.set = none)
    (written : Nat) (k : String) :
    (merge row patch written).lock k = if k ∈ patch.clearLocks then none else row.lock k := by
  unfold Connection.lock
  rw [merge_locks, hset]
  simp only
  split <;> rfl

theorem failure_merge_clear {row : Connection} {patch : Patch} (hset : patch.set = none)
    (written : Nat) (k : String) :
    (merge row patch written).failure k = if k ∈ patch.clearFailures then none else row.failure k := by
  unfold Connection.failure
  rw [merge_failures, hset]
  simp only
  split <;> rfl

theorem lock_merge {row : Connection} {patch : Patch} {written : Nat} {l : Lock}
    (h : l ∈ (merge row patch written).lock k) :
    l ∈ row.lock k ∨ l.written = written := by
  unfold Connection.lock at h
  rw [merge_locks] at h
  cases hset : patch.set with
  | none =>
    rw [hset] at h
    simp only at h
    split at h
    · cases h
    · exact Or.inl h
  | some pair =>
    rw [hset] at h
    simp only at h
    split at h
    · cases h
      exact Or.inr rfl
    split at h
    · cases h
    · exact Or.inl h

theorem Request.Seen.merge {row : Connection} {r : Request} {patch : Patch} {written : Nat}
    (h : r.Seen row) (hselected : r.selectedAt ≤ written) : r.Seen (merge row patch written) := by
  intro k l hl hold
  rcases lock_merge hl with hrow | hnew
  · exact h k l hrow hold
  · omega

theorem paired_mark {row : Connection} {patch : Patch} (hlocks : patch.clearLocks = [])
    (hfailures : patch.clearFailures = [])
    (written : Nat) (hpaired : Paired row) (hkeys : KeysPaired row) :
    Paired (merge row patch written) ∧ KeysPaired (merge row patch written) := by
  constructor
  · intro k l hl
    unfold Connection.lock at hl
    unfold Connection.failure
    rw [merge_locks, hlocks] at hl
    rw [merge_failures, hfailures]
    cases hset : patch.set with
    | none =>
      rw [hset] at hl
      simp only [List.not_mem_nil, if_false] at hl ⊢
      exact hpaired k l hl
    | some pair =>
      rw [hset] at hl
      simp only [List.not_mem_nil, if_false] at hl ⊢
      by_cases hk : k = pair.1
      · rw [if_pos hk] at hl ⊢
        cases hl
        exact ⟨pair.2, rfl, rfl⟩
      · rw [if_neg hk] at hl ⊢
        exact hpaired k l hl
  · intro k hk
    unfold Connection.hasFailureKey at hk
    unfold Connection.hasLockKey
    rw [merge_failures, hfailures] at hk
    rw [merge_locks, hlocks]
    cases hset : patch.set with
    | none =>
      rw [hset] at hk
      simp only [List.not_mem_nil, if_false] at hk ⊢
      exact hkeys k hk
    | some pair =>
      rw [hset] at hk
      simp only [List.not_mem_nil, if_false] at hk ⊢
      by_cases hkk : k = pair.1
      · rw [if_pos hkk]
        rfl
      · rw [if_neg hkk] at hk ⊢
        exact hkeys k hk

theorem paired_clear {row : Connection} {r : Request} {at' : Nat} {patch : Patch}
    (hsnapshot : KeysPaired r.snapshot)
    (hpatch : clearPatch r.snapshot r.model at' = some patch) (written : Nat) (hpaired : Paired row) (hkeys : KeysPaired row) :
    Paired (merge row patch written) ∧ KeysPaired (merge row patch written) := by
  obtain ⟨hset, hlocks, hfailures, -⟩ := clearPatch_some hpatch
  have hsame : ∀ k, k ∈ patch.clearFailures ↔ k ∈ patch.clearLocks := by
    intro k
    rw [hlocks, hfailures]
    exact mem_failureKeysToClear hsnapshot
  constructor
  · intro k l hl
    rw [lock_merge_clear hset] at hl
    rw [failure_merge_clear hset]
    by_cases hk : k ∈ patch.clearLocks
    · rw [if_pos hk] at hl
      cases hl
    · rw [if_neg hk] at hl
      rw [if_neg (mt (hsame k).1 hk)]
      exact hpaired k l hl
  · intro k hk
    unfold Connection.hasFailureKey at hk
    unfold Connection.hasLockKey
    rw [merge_failures, hset] at hk
    rw [merge_locks, hset]
    simp only at hk ⊢
    by_cases hkk : k ∈ patch.clearLocks
    · rw [if_pos hkk]
      rfl
    · rw [if_neg (mt (hsame k).1 hkk)] at hk
      rw [if_neg hkk]
      exact hkeys k hk

theorem clearsSafely_iff {row : Connection} {r : Request} {at' now written : Nat} {patch : Patch}
    (hseen : r.Seen row) (hnow : at' ≤ now)
    (hpatch : clearPatch r.snapshot r.model at' = some patch) :
    ClearsSafely r patch row (merge row patch written) now ↔
      ∀ k, ∀ l ∈ row.lock k, r.selectedAt ≤ l.written → r.Spares at' k ∧ (l.active now = true → r.KnowsLock at') := by
  obtain ⟨hset, hlocks, -, hreset⟩ := clearPatch_some hpatch
  have hafter : ∀ k, (merge row patch written).lock k = if k ∈ keysToClear r.snapshot r.model at' then none else row.lock k := by
    intro k
    rw [lock_merge_clear hset, hlocks]
  have hearlier : ∀ l : Lock, l.active now = true → l.active at' = true := by
    intro l hl
    simp only [Lock.active, decide_eq_true_eq] at hl ⊢
    omega
  constructor
  · intro h k l hl hlater
    have hkept := h.later k l hl hlater
    refine ⟨?_, fun hactive => ?_⟩
    · rw [spares_iff]
      intro hk
      rw [hafter, if_pos hk] at hkept
      cases hkept
    · rw [knowsLock_iff]
      intro hnil
      have hinactive := h.reset (hreset.2 hnil) k l hkept
      rw [hactive] at hinactive
      cases hinactive
  · intro h
    have hkept : ∀ k, ∀ l ∈ row.lock k, k ∉ keysToClear r.snapshot r.model at' → (merge row patch written).lock k = some l := by
      intro k l hl hk
      rw [hafter, if_neg hk]
      exact hl
    constructor
    · intro k l hl hactive hown hall
      refine hkept k l hl fun hk => ?_
      by_cases hlater : r.selectedAt ≤ l.written
      · exact spares_iff.1 (h k l hl hlater).1 hk
      · have hold := hseen k l hl (by omega)
        obtain ⟨-, ⟨-, hsame⟩ | hexpired⟩ := mem_keysToClear.1 hk
        · exact hsame.elim hown hall
        · rw [expired_of_lock hold, hearlier l hactive] at hexpired
          cases hexpired
    · intro k l hl hlater
      exact hkept k l hl (spares_iff.1 (h k l hl hlater).1)
    · intro hstatus k l hl
      rw [hafter] at hl
      split at hl
      · cases hl
      rename_i hk
      by_contra hactive
      rw [Bool.not_eq_false] at hactive
      have hnil := hreset.1 hstatus
      by_cases hlater : r.selectedAt ≤ l.written
      · exact knowsLock_iff.1 ((h k l hl hlater).2 hactive) hnil
      · have hold := hseen k l hl (by omega)
        have hmem : k ∈ remainingActiveLocks r.snapshot r.model at' := by
          simp only [remainingActiveLocks, List.mem_filter, mem_allLockKeys,
            hasLockKey_of_lock hold, Bool.and_eq_true, decide_eq_true_eq, true_and]
          rw [hold]
          exact ⟨hk, hearlier l hactive⟩
        rw [hnil] at hmem
        cases hmem

/-! ### Runs -/

section

variable {s s' : State}

theorem Request.Ok.mono {r : Request} (h : r.Ok s) (hrow : s'.row = s.row)
    (hwrites : s'.writes = s.writes) : r.Ok s' := by
  unfold Request.Ok at h ⊢
  rwa [hrow, hwrites]

theorem Call.Ok.mono {call : Call} (h : call.Ok s) (hclock : s.clock ≤ s'.clock)
    (hrow : s'.row = s.row) (hwrites : s'.writes = s.writes) : call.Ok s' := by
  cases call with
  | marking model failure backoffLevel => trivial
  | writing patch clears =>
    cases clears with
    | none => exact h
    | some clears => exact ⟨h.1.mono hrow hwrites, h.2.1.trans hclock, h.2.2⟩
  | done => trivial

theorem Inv.keep (h : Inv s) (hclock : s.clock ≤ s'.clock) (hrow : s'.row = s.row)
    (hwrites : s'.writes = s.writes)
    (hrequests : ∀ r ∈ s'.requests, r ∈ s.requests ∨ r.Ok s') (hcalls : ∀ c ∈ s'.calls, c ∈ s.calls ∨ c.Ok s') : Inv s' where
  paired := hrow ▸ h.paired
  keys := hrow ▸ h.keys
  stamped := by
    rw [hrow, hwrites]
    exact h.stamped
  requests r hr := (hrequests r hr).elim (fun hold => (h.requests r hold).mono hrow hwrites) id
  calls c hc := (hcalls c hc).elim (fun hold => (h.calls c hold).mono hclock hrow hwrites) id

theorem Inv.write (h : Inv s) {j : Nat} {patch : Patch} {clears : Option (Request × Nat)}
    (hj : s.calls[j]? = some (.writing patch clears)) :
    Inv (State.setCall { s with row := merge s.row patch s.writes, writes := s.writes + 1 } j .done) := by
  have hcall := h.calls _ (List.mem_of_getElem? hj)
  have hpaired : Paired (merge s.row patch s.writes) ∧ KeysPaired (merge s.row patch s.writes) := by
    cases clears with
    | none => exact paired_mark hcall.1 hcall.2 s.writes h.paired h.keys
    | some clears => exact paired_clear hcall.1.1 hcall.2.2 s.writes h.paired h.keys
  have hrequest : ∀ r : Request, r.Ok s → r.Ok (State.setCall { s with row := merge s.row patch s.writes, writes := s.writes + 1 } j .done) :=
    fun r hr => ⟨hr.1, Nat.le_succ_of_le hr.2.1, hr.2.2.merge hr.2.1⟩
  refine ⟨hpaired.1, hpaired.2, fun k l hl => ?_, fun r hr => hrequest r (h.requests r hr), fun c hc => ?_⟩
  · rcases lock_merge hl with hold | hnew
    · exact Nat.lt_succ_of_lt (h.stamped k l hold)
    · exact hnew.trans_lt (Nat.lt_succ_self _)
  · rcases List.mem_or_eq_of_mem_set hc with hold | rfl
    · have hok := h.calls c hold
      cases c with
      | marking model failure backoffLevel => trivial
      | writing patch clears =>
        cases clears with
        | none => exact hok
        | some clears => exact ⟨hrequest _ hok.1, hok.2.1, hok.2.2⟩
      | done => trivial
    · trivial

theorem Inv.step (op : Op) (h : Inv s) : Inv (step s op) := by
  cases op with
  | elapse milliseconds => exact h.keep (Nat.le_add_right _ _) rfl rfl (fun r hr => Or.inl hr) fun c hc => Or.inl hc
  | select model =>
    refine h.keep le_rfl rfl rfl (fun r hr => ?_) fun c hc => Or.inl hc
    refine (List.mem_append.1 hr).imp id fun hnew => ?_
    obtain rfl := List.mem_singleton.1 hnew
    exact ⟨h.keys, le_rfl, fun _ _ hl _ => hl⟩
  | fail model failure =>
    refine h.keep le_rfl rfl rfl (fun r hr => Or.inl hr) fun c hc => ?_
    refine (List.mem_append.1 hc).imp id fun hnew => ?_
    obtain rfl := List.mem_singleton.1 hnew
    trivial
  | succeed i =>
    unfold AccountLocks.step
    simp only
    split
    · rename_i r hr
      split
      · rename_i patch hpatch
        refine h.keep le_rfl rfl rfl (fun r hr => Or.inl hr) fun c hc => ?_
        refine (List.mem_append.1 hc).imp id fun hnew => ?_
        obtain rfl := List.mem_singleton.1 hnew
        exact ⟨(h.requests r (List.mem_of_getElem? hr)).mono rfl rfl, le_rfl, hpatch⟩
      · exact h
    · exact h
  | decide j =>
    unfold AccountLocks.step
    simp only
    split
    · refine h.keep le_rfl rfl rfl (fun r hr => Or.inl hr) fun c hc => ?_
      refine (List.mem_or_eq_of_mem_set hc).imp id fun hnew => ?_
      subst hnew
      split
      · rename_i patch hpatch
        exact markPatch_clears hpatch
      · trivial
    · exact h
  | write j =>
    unfold AccountLocks.step
    simp only
    split
    · rename_i patch clears hj
      exact h.write hj
    · exact h

theorem stepSafe_iff (h : Inv s) (op : Op) : StepSafe s op ↔ Current s op := by
  unfold StepSafe Current
  refine forall_congr' fun j => ⟨?_, ?_⟩
  · rintro hsafe rfl patch r at' hj
    obtain ⟨hr, hnow, hpatch⟩ := h.calls _ (List.mem_of_getElem? hj)
    have hrow : (AccountLocks.step s (.write j)).row = merge s.row patch s.writes := by
      simp [AccountLocks.step, hj, State.setCall]
    have hclears := hsafe rfl patch r at' hj
    rw [hrow] at hclears
    exact (clearsSafely_iff hr.2.2 hnow hpatch).1 hclears
  · rintro hcurrent rfl patch r at' hj
    obtain ⟨hr, hnow, hpatch⟩ := h.calls _ (List.mem_of_getElem? hj)
    have hrow : (AccountLocks.step s (.write j)).row = merge s.row patch s.writes := by
      simp [AccountLocks.step, hj, State.setCall]
    rw [hrow]
    exact (clearsSafely_iff hr.2.2 hnow hpatch).2 (hcurrent rfl patch r at' hj)

end

/-- A connection at rest: its locks have their metadata, and no request is in progress. -/
structure AtRest (s : State) : Prop where
  paired : Paired s.row
  keys : KeysPaired s.row
  stamped : ∀ k, ∀ l ∈ s.row.lock k, l.written < s.writes
  requests : s.requests = []
  calls : s.calls = []

theorem AtRest.inv {s : State} (h : AtRest s) : Inv s where
  paired := h.paired
  keys := h.keys
  stamped := h.stamped
  requests := by simp [h.requests]
  calls := by simp [h.calls]

/-- **Lock bookkeeping.** In every interleaving each lock of the row has the metadata of its
failure; and the successes of a run remove and reset only what they may if and only if each of them,
when it is written, is current. -/
theorem lockBookkeeping_iff {s : State} (h : AtRest s) (ops : List Op) :
    Paired (run step s ops).row ∧ (Meets step StepSafe s ops ↔ Meets step Current s ops) :=
  ⟨(run_inv (I := Inv) (fun _ op h => h.step op) h.inv).paired,
    meets_congr_of_inv (I := Inv) (fun _ op h => h.step op) (fun _ op h => stepSafe_iff h op) h.inv⟩

/-! ### A lock that is lost -/

def rateLimit (resetsAtMs : Nat) : Failure where
  status := 429
  reason := "slow down"
  resetsAtMs := some resetsAtMs
  lockClass := .rate
  retryDelayCapMs := 1000000
  fallback _ := { shouldFallback := true, cooldownMs := 2000, newBackoffLevel := some 1 }

def idle : State where
  clock := 1000
  row := {}

theorem idle_atRest : AtRest idle where
  paired _ _ hl := by cases hl
  keys _ hk := by cases hk
  stamped _ _ hl := by cases hl
  requests := rfl
  calls := rfl

/-- A request for `a` is selected while an ended lock of `b` is still in the row, another request
locks `b` anew, and the first one succeeds. -/
def lockedMeanwhile : List Op :=
  [.fail (some "b") (rateLimit 2000), .decide 0, .write 0, .elapse 2000, .select (some "a"), .fail (some "b") (rateLimit 9000), .decide 1,
    .write 1, .succeed 0]

theorem lockedMeanwhile_paired :
    Paired (run step idle lockedMeanwhile).row ∧ (Meets step StepSafe idle lockedMeanwhile ↔ Meets step Current idle lockedMeanwhile) :=
  lockBookkeeping_iff idle_atRest lockedMeanwhile

/-- The success of `a` removes the new lock of `b` and resets the error state. -/
theorem lockedMeanwhile_loses :
    ¬ ∀ s, AtRest s → ∀ ops, Paired (run step s ops).row ∧ Meets step StepSafe s ops := by
  intro h
  have hsafe := (h idle idle_atRest (lockedMeanwhile ++ [.write 2])).2.last
  have hkept := (hsafe 2 rfl _ _ _ rfl).others "b" { endsAt := 9000, written := 1 } (by decide +kernel) (by decide +kernel)
    (by decide +kernel) (by decide +kernel)
  have hlost : (step (run step idle lockedMeanwhile) (.write 2)).row.lock "b" = none := by decide +kernel
  rw [hlost] at hkept
  cases hkept

end TokenProxy.AccountLocks
