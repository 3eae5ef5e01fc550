import TokenProxy.QuotaCheck.Queue
import TokenProxy.Lib.Run

/-!
# Safety of the leases

A job carries a token and a lease exactly while it runs, and its token is that of the latest claim
of the job. A worker's operation changes a job only if `isOwner` says so (`worker_owner`), so it
needs the token of the latest claim; tokens are never drawn twice, so a token that was superseded or
completed is worth nothing ever after.

`reconcile` and `cancelAll` need no token: they cancel a job whoever runs it.
-/

namespace TokenProxy.QuotaCheck

open TokenProxy.Lib

variable {identity : String → String → String} {digest : EventKey → String}

/-! ### The invariant -/

structure Job.Shaped (job : Job) : Prop where
  token : job.status = .running ↔ job.claimToken.isSome = true
  lease : job.status = .running ↔ job.leaseExpiresAt.isSome = true

def State.lastClaim (st : State) (id : String) : Option Nat :=
  ((st.claims.filter fun p => p.1 = id).getLast?).map Prod.snd

structure Inv (st : State) : Prop where
  shaped : ∀ id job, st.jobs.get? id = some job → job.Shaped
  latest : ∀ id job t, st.jobs.get? id = some job → job.claimToken = some t → st.lastClaim id = some t
  fresh : ∀ p ∈ st.claims, p.2 < st.supply
  tokens : (st.claims.map Prod.snd).Nodup

theorem lastClaim_mem {st : State} {id : String} {t : Nat}
    (h : st.lastClaim id = some t) : (id, t) ∈ st.claims := by
  obtain ⟨⟨id', t'⟩, hlast, rfl⟩ := Option.map_eq_some_iff.mp h
  have hmem := List.mem_of_getLast? hlast
  rw [List.mem_filter, decide_eq_true_eq] at hmem
  obtain ⟨hmem, rfl⟩ := hmem
  exact hmem

theorem Inv.token_job {st : State} (h : Inv st) {id id' : String} {t : Nat}
    (hid : (id, t) ∈ st.claims) (hid' : (id', t) ∈ st.claims) : id = id' :=
  congrArg Prod.fst (List.inj_on_of_nodup_map h.tokens hid hid' rfl)

/-! ### Operations that grant nothing -/

/-- Jobs keep their tokens or lose them, and nothing is granted. -/
structure Quiet (st st' : State) : Prop where
  jobs : ∀ id job', st'.jobs.get? id = some job' → (st.jobs.get? id = some job' ∨ job'.Shaped) ∧
    ∀ t, job'.claimToken = some t → ∃ job, st.jobs.get? id = some job ∧ job.claimToken = some t
  supply : st.supply ≤ st'.supply
  claims : st'.claims = st.claims

theorem Quiet.refl (st : State) : Quiet st st := ⟨fun _ job' h => ⟨Or.inl h, fun _ ht => ⟨job', h, ht⟩⟩, le_rfl, rfl⟩

theorem Quiet.trans {st st' st'' : State} (h : Quiet st st')
    (h' : Quiet st' st'') : Quiet st st'' where
  jobs id job'' hjob := by
    obtain ⟨hshape, htoken⟩ := h'.jobs id job'' hjob
    constructor
    · rcases hshape with hold | hshape
      · exact (h.jobs id job'' hold).1
      · exact Or.inr hshape
    · intro t ht
      obtain ⟨job', hjob', ht'⟩ := htoken t ht
      exact (h.jobs id job' hjob').2 t ht'
  supply := h.supply.trans h'.supply
  claims := h'.claims.trans h.claims

theorem Quiet.of_jobs {st st' : State} (hjobs : st'.jobs = st.jobs)
    (hsupply : st.supply ≤ st'.supply) (hclaims : st'.claims = st.claims) : Quiet st st' :=
  ⟨fun _ job' h => ⟨Or.inl (hjobs ▸ h), fun _ ht => ⟨job', hjobs ▸ h, ht⟩⟩, hsupply, hclaims⟩

theorem Quiet.inv {st st' : State} (h : Quiet st st') (hi : Inv st) : Inv st' where
  shaped id job' hjob := (h.jobs id job' hjob).1.elim (hi.shaped id job') fun hshape => hshape
  latest id job' t hjob ht := by
    obtain ⟨job, hold, hold'⟩ := (h.jobs id job' hjob).2 t ht
    rw [State.lastClaim, h.claims]
    exact hi.latest id job t hold hold'
  fresh p hp := (hi.fresh p (h.claims ▸ hp)).trans_le h.supply
  tokens := h.claims ▸ hi.tokens

theorem Quiet.put {st : State} {job : Job} (hshape : job.Shaped)
    (htoken : ∀ t, job.claimToken = some t → ∃ old, st.jobs.get? job.id = some old ∧ old.claimToken = some t) :
    Quiet st { st with jobs := st.jobs.put job } := by
  refine ⟨fun id job' hjob => ?_, le_rfl, rfl⟩
  by_cases hid : id = job.id
  · subst hid
    rw [Table.get?_put_self] at hjob
    cases hjob
    exact ⟨Or.inr hshape, htoken⟩
  · change (st.jobs.put job).get? id = some job' at hjob
    rw [Table.get?_put_ne _ hid] at hjob
    exact ⟨Or.inl hjob, fun t ht => ⟨job', hjob, ht⟩⟩

theorem Job.Shaped.of_none {job : Job} (hstatus : job.status ≠ .running)
    (htoken : job.claimToken = none) (hlease : job.leaseExpiresAt = none) : job.Shaped :=
  ⟨⟨fun h => absurd h hstatus, fun h => by rw [htoken] at h; cases h⟩,
    ⟨fun h => absurd h hstatus, fun h => by rw [hlease] at h; cases h⟩⟩

/-- **`UPDATE`** changes one row that satisfies its condition, or nothing. -/
theorem updateJob_cases (st : State) (id : String) (cond : Job → Bool) (set : Job → Job) :
    updateJob st id cond set = (st, 0) ∨
      ∃ job, st.jobs.get? id = some job ∧ cond job = true ∧
        updateJob st id cond set = ({ st with jobs := st.jobs.put { set job with id := id } }, 1) := by
  unfold updateJob
  cases hjob : st.jobs.get? id with
  | none => exact Or.inl rfl
  | some job =>
    have hkey : job.id = id := Table.get?_key hjob
    by_cases hcond : cond job = true
    · right
      simp only [if_pos hcond, hkey]
      exact ⟨job, rfl, hcond, rfl⟩
    · left
      simp only [if_neg hcond]

theorem insertQuotaCheckEvent_quiet {jobId : String} {checkId : Nat}
    {connectionId provider : String} {fields : EventFields} {now : Nat} {st st' : State}
    (h : insertQuotaCheckEvent digest jobId checkId connectionId provider fields now st = .ok st') :
    st'.jobs = st.jobs ∧ Quiet st st' := by
  unfold insertQuotaCheckEvent at h
  split at h
  · cases h
  · split at h
    · cases h
    · split at h
      · cases h
      · obtain ⟨observation, _, h⟩ := bind_ok h
        replace h := Except.ok.inj h
        -- whatever the event is
        generalize CheckEvent.mk _ _ _ _ _ _ _ _ _ _ _ _ _ _ = added at h
        by_cases hexists : (st.events.get? added.id).isSome = true
        · rw [if_pos hexists] at h
          subst h
          exact ⟨rfl, Quiet.refl st⟩
        · rw [if_neg hexists] at h
          subst h
          exact ⟨rfl, Quiet.of_jobs rfl le_rfl rfl⟩

theorem recordEvent_quiet {row : Row} {fields : EventFields} {now : Nat} {st st' : State}
    (h : recordEvent digest row fields now st = .ok st') : st'.jobs = st.jobs ∧ Quiet st st' := by
  unfold recordEvent at h
  split at h
  · exact insertQuotaCheckEvent_quiet h
  · obtain ⟨hjobs, hquiet⟩ := insertQuotaCheckEvent_quiet h
    exact ⟨hjobs, (Quiet.of_jobs rfl (Nat.le_succ _) rfl : Quiet st { st with supply := st.supply + 1 }).trans hquiet⟩

/-- **`cancelRow`** takes the token of one job. -/
theorem cancelRow_spec {row : Row} {reason : String} {now n : Nat} {st st' : State}
    (h : cancelRow digest row reason now st = .ok (st', n)) :
    Quiet st st' ∧ ∀ id, id ≠ row.id → st'.jobs.get? id = st.jobs.get? id := by
  unfold cancelRow at h
  rcases updateJob_cases st row.id (fun job => job.status ≠ .cancelled) (fun job =>
      { job with
        status := .cancelled, cancelReason := some reason, claimToken := none, leaseExpiresAt := none
        finishedAt := some now, lastOutcome := some .cancelled, updatedAt := now }) with hnone | ⟨job, hjob, -, hput⟩
  · rw [hnone] at h
    cases h
    exact ⟨Quiet.refl _, fun _ _ => rfl⟩
  · rw [hput] at h
    obtain ⟨st₁, hrecord, h⟩ := bind_ok h
    cases h
    obtain ⟨hjobs, hquiet⟩ := recordEvent_quiet hrecord
    have hcancelled : Quiet st { st with jobs := st.jobs.put { job with
        id := row.id, status := .cancelled, cancelReason := some reason, claimToken := none, leaseExpiresAt := none
        finishedAt := some now, lastOutcome := some .cancelled, updatedAt := now } } := by
      apply Quiet.put
      · exact Job.Shaped.of_none (by simp) rfl rfl
      · intro t ht
        cases ht
    refine ⟨hcancelled.trans hquiet, fun id hid => ?_⟩
    rw [hjobs]
    exact Table.get?_put_ne _ hid

theorem cancelRows_quiet {reason : Job → Option String} {now : Nat} {rows : List Job}
    {st st' : State} (h : cancelRows digest reason now rows st = .ok st') : Quiet st st' := by
  induction rows generalizing st with
  | nil =>
    cases h
    exact Quiet.refl _
  | cons row rows ih =>
    unfold cancelRows at h
    split at h
    · exact ih h
    · obtain ⟨⟨st₁, n⟩, hcancel, h⟩ := bind_ok h
      exact (cancelRow_spec hcancel).1.trans (ih h)

theorem enqueue_quiet {id : String} {account : Account} {now : Nat} {st st' : State}
    (h : enqueue id account now st = .ok st') : Quiet st st' := by
  unfold enqueue at h
  split at h
  · cases h
    split
    · exact Quiet.put (Job.Shaped.of_none nofun rfl rfl) nofun
    · exact Quiet.refl st
  · split at h
    · cases h
    · cases h
      exact Quiet.put (Job.Shaped.of_none nofun rfl rfl) nofun

theorem enqueueAll_quiet {now : Nat} {accounts : List (String × Account)} {st st' : State}
    (h : enqueueAll now accounts st = .ok st') : Quiet st st' := by
  induction accounts generalizing st with
  | nil =>
    cases h
    exact Quiet.refl _
  | cons p accounts ih =>
    obtain ⟨id, account⟩ := p
    unfold enqueueAll at h
    split at h
    · exact ih h
    · obtain ⟨st₁, henqueue, h⟩ := bind_ok h
      exact (enqueue_quiet henqueue).trans (ih h)

theorem reconcile_quiet {accounts : List Account} {now : Nat} {st st' : State} {u : Unit}
    (h : reconcile identity digest accounts now st = .ok (st', u)) : Quiet st st' := by
  obtain ⟨st₁, hcancel, h⟩ := bind_ok h
  obtain ⟨st₂, henqueue, h⟩ := bind_ok h
  cases h
  exact (cancelRows_quiet hcancel).trans (enqueueAll_quiet henqueue)

theorem cancelAll_quiet {reason : String} {now : Nat} {st st' : State} {u : Unit}
    (h : cancelAll digest reason now st = .ok (st', u)) : Quiet st st' := by
  obtain ⟨st₁, hcancel, h⟩ := bind_ok h
  cases h
  exact cancelRows_quiet hcancel

/-! ### Claims -/

theorem lastClaim_grant {st st' : State} {id : String} {t : Nat}
    (h : st'.claims = st.claims ++ [(id, t)])
    (id' : String) : st'.lastClaim id' = if id' = id then some t else st.lastClaim id' := by
  unfold State.lastClaim
  rw [h, List.filter_append]
  by_cases hid : id' = id
  · subst hid
    simp
  · rw [if_neg hid, List.filter_cons_of_neg (by simpa using Ne.symm hid), List.filter_nil, List.append_nil]

/-- **`claim`** grants nothing, or gives a fresh token to a job that waits and is
due or whose lease ran out. -/
theorem claim_cases (id : String) (now leaseMs : Nat) (st : State) :
    claim id now leaseMs st = .ok ({ st with supply := st.supply + 2 }, none) ∨
      ∃ job, st.jobs.get? id = some job ∧
        ((job.status = .scheduled ∧ job.nextCheckAt ≤ now) ∨
          (job.status = .running ∧ job.leaseExpiresAt.any (· ≤ now) = true)) ∧
        ∃ r, claim id now leaseMs st = .ok
          ({ st with
              supply := st.supply + 2
              jobs := st.jobs.put { job with
                id := id, status := .running, claimToken := some st.supply, checkId := some (st.supply + 1)
                leaseExpiresAt := some (now + leaseMs), startedAt := some now, finishedAt := none, updatedAt := now }
              claims := st.claims ++ [(id, st.supply)] }, r) := by
  unfold claim
  simp only
  rcases updateJob_cases { st with supply := st.supply + 2 } id
      (fun job => decide ((job.status = .scheduled ∧ job.nextCheckAt ≤ now) ∨
        (job.status = .running ∧ job.leaseExpiresAt.any (fun l => decide (l ≤ now)) = true)))
      (fun job =>
        { job with
          status := .running, claimToken := some st.supply, checkId := some (st.supply + 1)
          leaseExpiresAt := some (now + leaseMs), startedAt := some now, finishedAt := none, updatedAt := now }) with
    hnone | ⟨job, hjob, hcond, hput⟩
  · rw [hnone]
    exact Or.inl rfl
  · rw [hput]
    exact Or.inr ⟨job, hjob, decide_eq_true_eq.mp hcond, _, rfl⟩

theorem claim_inv {id : String} {now leaseMs : Nat} {st st' : State} {r : Option Job} (hi : Inv st)
    (h : claim id now leaseMs st = .ok (st', r)) : Inv st' := by
  rcases claim_cases id now leaseMs st with hnone | ⟨job, -, -, r', hgrant⟩
  · rw [hnone] at h
    cases h
    exact (Quiet.of_jobs rfl (Nat.le_add_right _ _) rfl : Quiet st { st with supply := st.supply + 2 }).inv hi
  · rw [hgrant] at h
    cases h
    refine ⟨fun id' job' hjob' => ?_, fun id' job' t hjob' ht => ?_, fun p hp => ?_, ?_⟩
    · rw [Table.get?_put] at hjob'
      split at hjob'
      · cases hjob'
        exact ⟨by simp, by simp⟩
      · exact hi.shaped id' job' hjob'
    · rw [Table.get?_put] at hjob'
      rw [lastClaim_grant (rfl : _ = st.claims ++ [(id, st.supply)])]
      split at hjob'
      · rename_i hid
        cases hjob'
        rw [if_pos hid]
        exact ht
      · rename_i hid
        rw [if_neg hid]
        exact hi.latest id' job' t hjob' ht
    · rcases List.mem_append.mp hp with hp | hp
      · exact (hi.fresh p hp).trans_le (Nat.le_add_right _ _)
      · rw [List.mem_singleton.mp hp]
        show st.supply < st.supply + 2
        omega
    · show ((st.claims ++ [(id, st.supply)]).map Prod.snd).Nodup
      rw [List.map_append, List.nodup_append]
      refine ⟨hi.tokens, List.nodup_singleton _, fun t ht t' ht' => ?_⟩
      obtain ⟨p, hp, rfl⟩ := List.mem_map.mp ht
      rw [List.mem_singleton.mp ht']
      exact (hi.fresh p hp).ne

/-! ### The operations of a worker -/

theorem isOwner_iff {st : State} {held : Claim} {now : Nat} :
    isOwner st held now = true ↔ ∃ job l, st.jobs.get? held.id = some job ∧ job.claimToken = some held.claimToken ∧
      job.status = .running ∧ job.leaseExpiresAt = some l ∧ now < l := by
  simp [isOwner, Option.any_eq_true]

theorem isOwner.latest {st : State} (hi : Inv st) {held : Claim} {now : Nat}
    (h : isOwner st held now = true) :
    st.lastClaim held.id = some held.claimToken := by
  obtain ⟨job, l, hjob, htoken, -⟩ := isOwner_iff.mp h
  exact hi.latest held.id job held.claimToken hjob htoken

/-- Only the job of `id` may differ. -/
def Touches (id : String) (st st' : State) : Prop := ∀ id', id' ≠ id → st'.jobs.get? id' = st.jobs.get? id'

/-- **`renew`** is refused without a change, or the worker owns the job. -/
theorem renew_cases {held : Claim} {now leaseMs : Nat} {st st' : State} {accepted : Bool}
    (h : renew held now leaseMs st = .ok (st', accepted)) :
    (st' = st ∧ accepted = false) ∨ (isOwner st held now = true ∧ Quiet st st' ∧ Touches held.id st st') := by
  unfold renew at h
  rcases updateJob_cases st held.id
      (fun job => decide (job.claimToken = some held.claimToken ∧ job.status = .running ∧
        job.leaseExpiresAt.any (fun l => decide (now < l)) = true))
      (fun job => { job with leaseExpiresAt := some (now + leaseMs), updatedAt := now }) with
    hnone | ⟨job, hjob, hcond, hput⟩
  · rw [hnone] at h
    cases h
    exact Or.inl ⟨rfl, rfl⟩
  · rw [hput] at h
    cases h
    have howner : isOwner st held now = true := by
      simp only [isOwner, hjob, Option.any_some, hcond]
    obtain ⟨htoken, hrunning, -⟩ := decide_eq_true_eq.mp hcond
    refine Or.inr ⟨howner, ?_, fun id hid => Table.get?_put_ne _ hid⟩
    apply Quiet.put
    · exact ⟨by simp [hrunning, htoken], by simp [hrunning]⟩
    · exact fun t ht => ⟨job, hjob, ht⟩

theorem cancel_cases {held : Claim} {reason : String} {now : Nat} {st st' : State} {accepted : Bool}
    (h : cancel digest held reason now st = .ok (st', accepted)) :
    (st' = st ∧ accepted = false) ∨ (isOwner st held now = true ∧ Quiet st st' ∧ Touches held.id st st') := by
  unfold cancel at h
  split at h
  · rename_i howner
    obtain ⟨⟨st₁, n⟩, hcancel, h⟩ := bind_ok h
    cases h
    obtain ⟨hquiet, hother⟩ := cancelRow_spec hcancel
    exact Or.inr ⟨howner, hquiet, hother⟩
  · cases h
    exact Or.inl ⟨rfl, rfl⟩

theorem recordTargets_quiet {held : Claim} {reason : String} {nextCheckAt now : Nat}
    {targets : List (Option Evidence)}
    {st st' : State} (h : recordTargets digest held reason nextCheckAt now targets st = .ok st') :
    st'.jobs = st.jobs ∧ Quiet st st' := by
  induction targets generalizing st with
  | nil =>
    cases h
    exact ⟨rfl, Quiet.refl _⟩
  | cons target rest ih =>
    obtain ⟨st₁, hrecord, h⟩ := bind_ok h
    obtain ⟨hjobs, hquiet⟩ := recordEvent_quiet hrecord
    obtain ⟨hjobs', hquiet'⟩ := ih h
    exact ⟨hjobs'.trans hjobs, hquiet.trans hquiet'⟩

/-- **`complete`** is refused without a change, or the worker owns the
job and gives its token up. -/
theorem complete_cases {held : Claim} {completion : Completion} {nextCheckAt now : Nat}
    {st st' : State} {accepted : Bool}
    (h : complete digest held completion nextCheckAt now st = .ok (st', accepted)) :
    (st' = st ∧ accepted = false) ∨
      (isOwner st held now = true ∧ Quiet st st' ∧ Touches held.id st st' ∧
        ∀ job, st'.jobs.get? held.id = some job → job.claimToken = none) := by
  unfold complete at h
  split at h
  · rename_i howner
    obtain ⟨evidence, -, h⟩ := bind_ok h
    rcases updateJob_cases st held.id (fun job => decide (job.claimToken = some held.claimToken)) (fun job =>
        { job with
          status := .scheduled, nextCheckAt, reason := completion.reason, targets := evidence
          lastOutcome := some (.check completion.outcome), finishedAt := some now, claimToken := none
          leaseExpiresAt := none, updatedAt := now }) with hnone | ⟨job, -, -, hput⟩
    · rw [hnone] at h
      cases h
      exact Or.inl ⟨rfl, rfl⟩
    · rw [hput] at h
      obtain ⟨st₁, hrecord, h⟩ := bind_ok h
      cases h
      obtain ⟨hjobs, hquiet⟩ := recordTargets_quiet hrecord
      refine Or.inr ⟨howner, Quiet.trans ?_ hquiet, fun id hid => ?_, fun job' hjob' => ?_⟩
      · apply Quiet.put
        · exact Job.Shaped.of_none (by simp) rfl rfl
        · intro t ht
          cases ht
      · rw [hjobs]
        exact Table.get?_put_ne _ hid
      · rw [hjobs, Table.get?_put, if_pos rfl] at hjob'
        cases hjob'
        rfl
  · cases h
    exact Or.inl ⟨rfl, rfl⟩

/-! ### Steps -/

theorem guarded_cases {α β : Type} (check : Except String α) (faults : Faults) (answer : β → Answer)
    (body : α → State → Except String (State × β)) (st : State) :
    (∃ e, guarded check faults (fun a => answering answer (body a)) st = (st, .error e)) ∨
      ∃ a st' b, body a st = .ok (st', b) ∧
        guarded check faults (fun a => answering answer (body a)) st =
          (st', if faults.flush then .error "io" else .ok (answer b)) := by
  unfold guarded
  cases check with
  | error e => exact Or.inl ⟨e, rfl⟩
  | ok a =>
    simp only [publish]
    rcases transaction_cases (answering answer (body a)) (if faults.transaction then some "io" else none) st with
      ⟨e, herror⟩ | ⟨st', b, hbody, hok⟩
    · rw [herror]
      exact Or.inl ⟨e, rfl⟩
    · rw [hok]
      obtain ⟨⟨st₁, b'⟩, hbody', h⟩ := bind_ok hbody
      cases h
      exact Or.inr ⟨a, _, b', hbody', rfl⟩

def Event.worker : Event → Option (Claim × Nat)
  | .renew held now _ _ => some (held, now)
  | .cancel held _ now _ => some (held, now)
  | .complete held _ now _ => some (held, now)
  | _ => none

variable (identity digest) in
def Changes (st : State) (ev : Event) : Prop :=
  (step identity digest st ev).jobs ≠ st.jobs ∨ (execute identity digest st ev).2 = .ok (.accepted true)

variable (identity digest) in
/-- **A worker's operation** is refused without a change, or the worker owns the
job and only that job changes. -/
theorem worker_cases (st : State) {ev : Event} {held : Claim} {now : Nat}
    (hworker : ev.worker = some (held, now)) :
    (step identity digest st ev = st ∧ (execute identity digest st ev).2 ≠ .ok (.accepted true)) ∨
      (isOwner st held now = true ∧ Quiet st (step identity digest st ev) ∧
        Touches held.id st (step identity digest st ev)) := by
  have hrefused : ∀ (flush : Bool) {accepted : Bool}, accepted = false →
      (if flush then (Except.error "io" : Except String Answer) else .ok (.accepted accepted)) ≠ .ok (.accepted true) := by
    intro flush accepted haccepted
    subst haccepted
    cases flush <;> simp
  cases ev with
  | renew held' now' leaseMs faults =>
    cases hworker
    simp only [step, execute]
    rcases guarded_cases (checkLease leaseMs) faults .accepted (fun _ => renew held now leaseMs) st with
      ⟨e, h⟩ | ⟨-, st', b, hbody, h⟩
    · rw [h]
      exact Or.inl ⟨rfl, by simp⟩
    · rw [h]
      exact (renew_cases hbody).imp (fun hr => ⟨hr.1, hrefused faults.flush hr.2⟩) fun ho => ho
  | cancel held' reason now' faults =>
    cases hworker
    simp only [step, execute]
    rcases guarded_cases (checkCancellation reason) faults .accepted (fun _ => cancel digest held reason now) st with
      ⟨e, h⟩ | ⟨-, st', b, hbody, h⟩
    · rw [h]
      exact Or.inl ⟨rfl, by simp⟩
    · rw [h]
      exact (cancel_cases hbody).imp (fun hr => ⟨hr.1, hrefused faults.flush hr.2⟩) fun ho => ho
  | complete held' completion now' faults =>
    cases hworker
    simp only [step, execute]
    rcases guarded_cases (checkCompletion completion) faults .accepted
      (fun nextCheckAt => complete digest held completion nextCheckAt now) st with ⟨e, h⟩ | ⟨nextCheckAt, st', b, hbody, h⟩
    · rw [h]
      exact Or.inl ⟨rfl, by simp⟩
    · rw [h]
      exact (complete_cases hbody).imp (fun hr => ⟨hr.1,
        hrefused faults.flush hr.2⟩) fun ho => ⟨ho.1, ho.2.1, ho.2.2.1⟩
  | reconcile _ _ _ => cases hworker
  | claim _ _ _ _ => cases hworker
  | cancelAll _ _ _ => cases hworker
  | observe _ => cases hworker

theorem other_cases {st : State} {ev : Event} (hworker : ev.worker = none) :
    Quiet st (step identity digest st ev) ∨
      ∃ id now leaseMs faults r, ev = .claim id now leaseMs faults ∧
        claim id now leaseMs st = .ok (step identity digest st ev, r) := by
  cases ev with
  | reconcile accounts now faults =>
    simp only [step, execute]
    rcases guarded_cases (checkAccounts accounts) faults (fun _ => .done)
      (fun _ => reconcile identity digest accounts now) st with ⟨e, h⟩ | ⟨-, st', b, hbody, h⟩
    · rw [h]
      exact Or.inl (Quiet.refl st)
    · rw [h]
      exact Or.inl (reconcile_quiet hbody)
  | claim id now leaseMs faults =>
    simp only [step, execute]
    rcases guarded_cases (checkLease leaseMs) faults .job (fun _ => claim id now leaseMs) st with
      ⟨e, h⟩ | ⟨-, st', b, hbody, h⟩
    · rw [h]
      exact Or.inl (Quiet.refl st)
    · rw [h]
      exact Or.inr ⟨id, now, leaseMs, faults, b, rfl, hbody⟩
  | cancelAll reason now faults =>
    simp only [step, execute]
    rcases guarded_cases (checkCancellation reason) faults (fun _ => .done) (fun _ => cancelAll digest reason now) st with
      ⟨e, h⟩ | ⟨-, st', b, hbody, h⟩
    · rw [h]
      exact Or.inl (Quiet.refl st)
    · rw [h]
      exact Or.inl (cancelAll_quiet hbody)
  | observe observation => exact Or.inl (Quiet.of_jobs rfl le_rfl rfl)
  | renew _ _ _ _ => cases hworker
  | cancel _ _ _ _ => cases hworker
  | complete _ _ _ _ => cases hworker

variable (identity digest) in
/-- **Every step** grants nothing, or is a claim. -/
theorem step_cases (st : State) (ev : Event) :
    Quiet st (step identity digest st ev) ∨
      ∃ id now leaseMs faults r, ev = .claim id now leaseMs faults ∧
        claim id now leaseMs st = .ok (step identity digest st ev, r) := by
  rcases hworker : ev.worker with _ | ⟨held, now⟩
  · exact other_cases hworker
  · rcases worker_cases identity digest st hworker with ⟨hsame, -⟩ | ⟨-, hquiet, -⟩
    · rw [hsame]
      exact Or.inl (Quiet.refl st)
    · exact Or.inl hquiet

theorem step_inv (st : State) (ev : Event) (hi : Inv st) : Inv (step identity digest st ev) := by
  rcases step_cases identity digest st ev with hquiet | ⟨id, now, leaseMs, faults, r, -, hclaim⟩
  · exact hquiet.inv hi
  · exact claim_inv hi hclaim

theorem Changes.owner {st : State} {ev : Event} {held : Claim} {now : Nat}
    (hworker : ev.worker = some (held, now)) (h : Changes identity digest st ev) :
    isOwner st held now = true ∧ Touches held.id st (step identity digest st ev) := by
  rcases worker_cases identity digest st hworker with ⟨hsame, hanswer⟩ | ⟨howner, -, hother⟩
  · rcases h with hchange | hchange
    · exact absurd (by rw [hsame]) hchange
    · exact absurd hchange hanswer
  · exact ⟨howner, hother⟩

theorem inv_initial : Inv State.initial where
  shaped _ _ h := by cases h
  latest _ _ _ h := by cases h
  fresh _ h := by cases h
  tokens := List.nodup_nil

theorem run_inv' (ops : List Event) : Inv (run (step identity digest) State.initial ops) :=
  run_inv step_inv inv_initial

/-! ### Spent tokens -/

def Spent (st : State) (t : Nat) : Prop := t < st.supply ∧ ∀ id job, st.jobs.get? id = some job → job.claimToken ≠ some t

/-- **A spent token stays spent**: no token is drawn twice. -/
theorem step_spent {st : State} {t : Nat} (ev : Event)
    (h : Spent st t) : Spent (step identity digest st ev) t := by
  rcases step_cases identity digest st ev with hquiet | ⟨id, now, leaseMs, faults, r, -, hclaim⟩
  · refine ⟨h.1.trans_le hquiet.supply, fun id job' hjob' htoken => ?_⟩
    obtain ⟨job, hjob, hold⟩ := (hquiet.jobs id job' hjob').2 t htoken
    exact h.2 id job hjob hold
  · generalize step identity digest st ev = st' at hclaim ⊢
    rcases claim_cases id now leaseMs st with hnone | ⟨job, -, -, r', hgrant⟩
    · rw [hnone] at hclaim
      cases hclaim
      exact ⟨h.1.trans_le (Nat.le_add_right _ _), h.2⟩
    · rw [hgrant] at hclaim
      cases hclaim
      refine ⟨h.1.trans_le (Nat.le_add_right _ _), fun id' job' hjob' htoken => ?_⟩
      rw [Table.get?_put] at hjob'
      split at hjob'
      · cases hjob'
        exact absurd (Option.some.inj htoken) (h.1.ne')
      · exact h.2 id' job' hjob' htoken

theorem Spent.refused {st : State} {ev : Event} {held : Claim} {now : Nat}
    (hworker : ev.worker = some (held, now))
    (h : Spent st held.claimToken) : ¬ Changes identity digest st ev := by
  intro hchange
  obtain ⟨job, l, hjob, htoken, -⟩ := isOwner_iff.mp (hchange.owner hworker).1
  exact absurd htoken (h.2 held.id job hjob)

theorem run_spent {st : State} {t : Nat} (h : Spent st t) (ops : List Event) :
    Spent (run (step identity digest) st ops) t :=
  run_inv (I := fun st => Spent st t) (fun _ ev => step_spent ev) h

theorem Inv.superseded {st : State} (hi : Inv st) {id : String} {t : Nat}
    (hclaim : (id, t) ∈ st.claims) (hlast : st.lastClaim id ≠ some t) : Spent st t := by
  refine ⟨hi.fresh _ hclaim, fun id' job hjob htoken => ?_⟩
  have hlatest := hi.latest id' job t hjob htoken
  have hid : id = id' := hi.token_job hclaim (lastClaim_mem hlatest)
  subst hid
  exact hlast hlatest

theorem Inv.completed {st : State} (hi : Inv st) {held : Claim} {completion : Completion}
    {now : Nat} {faults : Faults}
    (hchange : Changes identity digest st (.complete held completion now faults)) :
    Spent (step identity digest st (.complete held completion now faults)) held.claimToken := by
  have howner := (hchange.owner (rfl : (Event.complete held completion now faults).worker = some (held, now))).1
  have hlast := isOwner.latest hi howner
  simp only [Changes, step, execute] at hchange ⊢
  rcases guarded_cases (checkCompletion completion) faults .accepted
    (fun nextCheckAt => complete digest held completion nextCheckAt now) st with ⟨e, h⟩ | ⟨nextCheckAt, st', b, hbody, h⟩
  · rw [h] at hchange
    simp at hchange
  · rw [h] at hchange ⊢
    rcases complete_cases hbody with ⟨rfl, rfl⟩ | ⟨-, hquiet, hother, hgone⟩
    · cases hf : faults.flush <;> simp [hf] at hchange
    · refine ⟨(hi.fresh _ (lastClaim_mem hlast)).trans_le hquiet.supply, fun id job' hjob' htoken => ?_⟩
      by_cases hid : id = held.id
      · subst hid
        rw [hgone job' hjob'] at htoken
        cases htoken
      · rw [hother id hid] at hjob'
        have hid' := hi.token_job (lastClaim_mem hlast) (lastClaim_mem (hi.latest id job' _ hjob' htoken))
        exact hid hid'.symm

/-- The holder of the token of a job is the one to change it, unless its lease ran out
or every worker is overruled. -/
theorem Inv.changed_by {st : State} (hi : Inv st) {ev : Event} {id : String} {job : Job} {t : Nat}
    (hjob : st.jobs.get? id = some job) (htoken : job.claimToken = some t)
    (hchange : (step identity digest st ev).jobs.get? id ≠ some job) :
    (∃ held now, ev.worker = some (held, now) ∧ held.id = id ∧ held.claimToken = t) ∨
      (∃ now leaseMs faults l, ev = .claim id now leaseMs faults ∧ job.leaseExpiresAt = some l ∧ l ≤ now) ∨
      (∃ accounts now faults, ev = .reconcile accounts now faults) ∨ ∃ reason now faults, ev = .cancelAll reason now faults := by
  rcases hworker : ev.worker with _ | ⟨held, now⟩
  · cases ev with
    | reconcile accounts now faults => exact Or.inr (Or.inr (Or.inl ⟨accounts, now, faults, rfl⟩))
    | cancelAll reason now faults => exact Or.inr (Or.inr (Or.inr ⟨reason, now, faults, rfl⟩))
    | observe observation => exact absurd hjob hchange
    | claim id' now leaseMs faults =>
      simp only [step, execute] at hchange
      rcases guarded_cases (checkLease leaseMs) faults .job (fun _ => claim id' now leaseMs) st with
        ⟨e, h⟩ | ⟨-, st', b, hbody, h⟩
      · rw [h] at hchange
        exact absurd hjob hchange
      · rw [h] at hchange
        rcases claim_cases id' now leaseMs st with hnone | ⟨job', hjob', hdue, r, hgrant⟩
        · rw [hnone] at hbody
          cases hbody
          exact absurd hjob hchange
        · rw [hgrant] at hbody
          cases hbody
          rw [Table.get?_put] at hchange
          split at hchange
          · rename_i hid
            obtain rfl : id = id' := hid
            obtain rfl : job = job' := Option.some.inj (hjob.symm.trans hjob')
            have hrunning : job.status = .running := (hi.shaped id job hjob).token.mpr (by rw [htoken]; rfl)
            rcases hdue with ⟨hscheduled, -⟩ | ⟨-, hexpired⟩
            · rw [hrunning] at hscheduled
              cases hscheduled
            · obtain ⟨l, hl, hle⟩ := (Option.any_eq_true _ _).mp hexpired
              exact Or.inr (Or.inl ⟨now, leaseMs, faults, l, rfl, hl, decide_eq_true_eq.mp hle⟩)
          · exact absurd hjob hchange
    | renew _ _ _ _ => cases hworker
    | cancel _ _ _ _ => cases hworker
    | complete _ _ _ _ => cases hworker
  · rcases worker_cases identity digest st hworker with ⟨hsame, -⟩ | ⟨howner, -, hother⟩
    · rw [hsame] at hchange
      exact absurd hjob hchange
    · by_cases hid : id = held.id
      · subst hid
        obtain ⟨job', l, hjob', htoken', -⟩ := isOwner_iff.mp howner
        obtain rfl : job = job' := Option.some.inj (hjob.symm.trans hjob')
        exact Or.inl ⟨held, now, rfl, rfl, Option.some.inj (htoken'.symm.trans htoken)⟩
      · exact absurd ((hother id hid).trans hjob) hchange

/-! ### The guarantees -/

/-- **Lease safety**, in every run of any number of workers, each with a clock of its own: a
job carries a token and a lease exactly while it runs; a worker changes a job, or is told that
it did, only with the token of the latest claim of that job, within its lease, and changes no
other job; after a completion, and after another claim of the job, the token changes nothing
ever after. A running job is taken from its worker only after its lease ran out, or by
`reconcile` or `cancelAll`. -/
theorem quotaCheck_lease_safe (identity : String → String → String) (digest : EventKey → String)
    (ops : List Event) :
    let st := run (step identity digest) State.initial ops
    (∀ id job, st.jobs.get? id = some job →
      (job.status = .running ↔ job.claimToken.isSome = true) ∧
        (job.status = .running ↔ job.leaseExpiresAt.isSome = true)) ∧
    (∀ ev held now, ev.worker = some (held, now) → Changes identity digest st ev →
      isOwner st held now = true ∧ st.lastClaim held.id = some held.claimToken ∧
        ∀ id, id ≠ held.id → (step identity digest st ev).jobs.get? id = st.jobs.get? id) ∧
    (∀ held completion now faults, Changes identity digest st (.complete held completion now faults) →
      ∀ more ev held' now', ev.worker = some (held', now') → held'.claimToken = held.claimToken →
        ¬ Changes identity digest (run (step identity digest) st (.complete held completion now faults :: more)) ev) ∧
    (∀ held : Claim, (held.id, held.claimToken) ∈ st.claims → st.lastClaim held.id ≠ some held.claimToken →
      ∀ more ev now, ev.worker = some (held, now) → ¬ Changes identity digest (run (step identity digest) st more) ev) ∧
    (∀ ev id job t, st.jobs.get? id = some job → job.claimToken = some t →
      (step identity digest st ev).jobs.get? id ≠ some job →
      (∃ held now, ev.worker = some (held, now) ∧ held.id = id ∧ held.claimToken = t) ∨
        (∃ now leaseMs faults l, ev = .claim id now leaseMs faults ∧ job.leaseExpiresAt = some l ∧ l ≤ now) ∨
        (∃ accounts now faults, ev = .reconcile accounts now faults) ∨
        ∃ reason now faults, ev = .cancelAll reason now faults) := by
  intro st
  have hi : Inv st := run_inv' ops
  refine ⟨fun id job hjob => ?_, fun ev held now hworker hchange => ?_, ?_, ?_, ?_⟩
  · exact ⟨(hi.shaped id job hjob).token, (hi.shaped id job hjob).lease⟩
  · obtain ⟨howner, hother⟩ := hchange.owner hworker
    exact ⟨howner, isOwner.latest hi howner, hother⟩
  · intro held completion now faults hchange more ev held' now' hworker htoken
    apply Spent.refused hworker
    rw [htoken]
    exact run_spent (hi.completed hchange) more
  · intro held hclaim hlast more ev now hworker
    exact Spent.refused hworker (run_spent (hi.superseded hclaim hlast) more)
  · exact fun ev id job t => hi.changed_by

/-! An account whose job is claimed at 0, and again when the lease ran out. -/

def exampleIdentity (id provider : String) : String := id ++ "/" ++ provider

def exampleDigest : EventKey → String
  | .schedule connectionId _ _ _ _ _ => "schedule/" ++ connectionId
  | .check checkId _ _ _ => "check/" ++ toString checkId

def noFaults : Faults := ⟨false, false⟩

def claimed : List Event :=
  [.reconcile [⟨"acct", "claude", none⟩] 0 noFaults, .claim "acct/claude" 0 QUOTA_CHECK_LEASE_MS noFaults]

def takenOver : List Event := claimed ++ [Event.claim "acct/claude" 120000 QUOTA_CHECK_LEASE_MS noFaults]

def firstClaim : Claim := ⟨⟨"acct/claude", some 1, "acct", "claude"⟩, 0⟩

def secondClaim : Claim := ⟨⟨"acct/claude", some 3, "acct", "claude"⟩, 2⟩

def checked : Completion := ⟨some 420000, "poll-not-before", [], .completed⟩

theorem quotaCheck_lease_safe_takenOver :
    let st := run (step exampleIdentity exampleDigest) State.initial takenOver
    let done := Event.complete secondClaim checked 130000 noFaults
    isOwner st secondClaim 130000 = true ∧
      ¬ Changes exampleIdentity exampleDigest st (.complete firstClaim checked 130000 noFaults) ∧
      ¬ Changes exampleIdentity exampleDigest (step exampleIdentity exampleDigest st done) done := by
  obtain ⟨-, howner, honce, hsuperseded, -⟩ := quotaCheck_lease_safe exampleIdentity exampleDigest takenOver
  have hdone : Changes exampleIdentity exampleDigest (run (step exampleIdentity exampleDigest) State.initial takenOver)
      (.complete secondClaim checked 130000 noFaults) := Or.inr (by decide +kernel)
  refine ⟨(howner _ _ _ rfl hdone).1, ?_, ?_⟩
  · exact hsuperseded firstClaim (by decide +kernel) (by decide +kernel) [] _ 130000 rfl
  · exact honce _ _ _ _ hdone [] _ _ _ rfl rfl

/-- `cancelAll` takes a running job away from the worker of its latest claim, in its
lease and without its token. -/
theorem cancelAll_unclaimed :
    let st := run (step exampleIdentity exampleDigest) State.initial claimed
    let ev := Event.cancelAll "setting-disabled" 1 noFaults
    isOwner st firstClaim 1 = true ∧ st.lastClaim "acct/claude" = some firstClaim.claimToken ∧ ev.worker = none ∧
      ((step exampleIdentity exampleDigest st ev).jobs.get? "acct/claude").map Job.status = some .cancelled := by
  refine ⟨?_, ?_, rfl, ?_⟩
  · decide +kernel
  · decide +kernel
  · decide +kernel

end TokenProxy.QuotaCheck
