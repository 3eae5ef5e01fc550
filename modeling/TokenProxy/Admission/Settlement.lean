import TokenProxy.Admission.Conservation

/-!
# Every request is settled once

`Settled` relates the queue, the resolved promises and the permits: a request is queued or resolved,
never both, never twice, and a permit's request was admitted. With `Conserved` and `Nested` (a
permit gives its handler back no later than its stream) it is the invariant `Inv` of every
operation.
-/

namespace TokenProxy.Admission

open TokenProxy.Lib AdmissionState

/-- How often the promise of request `id` was resolved. -/
def AdmissionState.resolutions (st : AdmissionState)
    (id : Nat) : Nat := st.results.countP fun r => r.1 = id

/-- `1` for a request that still waits. -/
def AdmissionState.waiting (st : AdmissionState)
    (id : Nat) : Nat := if (st.queue.get? id).isSome then 1 else 0

structure Settled (st : AdmissionState) : Prop where
  once : ∀ id, st.resolutions id + st.waiting id = if id < st.nextRequest then 1 else 0
  permitted : ∀ p ∈ st.permits.rows, ∃ ms, (p.id, Outcome.admitted ms) ∈ st.results

def Nested (st : AdmissionState) : Prop := ∀ p ∈ st.permits.rows, p.handlerHeld = true → p.streamHeld = true

structure Inv (st : AdmissionState) : Prop where
  conserved : Conserved st
  settled : Settled st
  nested : Nested st

namespace Settled

variable {st : AdmissionState}

theorem waiting_of_mem {w : Waiter} (hw : w ∈ st.queue.rows) : st.waiting w.id = 1 := by
  rw [waiting, Table.get?_of_mem hw]
  rfl

theorem resolutions_pos {id : Nat} {out : Outcome}
    (h : (id, out) ∈ st.results) : 0 < st.resolutions id :=
  List.countP_pos_iff.2 ⟨_, h, by simp⟩

theorem resolutions_of_mem (h : Settled st) {w : Waiter}
    (hw : w ∈ st.queue.rows) : st.resolutions w.id = 0 := by
  have hone := h.once w.id
  rw [waiting_of_mem hw] at hone
  split at hone <;> omega

theorem not_settled (h : Settled st) {w : Waiter}
    (hw : w ∈ st.queue.rows) : st.isSettled w.id = false := by
  have hzero := h.resolutions_of_mem hw
  rw [resolutions, List.countP_eq_zero] at hzero
  rw [isSettled, List.any_eq_false]
  exact hzero

theorem no_permit_of_unresolved (h : Settled st) {id : Nat} (hid : st.resolutions id = 0) :
    st.permits.get? id = none := by
  rw [Table.get?_eq_none]
  rintro p hp rfl
  obtain ⟨ms, hms⟩ := h.permitted p hp
  have := resolutions_pos hms
  omega

theorem no_permit_of_refused (h : Settled st) {id : Nat} {why : Refusal} {ms : Option Int}
    (hr : (id, Outcome.refused why ms) ∈ st.results) : st.permits.get? id = none := by
  rw [Table.get?_eq_none]
  rintro p hp rfl
  obtain ⟨ms', hms'⟩ := h.permitted p hp
  have hone := h.once p.id
  have hle : st.resolutions p.id ≤ 1 := by split at hone <;> omega
  -- two different results for one request would count twice
  have hdup : 2 ≤ st.resolutions p.id := by
    rw [resolutions, List.countP_eq_length_filter]
    have hsub : [(p.id, Outcome.refused why ms), (p.id, Outcome.admitted ms')] ⊆
        st.results.filter fun r => decide (r.1 = p.id) := by
      intro r hr'
      simp only [List.mem_cons, List.not_mem_nil, or_false] at hr'
      rcases hr' with rfl | rfl
      · exact List.mem_filter.2 ⟨hr, by simp⟩
      · exact List.mem_filter.2 ⟨hms', by simp⟩
    exact (List.subperm_of_subset (by simp) hsub).length_le
  omega

theorem of_eq (h : Settled st) {st' : AdmissionState} (hr : st'.results = st.results)
    (hq : st'.queue = st.queue)
    (hn : st'.nextRequest = st.nextRequest) (hp : ∀ p' ∈ st'.permits.rows, ∃ p ∈ st.permits.rows, p.id = p'.id) :
    Settled st' := by
  constructor
  · intro id
    simp only [resolutions, waiting, hr, hq, hn]
    exact h.once id
  · intro p' hp'
    obtain ⟨p, hpm, he⟩ := hp p' hp'
    rw [hr, ← he]
    exact h.permitted p hpm

/-- The three ways a promise resolves keep the invariant: the request leaves the queue, or it was
never in it; a permit of it may have been made. -/
theorem of_resolve (h : Settled st) {st' : AdmissionState} (id : Nat) (out : Outcome)
    (hr : st'.results = st.results ++ [(id, out)])
    (hw : ∀ id', st'.waiting id' + (if id = id' then 1 else 0) + (if id' < st.nextRequest then 1 else 0) =
      st.waiting id' + if id' < st'.nextRequest then 1 else 0)
    (hp : ∀ p' ∈ st'.permits.rows, (∃ p ∈ st.permits.rows, p.id = p'.id) ∨
      p'.id = id ∧ ∃ ms, out = .admitted ms) : Settled st' := by
  constructor
  · intro id'
    have hone := h.once id'
    have hw' := hw id'
    have hcount : st'.resolutions id' = st.resolutions id' + if id = id' then 1 else 0 := by
      rw [resolutions, hr, List.countP_append, List.countP_singleton]
      simp only [decide_eq_true_eq]
      rfl
    omega
  · intro p' hp'
    rw [hr]
    rcases hp p' hp' with ⟨p, hpm, he⟩ | ⟨he, ms, rfl⟩
    · obtain ⟨ms, hms⟩ := h.permitted p hpm
      exact ⟨ms, List.mem_append_left _ (he ▸ hms)⟩
    · exact ⟨ms, by rw [he]; exact List.mem_append_right _ (List.mem_singleton.2 rfl)⟩

end Settled

theorem waiting_erase (queue : Table Waiter.id) {w : Waiter} (hw : w ∈ queue.rows) (id : Nat) :
    (if ((queue.erase w.id).get? id).isSome then 1 else 0) + (if w.id = id then 1 else 0) =
      if (queue.get? id).isSome then 1 else 0 := by
  rw [Table.get?_erase]
  by_cases hid : id = w.id
  · subst hid
    simp [Table.get?_of_mem hw]
  · simp [hid, Ne.symm hid]

theorem permits_put_mem {permits : Table Permit.id} {p q : Permit}
    (hq : permits.get? p.id = some q) :
    ∀ p' ∈ (permits.put p).rows, ∃ x ∈ permits.rows, x.id = p'.id := by
  intro p' hp'
  rcases Table.mem_put.1 hp' with rfl | ⟨hp', -⟩
  · exact ⟨q, Table.get?_mem hq, Table.get?_key hq⟩
  · exact ⟨p', hp', rfl⟩

/-- What a sample leaves alone: it is about the limit only, and at most shrinks it. -/
structure Sampled (st st' : AdmissionState) : Prop where
  handlers : st'.handlers = st.handlers
  streams : st'.streams = st.streams
  objects : st'.objects = st.objects
  permits : st'.permits = st.permits
  queue : st'.queue = st.queue
  clients : st'.clients = st.clients
  nextObject : st'.nextObject = st.nextObject
  counters : st'.counters = st.counters
  grants : st'.grants = st.grants
  results : st'.results = st.results
  nextRequest : st'.nextRequest = st.nextRequest
  policy : st'.policy = st.policy
  pool : st'.pool = st.pool
  effective : st'.effective = st.effective ∨
    st'.effective = max st.policy.minStreams.1 (⌊(st.effective : ℚ) * (4 / 5)⌋.toNat)

/-- What a sample can do: it only writes its marks and the limit, and then a
healthy one may raise the limit. -/
def Observed (st out : AdmissionState) : Prop := ∃ st', Sampled st st' ∧ (out = st' ∨ st'.effective = st.effective ∧ out = st'.recover)

theorem Sampled.observed {st st' : AdmissionState}
    (h : Sampled st st') : Observed st st' := ⟨st', h, .inl rfl⟩

theorem Sampled.recovered {st st' : AdmissionState} (h : Sampled st st')
    (he : st'.effective = st.effective) : Observed st st'.recover :=
  ⟨st', h, .inr ⟨he, rfl⟩⟩

theorem Observed.ite {st a b : AdmissionState} {p : Prop} [Decidable p] (ha : Observed st a)
    (hb : Observed st b) :
    Observed st (if p then a else b) := by
  split
  · exact ha
  · exact hb

theorem observe_cases (st : AdmissionState) (sample : Sample) :
    Observed st (st.observe sample) := by
  unfold AdmissionState.observe
  refine .ite (Sampled.observed ⟨rfl, rfl, rfl, rfl, rfl, rfl, rfl, rfl, rfl, rfl, rfl, rfl, rfl, .inl rfl⟩) (.ite ?_ (.ite ?_ (.ite ?_ ?_)))
  · exact Sampled.observed ⟨rfl, rfl, rfl, rfl, rfl, rfl, rfl, rfl, rfl, rfl, rfl, rfl, rfl, .inl rfl⟩
  · exact Sampled.observed ⟨rfl, rfl, rfl, rfl, rfl, rfl, rfl, rfl, rfl, rfl, rfl, rfl, rfl, .inl rfl⟩
  · exact Sampled.observed ⟨rfl, rfl, rfl, rfl, rfl, rfl, rfl, rfl, rfl, rfl, rfl, rfl, rfl, .inl rfl⟩
  · refine .ite (Sampled.observed ⟨rfl, rfl, rfl, rfl, rfl, rfl, rfl, rfl, rfl, rfl, rfl, rfl, rfl, .inl rfl⟩) (.ite ?_ (.ite ?_ ?_))
    · exact Sampled.observed ⟨rfl, rfl, rfl, rfl, rfl, rfl, rfl, rfl, rfl, rfl, rfl, rfl, rfl, .inr rfl⟩
    · exact Sampled.recovered ⟨rfl, rfl, rfl, rfl, rfl, rfl, rfl, rfl, rfl, rfl, rfl, rfl, rfl, .inl rfl⟩ rfl
    · exact Sampled.observed ⟨rfl, rfl, rfl, rfl, rfl, rfl, rfl, rfl, rfl, rfl, rfl, rfl, rfl, .inl rfl⟩

namespace Inv

variable {st : AdmissionState}

theorem of_eq {st' : AdmissionState} (h : Inv st) (hh : st'.handlers = st.handlers)
    (hs : st'.streams = st.streams) (ho : st'.objects = st.objects) (hp : st'.permits = st.permits)
    (hq : st'.queue = st.queue) (hc : st'.clients = st.clients) (hn : st'.nextObject = st.nextObject)
    (hcount : st'.counters = st.counters) (hg : st'.grants = st.grants) (hr : st'.results = st.results)
    (hreq : st'.nextRequest = st.nextRequest) : Inv st' := by
  refine ⟨h.conserved.of_eq hh hs ho hp hq hc hn (by rw [hcount]) (by rw [hcount]) hg, ?_, ?_⟩
  · exact h.settled.of_eq hr hq hreq fun p hpm => ⟨p, hp ▸ hpm, rfl⟩
  · intro p hpm
    exact h.nested p (hp ▸ hpm)

theorem tick (h : Inv st) : Inv st.tick := h.of_eq rfl rfl rfl rfl rfl rfl rfl rfl rfl rfl rfl

theorem clean (h : Inv st) (key : String) : Inv (st.clean key) :=
  ⟨h.conserved.clean key, h.settled.of_eq rfl rfl rfl fun p hp => ⟨p, hp, rfl⟩, h.nested⟩

theorem stateFor (h : Inv st) (key : String) : Inv (st.stateFor key).1 := by
  have hconserved := h.conserved.stateFor key
  unfold AdmissionState.stateFor at hconserved ⊢
  split
  · exact h
  · rename_i hnone
    rw [hnone] at hconserved
    exact ⟨hconserved, h.settled.of_eq rfl rfl rfl fun p hp => ⟨p, hp, rfl⟩, h.nested⟩

/-! ## Settling a waiter -/

theorem settleNull (h : Inv st) {w : Waiter} (hw : w ∈ st.queue.rows) (why : Refusal) :
    Inv (st.settleNull w why) := by
  have hsettled := h.settled.not_settled hw
  simp only [AdmissionState.settleNull, hsettled, Bool.false_eq_true, if_false]
  refine ⟨(h.conserved.dequeue hw).of_eq rfl rfl rfl rfl rfl rfl rfl ?_ ?_ rfl, ?_, h.nested⟩
  · simp only; split <;> rfl
  · simp only; split <;> rfl
  · refine h.settled.of_resolve w.id _ rfl ?_ fun p hp => Or.inl ⟨p, hp, rfl⟩
    intro id
    have hq := waiting_erase st.queue hw id
    simp only [waiting, AdmissionState.tick, AdmissionState.dequeue, AdmissionState.clean, setObject,
      Conserved.spliceOut_of_mem hw]
    omega

theorem serveGrant (h : Inv st) {w : Waiter} (hw : w ∈ st.queue.rows)
    (hfits : st.fits w.client = true) :
    Inv ((st.grant w.id w.client w.state w.enqueuedAt).settleGrant w) := by
  have hnew := h.settled.no_permit_of_unresolved (h.settled.resolutions_of_mem hw)
  have hgrant := h.conserved.grant w.enqueuedAt hnew (h.conserved.waiterRecord w hw) hfits
  have hsettled : (st.grant w.id w.client w.state w.enqueuedAt).isSettled w.id = false := h.settled.not_settled hw
  simp only [AdmissionState.settleGrant, hsettled, Bool.false_eq_true, if_false]
  refine ⟨(hgrant.dequeue hw).of_eq rfl rfl rfl rfl rfl rfl rfl rfl rfl rfl, ?_, ?_⟩
  · refine h.settled.of_resolve w.id _ rfl ?_ ?_
    · intro id
      have hq := waiting_erase st.queue hw id
      simp only [waiting, AdmissionState.grant, AdmissionState.tick, AdmissionState.dequeue, AdmissionState.clean,
        setObject, Conserved.spliceOut_of_mem hw]
      omega
    · intro p hp
      rcases Table.mem_put.1 hp with rfl | ⟨hp, -⟩
      · exact Or.inr ⟨rfl, _, rfl⟩
      · exact Or.inl ⟨p, hp, rfl⟩
  · intro p hp
    rcases Table.mem_put.1 hp with rfl | ⟨hp, -⟩
    · exact fun _ => rfl
    · exact h.nested p hp

theorem mem_of_pick {w : Waiter} (hw : st.pick = some w) :
    w ∈ st.queue.rows ∧ st.fits w.client = true := by
  unfold pick at hw
  rcases Option.or_eq_some_iff.1 hw with hw | ⟨-, hw⟩
  · have hp := List.find?_some hw
    rw [Bool.and_eq_true] at hp
    exact ⟨List.mem_of_find?_eq_some hw, hp.2⟩
  · have hp := List.find?_some (p := fun w : Waiter => st.fits w.client) hw
    exact ⟨List.mem_of_find?_eq_some hw, hp⟩

theorem serve (h : Inv st) {w : Waiter} (hw : st.pick = some w) : Inv (st.serve w) := by
  obtain ⟨hmem, hfits⟩ := mem_of_pick hw
  unfold AdmissionState.serve
  split
  · exact h.settleNull hmem _
  split
  · exact h.tick.settleNull hmem _
  · exact h.tick.serveGrant hmem hfits

theorem drainLoop (h : Inv st) (n : Nat) : Inv (drainLoop n st) := by
  induction n generalizing st with
  | zero => exact h
  | succ n ih =>
    unfold AdmissionState.drainLoop
    split
    · exact h
    · rename_i w hw
      exact ih (h.serve hw)

theorem drain (h : Inv st) : Inv st.drain := h.drainLoop _

/-! ## A new request -/

theorem lt_next (id next : Nat) :
    (if next = id then 1 else 0) + (if id < next then 1 else 0) = if id < next + 1 then 1 else 0 := by
  split_ifs <;> omega

theorem resolve_new (h : Inv st) (out : Outcome) :
    Inv (st.newRequest.resolve st.nextRequest out) := by
  refine ⟨h.conserved.of_eq rfl rfl rfl rfl rfl rfl rfl rfl rfl rfl, ?_, h.nested⟩
  refine h.settled.of_resolve st.nextRequest _ rfl ?_ fun p hp => Or.inl ⟨p, hp, rfl⟩
  intro id
  have hnext := lt_next id st.nextRequest
  show st.waiting id + (if st.nextRequest = id then 1 else 0) + (if id < st.nextRequest then 1 else 0) =
    st.waiting id + if id < st.nextRequest + 1 then 1 else 0
  omega

theorem fresh (h : Inv st) : st.resolutions st.nextRequest = 0 ∧ st.waiting st.nextRequest = 0 := by
  have hone := h.settled.once st.nextRequest
  rw [if_neg (Nat.lt_irrefl _)] at hone
  omega

theorem grant_new (h : Inv st) {client : String} {o : Nat} (at_ ms : Int)
    (hrec : st.clients.get? client = some (client, o)) (hfits : st.fits client = true) :
    Inv ((st.newRequest.grant st.nextRequest client o at_).resolve st.nextRequest (.admitted ms)) := by
  have hnew := h.settled.no_permit_of_unresolved h.fresh.1
  have hgrant := h.conserved.grant at_ hnew hrec hfits
  refine ⟨hgrant.of_eq rfl rfl rfl rfl rfl rfl rfl rfl rfl rfl, ?_, ?_⟩
  · refine h.settled.of_resolve st.nextRequest _ rfl ?_ ?_
    · intro id
      have hnext := lt_next id st.nextRequest
      show st.waiting id + (if st.nextRequest = id then 1 else 0) + (if id < st.nextRequest then 1 else 0) =
        st.waiting id + if id < st.nextRequest + 1 then 1 else 0
      omega
    · intro p hp
      rcases Table.mem_put.1 hp with rfl | ⟨hp, -⟩
      · exact Or.inr ⟨rfl, _, rfl⟩
      · exact Or.inl ⟨p, hp, rfl⟩
  · intro p hp
    rcases Table.mem_put.1 hp with rfl | ⟨hp, -⟩
    · exact fun _ => rfl
    · exact h.nested p hp

theorem refuse_new (h : Inv st) (client : String) (refused : Int) (out : Outcome) :
    Inv (({ st.newRequest with counters := { st.newRequest.counters with refused } }.clean client).resolve
      st.nextRequest out) := by
  have hclean := h.clean client
  refine ⟨?_, ?_, h.nested⟩
  · have hcounters : Conserved { st.newRequest with counters := { st.newRequest.counters with refused } } :=
      h.conserved.of_eq rfl rfl rfl rfl rfl rfl rfl rfl rfl rfl
    exact (hcounters.clean client).of_eq rfl rfl rfl rfl rfl rfl rfl rfl rfl rfl
  · exact (h.resolve_new out).settled.of_eq rfl rfl rfl fun p hp => ⟨p, hp, rfl⟩

theorem enqueue_new (h : Inv st) {w : Waiter} (hid : w.id = st.nextRequest)
    (hrec : st.clients.get? w.client = some (w.client, w.state)) :
    Inv (st.newRequest.enqueue w) := by
  have hwait := h.fresh.2
  rw [waiting] at hwait
  have hnone : st.queue.get? w.id = none := by
    rw [hid]
    split at hwait
    · cases hwait
    · rename_i hs
      exact Option.not_isSome_iff_eq_none.1 hs
  have hconserved : Conserved st.newRequest := h.conserved.of_eq rfl rfl rfl rfl rfl rfl rfl rfl rfl rfl
  refine ⟨hconserved.enqueue hnone hrec, ⟨?_, h.settled.permitted⟩, h.nested⟩
  intro id
  have hone := h.settled.once id
  have hnext := lt_next id st.nextRequest
  have hput : (if ((st.queue.put w).get? id).isSome then 1 else 0) =
      (if st.nextRequest = id then 1 else 0) + st.waiting id := by
    rw [Table.get?_put, hid]
    by_cases hi : id = st.nextRequest
    · subst hi
      have := h.fresh.2
      simp [this]
    · simp only [waiting, if_neg hi, if_neg (Ne.symm hi), zero_add]
  show st.resolutions id + (if ((st.queue.put w).get? id).isSome then 1 else 0) = if id < st.nextRequest + 1 then 1 else 0
  omega

theorem stateFor_get? (st : AdmissionState) (key : String) :
    (st.stateFor key).1.clients.get? key = some (key, (st.stateFor key).2) := by
  unfold AdmissionState.stateFor
  split
  · rename_i e he
    have hkey : e.1 = key := Table.get?_key he
    subst hkey
    exact he
  · exact Table.get?_put_self _ _

theorem stateFor_newRequest (st : AdmissionState) (key : String) :
    (st.newRequest.stateFor key).1 = (st.stateFor key).1.newRequest ∧
      (st.newRequest.stateFor key).2 = (st.stateFor key).2 ∧
      (st.stateFor key).1.nextRequest = st.nextRequest := by
  unfold AdmissionState.stateFor newRequest
  simp only
  split <;> exact ⟨rfl, rfl, rfl⟩

theorem acquire (h : Inv st) (client : Option String) (signal : Option Nat)
    (deadline : Option Int) :
    Inv (st.acquire client signal deadline) := by
  unfold AdmissionState.acquire
  simp only
  split
  · exact h.tick.resolve_new _
  split
  · exact h.tick.resolve_new _
  -- from here on the request has its client's record
  have hstate := h.tick.stateFor (client.getD "anonymous")
  have hget := stateFor_get? st.tick (client.getD "anonymous")
  obtain ⟨hst, ho, hid⟩ := stateFor_newRequest st.tick (client.getD "anonymous")
  rw [show st.newRequest.tick = st.tick.newRequest from rfl, hst, ho,
    show st.nextRequest = (st.tick.stateFor (client.getD "anonymous")).1.nextRequest from hid.symm]
  generalize (st.tick.stateFor (client.getD "anonymous")).1 = st' at hstate hget
  generalize (st.tick.stateFor (client.getD "anonymous")).2 = o at hget
  split
  · rename_i hfits
    rw [Bool.and_eq_true] at hfits
    exact hstate.grant_new _ _ hget hfits.2
  split
  · exact hstate.refuse_new _ _ _
  have hqueued : ∀ w : Waiter, w.id = st'.nextRequest → st'.clients.get? w.client = some (w.client, w.state) →
      Inv (st'.newRequest.enqueue w) := fun _ => hstate.enqueue_new
  split
  · exact ((hqueued _ rfl hget).settleNull (Table.mem_put_self _ _) _).drain
  · exact (hqueued _ rfl hget).drain

/-! ## The other operations -/

theorem timeout (h : Inv st) (id : Nat) : Inv (st.timeout id) := by
  unfold AdmissionState.timeout
  split
  · rename_i w hw
    exact (h.settleNull (Table.get?_mem hw) _).drain
  · exact h

theorem onAbort (h : Inv st) (id : Nat) : Inv (st.onAbort id) := by
  unfold AdmissionState.onAbort
  split
  · rename_i w hw
    exact (h.settleNull (Table.get?_mem hw) _).drain
  · exact h

theorem abort (h : Inv st) (sig : Nat) : Inv (st.abort sig) := by
  unfold AdmissionState.abort
  split
  · exact h
  · have hflag : Inv { st with abortedSignals := sig :: st.abortedSignals } :=
      h.of_eq rfl rfl rfl rfl rfl rfl rfl rfl rfl rfl rfl
    exact run_inv (fun _ id hs => Inv.onAbort hs id) hflag

theorem settled_drop (h : Settled st) {p : Permit} (hp : st.permits.get? p.id = some p)
    {st' : AdmissionState}
    (p' : Permit) (hid : p'.id = p.id) (hpermits : st'.permits = st.permits.put p')
    (hr : st'.results = st.results) (hq : st'.queue = st.queue) (hn : st'.nextRequest = st.nextRequest) :
    Settled st' := by
  refine h.of_eq hr hq hn ?_
  rw [hpermits]
  exact permits_put_mem (hid ▸ hp)

theorem dropHandler_releaseHandler (hc : Conserved st) (hs : Settled st) {id : Nat}
    (hn : ∀ p ∈ st.permits.rows, p.id ≠ id → p.handlerHeld = true → p.streamHeld = true)
    {p : Permit} (hp : st.permits.get? id = some p) (hheld : p.handlerHeld = true) :
    Inv (st.dropHandler p) := by
  have hid : p.id = id := Table.get?_key hp
  subst hid
  refine ⟨hc.dropHandler hp hheld, settled_drop hs hp { p with handlerHeld := false } rfl rfl rfl rfl rfl, ?_⟩
  intro q hq
  rcases Table.mem_put.1 hq with rfl | ⟨hq, hne⟩
  · exact fun hf => absurd hf (by simp)
  · exact hn q hq hne

theorem releaseHandler (h : Inv st) (id : Nat) : Inv (st.releaseHandler id) := by
  unfold AdmissionState.releaseHandler
  split
  · rename_i p hp
    split
    · rename_i hheld
      exact (dropHandler_releaseHandler h.conserved h.settled (fun q hq _ => h.nested q hq) hp hheld).drain
    · exact h
  · exact h

/-- Between the two halves of `release` the permit holds a handler and no stream;
`releaseHandler` ends that. -/
theorem releaseHandler_dropStream (h : Inv st) {p : Permit} (hp : st.permits.get? p.id = some p)
    (hheld : p.streamHeld = true) :
    ((st.dropStream p).releaseHandler p.id = ((st.dropStream p).dropHandler { p with streamHeld := false }).drain ∧
      Inv ((st.dropStream p).dropHandler { p with streamHeld := false })) ∨
    ((st.dropStream p).releaseHandler p.id = st.dropStream p ∧ Inv (st.dropStream p)) := by
  have hc := h.conserved.dropStream hp hheld
  have hs : Settled (st.dropStream p) := settled_drop h.settled hp { p with streamHeld := false } rfl rfl rfl rfl rfl
  have hget : (st.dropStream p).permits.get? p.id = some { p with streamHeld := false } :=
    Table.get?_put_self st.permits { p with streamHeld := false }
  have hothers : ∀ q ∈ (st.dropStream p).permits.rows, q.id ≠ p.id → q.handlerHeld = true → q.streamHeld = true := by
    intro q hq hne
    rcases Table.mem_put.1 hq with rfl | ⟨hq, -⟩
    · exact absurd rfl hne
    · exact h.nested q hq
  unfold AdmissionState.releaseHandler
  rw [hget]
  simp only
  by_cases hh : p.handlerHeld = true
  · left
    rw [if_pos hh]
    exact ⟨rfl, dropHandler_releaseHandler hc hs hothers hget hh⟩
  · right
    rw [if_neg hh]
    refine ⟨rfl, hc, hs, fun q hq => ?_⟩
    rcases Table.mem_put.1 hq with rfl | ⟨hq, -⟩
    · exact fun hf => absurd hf hh
    · exact h.nested q hq

theorem release (h : Inv st) (id : Nat) : Inv (st.release id) := by
  unfold AdmissionState.release
  split
  swap
  · exact h
  rename_i p hp
  split
  swap
  · exact h
  rename_i hheld
  have hid : p.id = id := Table.get?_key hp
  subst hid
  rcases h.releaseHandler_dropStream hp hheld with ⟨heq, hinv⟩ | ⟨heq, hinv⟩
  · rw [heq]
    exact (hinv.drain.clean _).drain
  · rw [heq]
    exact (hinv.clean _).drain

theorem demand (h : Inv st) : Inv st.demand.1 := by
  unfold AdmissionState.demand
  split
  · exact h
  · exact h.tick

theorem recover (h : Inv st) : Inv st.recover := by
  have hhealthy : Inv { st with healthy := st.healthy + 1 } := h.of_eq rfl rfl rfl rfl rfl rfl rfl rfl rfl rfl rfl
  unfold AdmissionState.recover
  simp only
  split
  · exact hhealthy.of_eq rfl rfl rfl rfl rfl rfl rfl rfl rfl rfl rfl
  split
  · refine Inv.drain ?_
    exact hhealthy.demand.of_eq rfl rfl rfl rfl rfl rfl rfl rfl rfl rfl rfl
  · exact hhealthy.demand.of_eq rfl rfl rfl rfl rfl rfl rfl rfl rfl rfl rfl

theorem observe (h : Inv st) (sample : Sample) : Inv (st.observe sample) := by
  obtain ⟨st', hs, hobserve⟩ := observe_cases st sample
  have hinv : Inv st' := h.of_eq hs.handlers hs.streams hs.objects hs.permits hs.queue hs.clients hs.nextObject hs.counters hs.grants
    hs.results hs.nextRequest
  rcases hobserve with hobserve | ⟨-, hobserve⟩
  · rwa [hobserve]
  · rw [hobserve]
    exact recover hinv

theorem configure (h : Inv st) (input : Option PolicyInput) : Inv (st.configure input) := by
  unfold AdmissionState.configure
  split
  · exact h
  split
  · exact h
  · exact drain (h.of_eq rfl rfl rfl rfl rfl rfl rfl rfl rfl rfl rfl)

theorem step (h : Inv st) (op : AdmissionOp) : Inv (admissionStep st op) := by
  cases op with
  | acquire client signal deadline => exact h.acquire client signal deadline
  | abort sig => exact h.abort sig
  | timeout id => exact h.timeout id
  | release id => exact h.release id
  | releaseHandler id => exact h.releaseHandler id
  | observe sample => exact h.observe sample
  | configure input => exact h.configure input

end Inv

theorem inv_createResourceAdmission (clock : Nat → Int) (policy : AdmissionPolicy) :
    Inv (createResourceAdmission clock policy) := by
  refine ⟨⟨rfl, rfl, fun _ => rfl, fun _ => rfl, fun _ => rfl, ?_, ?_, ?_, List.nodup_nil, rfl, rfl, ?_⟩, ⟨?_, ?_⟩, ?_⟩
  · exact fun p hp => absurd hp List.not_mem_nil
  · exact fun w hw => absurd hw List.not_mem_nil
  · exact fun e he => absurd he List.not_mem_nil
  · exact fun g hg => absurd hg List.not_mem_nil
  · exact fun id => rfl
  · exact fun p hp => absurd hp List.not_mem_nil
  · exact fun p hp => absurd hp List.not_mem_nil

/-- **Invariant of every run.** -/
theorem inv_run {st : AdmissionState} (h : Inv st)
    (ops : List AdmissionOp) : Inv (run admissionStep st ops) :=
  run_inv (fun _ op hs => Inv.step hs op) h

end TokenProxy.Admission
