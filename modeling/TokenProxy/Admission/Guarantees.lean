import TokenProxy.Admission.Settlement

/-!
# What resource admission guarantees over every run

The per-client counts add up to the global ones, grants stay inside their limits, the loop of
`drain` runs until nobody fits, and a refused request never gets a permit later.
-/

namespace TokenProxy.Admission

open TokenProxy.Lib AdmissionState

variable {st : AdmissionState}

/-! ## Sums over the clients -/

theorem Conserved.sum_clients (h : Conserved st) (f : Permit → Int)
    (hf : ∀ p : Permit, f p ≠ 0 → p.live) :
    (st.clients.total fun e => st.permits.total fun p => if p.state = e.2 then f p else 0) = st.permits.total f := by
  have hgroup := Table.sum_total_group h.recordDistinct st.permits Permit.state f fun p hp hne =>
    List.mem_map.2 ⟨(p.client, p.state), Table.get?_mem (h.permitRecord p hp (hf p hne)), rfl⟩
  rw [List.map_map] at hgroup
  exact hgroup

theorem Permit.live_of_handlers {p : Permit} (h : p.handlers ≠ 0) : p.live := by
  unfold Permit.handlers at h
  split at h
  · rename_i hh
    exact Or.inl hh
  · exact absurd rfl h

theorem Permit.live_of_streams {p : Permit} (h : p.streams ≠ 0) : p.live := by
  unfold Permit.streams at h
  split at h
  · rename_i hs
    exact Or.inr hs
  · exact absurd rfl h

theorem Conserved.sum_clientHandlers (h : Conserved st) :
    (st.clients.total fun e => (st.objects e.2).handlers) = st.handlers := by
  rw [h.handlers, ← h.sum_clients Permit.handlers fun p => Permit.live_of_handlers]
  exact Table.total_congr _ fun e _ => h.clientHandlers e.2

theorem Conserved.sum_clientStreams (h : Conserved st) :
    (st.clients.total fun e => (st.objects e.2).streams) = st.streams := by
  rw [h.streams, ← h.sum_clients Permit.streams fun p => Permit.live_of_streams]
  exact Table.total_congr _ fun e _ => h.clientStreams e.2

theorem Inv.handlers_le_streams (h : Inv st) : st.handlers ≤ st.streams := by
  rw [h.conserved.handlers, h.conserved.streams]
  refine List.sum_le_sum fun p hp => ?_
  have hn := h.nested p hp
  unfold Permit.handlers Permit.streams
  split
  · rename_i hh
    rw [if_pos (hn hh)]
  · split <;> omega

/-! ## The loop of `drain` -/

theorem queue_length_eq (queue : Table Waiter.id) :
    (queue.total fun _ => 1) = queue.rows.length := by
  simp [Table.total]

theorem spliceOut_length {w : Waiter} (hw : w ∈ st.queue.rows) :
    (spliceOut st.queue w.id).rows.length + 1 = st.queue.rows.length := by
  rw [Conserved.spliceOut_of_mem hw, ← queue_length_eq, ← queue_length_eq]
  exact Table.total_erase_some (fun _ => 1) (Table.get?_of_mem hw)

theorem settleNull_length (h : Inv st) {w : Waiter} (hw : w ∈ st.queue.rows) (why : Refusal) :
    (st.settleNull w why).queue.rows.length + 1 = st.queue.rows.length := by
  simp only [AdmissionState.settleNull, h.settled.not_settled hw, Bool.false_eq_true, if_false]
  exact spliceOut_length hw

theorem serve_length (h : Inv st) {w : Waiter} (hw : st.pick = some w) :
    (st.serve w).queue.rows.length + 1 = st.queue.rows.length := by
  obtain ⟨hmem, -⟩ := Inv.mem_of_pick hw
  unfold AdmissionState.serve
  split
  · exact settleNull_length h hmem _
  split
  · exact settleNull_length h.tick hmem _
  · have hsettled : (st.tick.grant w.id w.client w.state w.enqueuedAt).isSettled w.id = false :=
      h.settled.not_settled hmem
    simp only [AdmissionState.settleGrant, hsettled, Bool.false_eq_true, if_false]
    exact spliceOut_length hmem

theorem drainLoop_pick (h : Inv st) (n : Nat)
    (hn : st.queue.rows.length ≤ n) : (drainLoop n st).pick = none := by
  induction n generalizing st with
  | zero =>
    have hnil : st.queue.rows = [] := List.length_eq_zero_iff.1 (Nat.le_zero.1 hn)
    simp [drainLoop, pick, hnil]
  | succ n ih =>
    unfold drainLoop
    split
    · rename_i hnone
      exact hnone
    · rename_i w hw
      have := serve_length h hw
      exact ih (h.serve hw) (by omega)

/-- **`drain` is complete**: when it returns, no queued request fits. -/
theorem drain_pick (h : Inv st) : st.drain.pick = none := drainLoop_pick h _ le_rfl

/-! ## What every operation keeps -/

/-- A resolved promise stays resolved, and the provider half of the state is left alone. -/
structure Extends (st st' : AdmissionState) : Prop where
  results : st.results ⊆ st'.results
  pool : st'.pool = st.pool

namespace Extends

theorem of_eq {st' : AdmissionState} (hr : st'.results = st.results)
    (hp : st'.pool = st.pool) : Extends st st' :=
  ⟨hr ▸ fun _ h => h, hp⟩

theorem refl (st : AdmissionState) : Extends st st := of_eq rfl rfl

theorem trans {a b c : AdmissionState} (hab : Extends a b) (hbc : Extends b c) : Extends a c :=
  ⟨fun _ h => hbc.results (hab.results h), hbc.pool.trans hab.pool⟩

theorem after {a b : AdmissionState} (h : Extends a b) (hr : a.results = st.results)
    (hp : a.pool = st.pool) :
    Extends st b :=
  (of_eq hr hp).trans h

theorem of_append {st' : AdmissionState} (rs : List (Nat × Outcome))
    (hr : st'.results = st.results ++ rs) (hp : st'.pool = st.pool) : Extends st st' :=
  ⟨fun _ h => hr ▸ List.mem_append_left _ h, hp⟩

theorem settleNull (st : AdmissionState) (w : Waiter)
    (why : Refusal) : Extends st (st.settleNull w why) := by
  unfold AdmissionState.settleNull
  split
  · exact refl st
  · exact of_append _ rfl rfl

theorem settleGrant (st : AdmissionState) (w : Waiter) : Extends st (st.settleGrant w) := by
  unfold AdmissionState.settleGrant
  split
  · exact refl st
  · exact of_append _ rfl rfl

theorem serve (st : AdmissionState) (w : Waiter) : Extends st (st.serve w) := by
  unfold AdmissionState.serve
  split
  · exact settleNull st w _
  split
  · exact after (settleNull st.tick w _) rfl rfl
  · exact after (settleGrant (st.tick.grant w.id w.client w.state w.enqueuedAt) w) rfl rfl

theorem drainLoop (n : Nat) (st : AdmissionState) : Extends st (drainLoop n st) := by
  induction n generalizing st with
  | zero => exact refl st
  | succ n ih =>
    unfold AdmissionState.drainLoop
    split
    · exact refl st
    · exact (serve st _).trans (ih _)

theorem drain (st : AdmissionState) : Extends st st.drain := drainLoop _ st

theorem onAbort (st : AdmissionState) (id : Nat) : Extends st (st.onAbort id) := by
  unfold AdmissionState.onAbort
  split
  · exact (settleNull st _ _).trans (drain _)
  · exact refl st

theorem timeout (st : AdmissionState) (id : Nat) : Extends st (st.timeout id) := by
  unfold AdmissionState.timeout
  split
  · exact (settleNull st _ _).trans (drain _)
  · exact refl st

theorem stateFor (st : AdmissionState) (key : String) : Extends st (st.stateFor key).1 := by
  unfold AdmissionState.stateFor
  split <;> exact of_eq rfl rfl

theorem acquire (st : AdmissionState) (client : Option String) (signal : Option Nat)
    (deadline : Option Int) :
    Extends st (st.acquire client signal deadline) := by
  unfold AdmissionState.acquire
  simp only
  have hstate : Extends st (st.newRequest.tick.stateFor (client.getD "anonymous")).1 :=
    after (stateFor _ _) rfl rfl
  split
  · exact of_append _ rfl rfl
  split
  · exact of_append _ rfl rfl
  split
  · exact hstate.trans (of_append _ rfl rfl)
  split
  · exact hstate.trans (of_append _ rfl rfl)
  have hqueued : ∀ w, Extends st ((st.newRequest.tick.stateFor (client.getD "anonymous")).1.enqueue w) :=
    fun w => hstate.trans (of_eq rfl rfl)
  split
  · exact (hqueued _).trans ((settleNull _ _ _).trans (drain _))
  · exact (hqueued _).trans (drain _)

theorem releaseHandler (st : AdmissionState) (id : Nat) : Extends st (st.releaseHandler id) := by
  unfold AdmissionState.releaseHandler
  split
  · split
    · exact after (drain _) rfl rfl
    · exact refl st
  · exact refl st

theorem release (st : AdmissionState) (id : Nat) : Extends st (st.release id) := by
  unfold AdmissionState.release
  split
  · split
    · rename_i p _ _
      have hstream : Extends st (st.dropStream p) := of_eq rfl rfl
      have hclean : Extends ((st.dropStream p).releaseHandler id)
          (((st.dropStream p).releaseHandler id).clean p.client) := of_eq rfl rfl
      exact hstream.trans ((releaseHandler _ id).trans (hclean.trans (drain _)))
    · exact refl st
  · exact refl st

theorem demand (st : AdmissionState) : Extends st st.demand.1 := by
  unfold AdmissionState.demand
  split <;> exact of_eq rfl rfl

theorem recover (st : AdmissionState) : Extends st st.recover := by
  unfold AdmissionState.recover
  simp only
  have hdemand : Extends st ({ st with healthy := st.healthy + 1 } : AdmissionState).demand.1 :=
    after (demand _) rfl rfl
  split
  · exact of_eq rfl rfl
  split
  · exact hdemand.trans (after (drain _) rfl rfl)
  · exact hdemand.trans (of_eq rfl rfl)

theorem observe (st : AdmissionState) (sample : Sample) : Extends st (st.observe sample) := by
  obtain ⟨st', hs, hobserve⟩ := observe_cases st sample
  rcases hobserve with hobserve | ⟨-, hobserve⟩
  · rw [hobserve]
    exact of_eq hs.results hs.pool
  · rw [hobserve]
    exact after (recover st') hs.results hs.pool

theorem configure (st : AdmissionState) (input : Option PolicyInput) :
    Extends st (st.configure input) := by
  unfold AdmissionState.configure
  split
  · exact refl st
  split
  · exact refl st
  · exact after (drain _) rfl rfl

theorem step (st : AdmissionState) (op : AdmissionOp) : Extends st (admissionStep st op) := by
  cases op with
  | acquire client signal deadline => exact acquire st client signal deadline
  | abort sig =>
    simp only [admissionStep, AdmissionState.abort]
    split
    · exact refl st
    · exact run_inv (I := fun st' => Extends st st') (fun st' id hs => hs.trans (onAbort st' id)) (of_eq rfl rfl)
  | timeout id => exact timeout st id
  | release id => exact release st id
  | releaseHandler id => exact releaseHandler st id
  | observe sample => exact observe st sample
  | configure input => exact configure st input

end Extends

/-- A request that was aborted or timed out, or found the queue full, holds
no permit in any later state. -/
theorem refused_never_holds (h : Inv st) {id : Nat} {why : Refusal} {ms : Option Int}
    (hr : (id, Outcome.refused why ms) ∈ st.results) (later : List AdmissionOp) :
    (run admissionStep st later).permits.get? id = none := by
  have hstays : (id, Outcome.refused why ms) ∈ (run admissionStep st later).results :=
    run_inv (I := fun st : AdmissionState => (id, Outcome.refused why ms) ∈ st.results)
      (fun st op hs => (Extends.step st op).results hs) hr
  exact (inv_run h later).settled.no_permit_of_refused hstays

/-- **Resource admission conserves its counters and keeps its limits**, after every sequence of
operations by any clients, whatever the clock reads. -/
theorem resourceAdmission_conserves (clock : Nat → Int) (policy : AdmissionPolicy)
    (ops : List AdmissionOp) :
    let st := run admissionStep (createResourceAdmission clock policy) ops
    (st.clients.total fun e => (st.objects e.2).handlers) = st.handlers ∧
    (st.clients.total fun e => (st.objects e.2).streams) = st.streams ∧
    st.counters.admitted - st.counters.released = st.streams ∧
    st.streams = st.permits.total Permit.streams ∧
    st.handlers ≤ st.streams ∧
    (st.grants.length = st.counters.admitted ∧ ∀ g ∈ st.grants, g.Within) ∧
    (∀ id < st.nextRequest, st.resolutions id + st.waiting id = 1) ∧
    ∀ id why ms, (id, Outcome.refused why ms) ∈ st.results →
      ∀ later, (run admissionStep st later).permits.get? id = none := by
  intro st
  have h : Inv st := inv_run (inv_createResourceAdmission clock policy) ops
  refine ⟨h.conserved.sum_clientHandlers, h.conserved.sum_clientStreams, h.conserved.balance, h.conserved.streams,
    h.handlers_le_streams, ⟨h.conserved.logged, h.conserved.within⟩, ?_, ?_⟩
  · intro id hid
    have hone := h.settled.once id
    rwa [if_pos hid] at hone
  · exact fun id why ms hr later => refused_never_holds h hr later

end TokenProxy.Admission
