import TokenProxy.Admission.ResourceAdmission

/-!
# Resource admission conserves its counters and keeps its limits

Two invariants carry every result. `Conserved` says that each counter counts what it claims to: the
permits whose flag is up, and the queued waiters, each attributed to the per-client record its
closure captured, which is the record its client maps to as long as it counts. `Settled` says that
each request is either queued or has its promise resolved, once, and that permits belong to admitted
requests.

Every operation is a sequence of a few writes (`grant`, `dequeue`, `dropStream`, …); each write has
one lemma for `Conserved`, and the operations with their drains follow.
-/

namespace TokenProxy.Admission

open TokenProxy.Lib AdmissionState

def Permit.handlers (p : Permit) : Int := if p.handlerHeld then 1 else 0

def Permit.streams (p : Permit) : Int := if p.streamHeld then 1 else 0

def Permit.live (p : Permit) : Prop := p.handlerHeld = true ∨ p.streamHeld = true

theorem Permit.handlers_nonneg (p : Permit) : 0 ≤ p.handlers := by
  unfold Permit.handlers; split <;> omega

theorem Permit.streams_nonneg (p : Permit) : 0 ≤ p.streams := by
  unfold Permit.streams; split <;> omega

/-- The totals a grant left are inside the limits it was made under. -/
structure Grant.Within (g : Grant) : Prop where
  handlers : g.handlers ≤ g.policy.maxHandlers.1
  streams : g.streams ≤ g.limit
  clientHandlers : g.clientHandlers ≤ g.policy.clientHandlers.1
  clientStreams : g.clientStreams ≤ min g.policy.clientStreams.1 (max 1 (g.limit / 2))

/-- Every counter counts the permits, or the waiters, that it stands for. -/
structure Conserved (st : AdmissionState) : Prop where
  handlers : st.handlers = st.permits.total Permit.handlers
  streams : st.streams = st.permits.total Permit.streams
  clientHandlers : ∀ o, (st.objects o).handlers = st.permits.total fun p => if p.state = o then p.handlers else 0
  clientStreams : ∀ o, (st.objects o).streams = st.permits.total fun p => if p.state = o then p.streams else 0
  clientQueued : ∀ o, (st.objects o).queued = st.queue.total fun w => if w.state = o then 1 else 0
  permitRecord : ∀ p ∈ st.permits.rows, p.live → st.clients.get? p.client = some (p.client, p.state)
  waiterRecord : ∀ w ∈ st.queue.rows, st.clients.get? w.client = some (w.client, w.state)
  recordFresh : ∀ e ∈ st.clients.rows, e.2 < st.nextObject
  recordDistinct : (st.clients.rows.map Prod.snd).Nodup
  balance : st.counters.admitted - st.counters.released = st.streams
  logged : (st.grants.length : Int) = st.counters.admitted
  within : ∀ g ∈ st.grants, g.Within

namespace Conserved

variable {st : AdmissionState}

theorem of_eq {st' : AdmissionState} (h : Conserved st) (hh : st'.handlers = st.handlers)
    (hs : st'.streams = st.streams) (ho : st'.objects = st.objects) (hp : st'.permits = st.permits)
    (hq : st'.queue = st.queue) (hc : st'.clients = st.clients) (hn : st'.nextObject = st.nextObject)
    (ha : st'.counters.admitted = st.counters.admitted) (hr : st'.counters.released = st.counters.released)
    (hg : st'.grants = st.grants) : Conserved st' := by
  obtain ⟨h1, h2, h3, h4, h5, h6, h7, h8, h9, h10, h11, h12⟩ := h
  constructor
  · rw [hh, hp]; exact h1
  · rw [hs, hp]; exact h2
  · rw [ho, hp]; exact h3
  · rw [ho, hp]; exact h4
  · rw [ho, hq]; exact h5
  · rw [hp, hc]; exact h6
  · rw [hq, hc]; exact h7
  · rw [hc, hn]; exact h8
  · rw [hc]; exact h9
  · rw [ha, hr, hs]; exact h10
  · rw [hg, ha]; exact h11
  · rw [hg]; exact h12

/-! ## The record of a client in use -/

theorem one_le_clientHandlers (h : Conserved st) {p : Permit} (hp : p ∈ st.permits.rows)
    (hh : p.handlerHeld = true) : 1 ≤ (st.objects p.state).handlers := by
  rw [h.clientHandlers]
  have := Table.le_total (t := st.permits) (g := fun q => if q.state = p.state then q.handlers else 0)
    (fun q _ => by split <;> simp [Permit.handlers_nonneg]) hp
  simpa [Permit.handlers, hh] using this

theorem one_le_clientStreams (h : Conserved st) {p : Permit} (hp : p ∈ st.permits.rows)
    (hh : p.streamHeld = true) : 1 ≤ (st.objects p.state).streams := by
  rw [h.clientStreams]
  have := Table.le_total (t := st.permits) (g := fun q => if q.state = p.state then q.streams else 0)
    (fun q _ => by split <;> simp [Permit.streams_nonneg]) hp
  simpa [Permit.streams, hh] using this

theorem one_le_clientQueued (h : Conserved st) {w : Waiter} (hw : w ∈ st.queue.rows) :
    1 ≤ (st.objects w.state).queued := by
  rw [h.clientQueued]
  have := Table.le_total (t := st.queue) (g := fun q => if q.state = w.state then (1 : Int) else 0)
    (fun q _ => by split <;> simp) hw
  simpa using this

theorem not_idle_of_live (h : Conserved st) {p : Permit} (hp : p ∈ st.permits.rows) (hl : p.live) :
    (st.objects p.state).idle = false := by
  rcases hl with hl | hl
  · have := h.one_le_clientHandlers hp hl
    simp [ClientState.idle, show (st.objects p.state).handlers ≠ 0 by omega]
  · have := h.one_le_clientStreams hp hl
    simp [ClientState.idle, show (st.objects p.state).streams ≠ 0 by omega]

theorem not_idle_of_queued (h : Conserved st) {w : Waiter} (hw : w ∈ st.queue.rows) :
    (st.objects w.state).idle = false := by
  have := h.one_le_clientQueued hw
  simp [ClientState.idle, show (st.objects w.state).queued ≠ 0 by omega]

theorem clean (h : Conserved st) (key : String) : Conserved (st.clean key) := by
  unfold AdmissionState.clean
  cases hk : st.clients.get? key with
  | none => exact h.of_eq rfl rfl rfl rfl rfl rfl rfl rfl rfl rfl
  | some e =>
    by_cases hidle : (st.objects e.2).idle = true
    · have hne : ∀ k o, st.clients.get? k = some (k, o) → (st.objects o).idle = false → k ≠ key := by
        rintro k o hget hbusy rfl
        rw [hk] at hget
        obtain rfl := Option.some.inj hget
        rw [hidle] at hbusy
        cases hbusy
      simp only [hidle, if_true]
      refine ⟨h.handlers, h.streams, h.clientHandlers, h.clientStreams, h.clientQueued, ?_, ?_, ?_, ?_, h.balance,
        h.logged, h.within⟩
      · intro p hp hl
        have hget := h.permitRecord p hp hl
        rw [Table.get?_erase, if_neg (hne _ _ hget (h.not_idle_of_live hp hl))]
        exact hget
      · intro w hw
        have hget := h.waiterRecord w hw
        rw [Table.get?_erase, if_neg (hne _ _ hget (h.not_idle_of_queued hw))]
        exact hget
      · exact fun e he => h.recordFresh e (Table.mem_erase.1 he).1
      · exact (List.filter_sublist.map Prod.snd).nodup h.recordDistinct
    · simp only [hidle]
      exact h.of_eq rfl rfl rfl rfl rfl rfl rfl rfl rfl rfl

theorem stateFor (h : Conserved st) (key : String) : Conserved (st.stateFor key).1 := by
  unfold AdmissionState.stateFor
  cases hk : st.clients.get? key with
  | some e => exact h
  | none =>
    simp only
    have hne : ∀ k e, st.clients.get? k = some e → k ≠ key := by
      rintro k e hget rfl
      rw [hk] at hget
      cases hget
    refine ⟨h.handlers, h.streams, h.clientHandlers, h.clientStreams, h.clientQueued, ?_, ?_, ?_, ?_, h.balance,
      h.logged, h.within⟩
    · intro p hp hl
      have hget := h.permitRecord p hp hl
      rw [Table.get?_put_ne _ (hne _ _ hget)]
      exact hget
    · intro w hw
      have hget := h.waiterRecord w hw
      rw [Table.get?_put_ne _ (hne _ _ hget)]
      exact hget
    · intro e he
      rcases Table.mem_put.1 he with rfl | ⟨he, -⟩
      · exact Nat.lt_succ_self _
      · exact Nat.lt_succ_of_lt (h.recordFresh e he)
    · have hrows : (st.clients.put (key, st.nextObject)).rows = st.clients.rows ++ [(key, st.nextObject)] := by
        unfold Table.put
        rw [dif_pos hk]
      simp only [hrows, List.map_append, List.map_singleton]
      refine List.nodup_append.2 ⟨h.recordDistinct, List.nodup_singleton _, ?_⟩
      intro a ha b hb hab
      obtain ⟨e, he, rfl⟩ := List.mem_map.1 ha
      have := h.recordFresh e he
      rw [List.mem_singleton] at hb
      omega

/-! ## Writing a permit -/

/-- The one effect of `grant`, `dropHandler` and `dropStream` on the counters: a permit
is written, and the record it captured and the totals move by the units it holds more
(or less) than it did before. -/
theorem put_permit (h : Conserved st) {st' : AdmissionState} (p : Permit) (dh ds : Int)
    (hold : ∀ q, st.permits.get? p.id = some q → q.state = p.state)
    (hrec : p.live → st.clients.get? p.client = some (p.client, p.state))
    (hdh : dh + (st.permits.get? p.id).elim 0 Permit.handlers = p.handlers)
    (hds : ds + (st.permits.get? p.id).elim 0 Permit.streams = p.streams)
    (hpermits : st'.permits = st.permits.put p)
    (hobj : st'.objects = Function.update st.objects p.state
      { st.objects p.state with
        handlers := (st.objects p.state).handlers + dh, streams := (st.objects p.state).streams + ds })
    (hh : st'.handlers = st.handlers + dh) (hs : st'.streams = st.streams + ds)
    (hbal : st'.counters.admitted - st'.counters.released = st.counters.admitted - st.counters.released + ds)
    (hq : st'.queue = st.queue) (hc : st'.clients = st.clients) (hn : st'.nextObject = st.nextObject)
    (hlog : (st'.grants.length : Int) - st'.counters.admitted = st.grants.length - st.counters.admitted)
    (hg : ∀ g ∈ st'.grants, g ∈ st.grants ∨ g.Within) : Conserved st' := by
  -- the total of `f` over the permits of one record, before and after
  have hgroup : ∀ (f : Permit → Int) (d : Int) (o : Nat), d + (st.permits.get? p.id).elim 0 f = f p →
      (st.permits.put p).total (fun q => if q.state = o then f q else 0) =
        (st.permits.total fun q => if q.state = o then f q else 0) + if o = p.state then d else 0 := by
    intro f d o hd
    have ht := st.permits.total_put (fun q => if q.state = o then f q else 0) p
    by_cases ho : o = p.state
    · cases hget : st.permits.get? p.id with
      | none => simp only [hget, Option.elim_none, if_pos ho.symm, if_pos ho] at hd ht ⊢; omega
      | some q =>
        have hqs := hold q hget
        simp only [hget, Option.elim_some, if_pos ho.symm, if_pos ho, hqs] at hd ht ⊢
        omega
    · cases hget : st.permits.get? p.id with
      | none => simp only [hget, Option.elim_none, if_neg (Ne.symm ho), if_neg ho] at ht ⊢; omega
      | some q =>
        have hqs := hold q hget
        simp only [hget, Option.elim_some, if_neg (Ne.symm ho), if_neg ho, hqs] at ht ⊢
        omega
  have hall : ∀ (f : Permit → Int) (d : Int), d + (st.permits.get? p.id).elim 0 f = f p →
      (st.permits.put p).total f = st.permits.total f + d := by
    intro f d hd
    have ht := st.permits.total_put f p
    omega
  refine ⟨?_, ?_, ?_, ?_, ?_, ?_, ?_, ?_, ?_, ?_, ?_, ?_⟩
  · rw [hh, hpermits, hall _ _ hdh, h.handlers]
  · rw [hs, hpermits, hall _ _ hds, h.streams]
  · intro o
    rw [hobj, hpermits, hgroup _ _ o hdh, Function.update_apply, ← h.clientHandlers o]
    by_cases ho : o = p.state
    · simp [ho]
    · simp [ho]
  · intro o
    rw [hobj, hpermits, hgroup _ _ o hds, Function.update_apply, ← h.clientStreams o]
    by_cases ho : o = p.state
    · simp [ho]
    · simp [ho]
  · intro o
    rw [hobj, hq, ← h.clientQueued o, Function.update_apply]
    by_cases ho : o = p.state
    · simp [ho]
    · simp [ho]
  · intro q hqm hl
    rw [hpermits] at hqm
    rw [hc]
    rcases Table.mem_put.1 hqm with rfl | ⟨hqm, -⟩
    · exact hrec hl
    · exact h.permitRecord q hqm hl
  · rw [hq, hc]; exact h.waiterRecord
  · rw [hc, hn]; exact h.recordFresh
  · rw [hc]; exact h.recordDistinct
  · rw [hbal, hs, h.balance]
  · have := h.logged
    omega
  · exact fun g hgm => (hg g hgm).elim (h.within g) id

theorem grant (h : Conserved st) {id : Nat} {client : String} {o : Nat} (at_ : Int)
    (hnew : st.permits.get? id = none) (hrec : st.clients.get? client = some (client, o))
    (hfits : st.fits client = true) : Conserved (st.grant id client o at_) := by
  have hold : ∀ q, st.permits.get? id = some q → q.state = o := by
    intro q hq
    rw [hnew] at hq
    cases hq
  refine h.put_permit { id, client, state := o, waitedMs := max 0 (st.now - at_) } 1 1 hold (fun _ => hrec)
    (by rw [hnew]; rfl) (by rw [hnew]; rfl) rfl rfl rfl rfl ?_ rfl rfl rfl ?_ ?_
  · simp only [AdmissionState.grant]; omega
  · simp only [AdmissionState.grant, List.length_append, List.length_singleton]; omega
  · intro g hg
    rcases List.mem_append.1 hg with hg | hg
    · exact Or.inl hg
    · obtain rfl := List.mem_singleton.1 hg
      simp only [fits, clientState, hrec, Bool.and_eq_true, decide_eq_true_eq] at hfits
      obtain ⟨⟨⟨f1, f2⟩, f3⟩, f4⟩ := hfits
      have f4' : (st.objects o).streams + 1 ≤ (st.clientShare : Int) := by omega
      refine Or.inr ⟨by simp only; omega, by simp only; omega, by simp only; omega, ?_⟩
      simpa only [clientShare, Nat.cast_min, Nat.cast_max, Nat.cast_one, Int.natCast_ediv, Nat.cast_ofNat] using f4'

theorem dropHandler (h : Conserved st) {p : Permit} (hp : st.permits.get? p.id = some p)
    (hheld : p.handlerHeld = true) : Conserved (st.dropHandler p) := by
  refine Conserved.clean ?_ p.client
  refine h.put_permit { p with handlerHeld := false } (-1) 0 ?_ ?_ ?_ ?_ rfl ?_ ?_ ?_ ?_ rfl rfl rfl rfl
    fun g hg => Or.inl hg
  · intro q hq
    rw [hp] at hq
    rw [← Option.some.inj hq]
  · exact fun _ => h.permitRecord p (Table.get?_mem hp) (Or.inl hheld)
  · rw [hp]; simp [Permit.handlers, hheld]
  · rw [hp]; simp [Permit.streams]
  · simp [setObject, sub_eq_add_neg]
  · rfl
  · simp [setObject]
  · simp [setObject]

theorem dropStream (h : Conserved st) {p : Permit} (hp : st.permits.get? p.id = some p)
    (hheld : p.streamHeld = true) : Conserved (st.dropStream p) := by
  refine h.put_permit { p with streamHeld := false } 0 (-1) ?_ ?_ ?_ ?_ rfl ?_ ?_ ?_ ?_ rfl rfl rfl rfl
    fun g hg => Or.inl hg
  · intro q hq
    rw [hp] at hq
    rw [← Option.some.inj hq]
  · exact fun _ => h.permitRecord p (Table.get?_mem hp) (Or.inr hheld)
  · rw [hp]; simp [Permit.handlers]
  · rw [hp]; simp [Permit.streams, hheld]
  · simp [AdmissionState.dropStream, setObject, sub_eq_add_neg]
  · simp [AdmissionState.dropStream, setObject]
  · rfl
  · simp only [AdmissionState.dropStream, setObject]; omega

/-! ## Writing the queue -/

theorem put_queue (h : Conserved st) {st' : AdmissionState} (o : Nat) (d : Int)
    (hobj : st'.objects = Function.update st.objects o
      { st.objects o with queued := (st.objects o).queued + d })
    (hqueue : ∀ o', st'.queue.total (fun w => if w.state = o' then (1 : Int) else 0) =
      (st.queue.total fun w => if w.state = o' then 1 else 0) + if o' = o then d else 0)
    (hrec : ∀ w ∈ st'.queue.rows, st.clients.get? w.client = some (w.client, w.state))
    (hh : st'.handlers = st.handlers) (hs : st'.streams = st.streams) (hp : st'.permits = st.permits)
    (hc : st'.clients = st.clients) (hn : st'.nextObject = st.nextObject) (hcount : st'.counters = st.counters)
    (hg : st'.grants = st.grants) : Conserved st' := by
  refine ⟨?_, ?_, ?_, ?_, ?_, ?_, ?_, ?_, ?_, ?_, ?_, ?_⟩
  · rw [hh, hp]; exact h.handlers
  · rw [hs, hp]; exact h.streams
  · intro o'
    rw [hobj, hp, ← h.clientHandlers o', Function.update_apply]
    by_cases ho : o' = o
    · simp [ho]
    · simp [ho]
  · intro o'
    rw [hobj, hp, ← h.clientStreams o', Function.update_apply]
    by_cases ho : o' = o
    · simp [ho]
    · simp [ho]
  · intro o'
    rw [hobj, hqueue o', ← h.clientQueued o', Function.update_apply]
    by_cases ho : o' = o
    · simp [ho]
    · simp [ho]
  · rw [hp, hc]; exact h.permitRecord
  · rw [hc]; exact hrec
  · rw [hc, hn]; exact h.recordFresh
  · rw [hc]; exact h.recordDistinct
  · rw [hcount, hs]; exact h.balance
  · rw [hcount, hg]; exact h.logged
  · rw [hg]; exact h.within

theorem enqueue (h : Conserved st) {w : Waiter} (hnew : st.queue.get? w.id = none)
    (hrec : st.clients.get? w.client = some (w.client, w.state)) : Conserved (st.enqueue w) := by
  refine h.put_queue w.state 1 rfl ?_ ?_ rfl rfl rfl rfl rfl rfl rfl
  · intro o
    simp only [AdmissionState.enqueue, setObject]
    rw [Table.total_put_none _ hnew]
    simp only [eq_comm]
  · intro x hx
    rcases Table.mem_put.1 hx with rfl | ⟨hx, -⟩
    · exact hrec
    · exact h.waiterRecord x hx

theorem spliceOut_of_mem {queue : Table Waiter.id} {w : Waiter} (hw : w ∈ queue.rows) :
    spliceOut queue w.id = queue.erase w.id := by
  rw [spliceOut, Table.get?_of_mem hw, if_pos (Option.isSome_some)]

theorem dequeue (h : Conserved st) {w : Waiter}
    (hw : w ∈ st.queue.rows) : Conserved (st.dequeue w) := by
  refine Conserved.clean ?_ w.client
  refine h.put_queue w.state (-1) ?_ ?_ ?_ rfl rfl rfl rfl rfl rfl rfl
  · simp [setObject, sub_eq_add_neg]
  · intro o
    simp only [setObject, spliceOut_of_mem hw]
    have ht := Table.total_erase_some (fun x : Waiter => if x.state = o then (1 : Int) else 0) (Table.get?_of_mem hw)
    simp only [eq_comm (a := w.state)] at ht
    split at ht <;> rename_i ho
    · rw [if_pos ho]; omega
    · rw [if_neg ho]; omega
  · intro x hx
    simp only [setObject, spliceOut_of_mem hw] at hx
    exact h.waiterRecord x (Table.mem_erase.1 hx).1

end Conserved

end TokenProxy.Admission
