import TokenProxy.Admission.Guarantees

/-!
# Nobody waits who could be granted, and nobody overtakes

An operation either ends with `drain`, which runs until nobody fits (`drain_pick`), or it leaves the
waiters as they were and takes no room away from what made them wait (`Rested.of_le`). Per client,
the requests that were granted and then those that still wait stand in the order of their arrival
(`InLine`).
-/

namespace TokenProxy.Admission

open TokenProxy.Lib AdmissionState

variable {st st' : AdmissionState}

/-! ## The loop of `drain` as the source has it -/

/-- The loop of `drain` runs from one state to another: it ends when nobody fits. -/
inductive DrainsTo : AdmissionState → AdmissionState → Prop
  | done {st : AdmissionState} : st.pick = none → DrainsTo st st
  | turn {st st' : AdmissionState} {w : Waiter} : st.pick = some w → DrainsTo (st.serve w) st' → DrainsTo st st'

theorem drainLoop_drainsTo (h : Inv st) (n : Nat)
    (hn : st.queue.rows.length ≤ n) : DrainsTo st (drainLoop n st) := by
  induction n generalizing st with
  | zero =>
    have hnil : st.queue.rows = [] := List.length_eq_zero_iff.mp (Nat.le_zero.mp hn)
    apply DrainsTo.done
    simp [pick, hnil]
  | succ n ih =>
    unfold drainLoop
    cases hpick : st.pick with
    | none => exact .done hpick
    | some w =>
      have := serve_length h hpick
      exact .turn hpick (ih (h.serve hpick) (by omega))

/-- **The loop ends**, in the state that `drain` computes. -/
theorem drain_drainsTo (h : Inv st) : DrainsTo st st.drain := drainLoop_drainsTo h _ le_rfl

/-! ## Nobody fits -/

def Rested (st : AdmissionState) : Prop := ∀ w ∈ st.queue.rows, st.fits w.client = false

theorem rested_of_pick (h : st.pick = none) : Rested st := by
  intro w hw
  have hnone := (Option.or_eq_none_iff.mp h).2
  rw [List.find?_eq_none] at hnone
  simpa using hnone w hw

theorem Inv.rested_drain (h : Inv st) : Rested st.drain := rested_of_pick (drain_pick h)

theorem Conserved.clientState (h : Conserved st) {w : Waiter} (hw : w ∈ st.queue.rows) :
    st.clientState w.client = st.objects w.state := by
  unfold AdmissionState.clientState
  rw [h.waiterRecord w hw]

theorem clientShare_mono (hpolicy : st'.policy = st.policy)
    (hlimit : st'.currentLimit ≤ st.currentLimit) :
    st'.clientShare ≤ st.clientShare := by
  unfold clientShare
  rw [hpolicy]
  have hhalf : st'.currentLimit / 2 ≤ st.currentLimit / 2 := Nat.div_le_div_right hlimit
  omega

theorem Rested.of_le (h : Rested st) (hc : Conserved st) (hc' : Conserved st')
    (hq : st'.queue.rows ⊆ st.queue.rows)
    (ho : st'.objects = st.objects) (hh : st'.handlers = st.handlers) (hs : st'.streams = st.streams)
    (hp : st'.policy = st.policy) (hlimit : st'.currentLimit ≤ st.currentLimit) : Rested st' := by
  intro w hw
  have hold := h w (hq hw)
  have hshare := clientShare_mono hp hlimit
  unfold fits at hold ⊢
  rw [hc.clientState (hq hw)] at hold
  rw [hc'.clientState hw, ho, hh, hs, hp]
  simp only [Bool.and_eq_false_iff, decide_eq_false_iff_not, not_lt] at hold ⊢
  omega

/-! ## In line -/

/-- The requests of a client that were granted, then those that wait. -/
def lineOf (st : AdmissionState) (client : String) : List Nat :=
  ((st.grants.filter fun g => g.client = client).map Grant.request) ++
    (st.queue.rows.filter fun w => w.client = client).map Waiter.id

structure InLine (st : AdmissionState) : Prop where
  order : ∀ client, (lineOf st client).Pairwise (· < ·)
  old : ∀ client, ∀ id ∈ lineOf st client, id < st.nextRequest

theorem InLine.shrink (h : InLine st) (hg : st'.grants = st.grants)
    (hq : List.Sublist st'.queue.rows st.queue.rows)
    (hn : st.nextRequest ≤ st'.nextRequest) : InLine st' := by
  have hsub : ∀ client, List.Sublist (lineOf st' client) (lineOf st client) := by
    intro client
    unfold lineOf
    rw [hg]
    exact (List.Sublist.refl _).append ((hq.filter _).map _)
  constructor
  · intro client
    exact (h.order client).sublist (hsub client)
  · intro client id hid
    have := h.old client id ((hsub client).subset hid)
    omega

theorem InLine.snoc (h : InLine st) (client : String) (hn : st'.nextRequest = st.nextRequest + 1)
    (hline : ∀ c, lineOf st' c = lineOf st c ++ if client = c then [st.nextRequest] else []) :
    InLine st' := by
  constructor
  · intro c
    rw [hline c, List.pairwise_append]
    refine ⟨h.order c, ?_, fun a ha b hb => ?_⟩
    · split
      · exact List.pairwise_singleton _ _
      · exact List.Pairwise.nil
    · split at hb
      · rw [List.mem_singleton] at hb
        have := h.old c a ha
        omega
      · exact absurd hb List.not_mem_nil
  · intro c id hid
    rw [hline c, List.mem_append] at hid
    rw [hn]
    rcases hid with hid | hid
    · have := h.old c id hid
      omega
    · split at hid
      · rw [List.mem_singleton] at hid
        omega
      · exact absurd hid List.not_mem_nil

theorem spliceOut_sublist (queue : Table Waiter.id)
    (id : Nat) : List.Sublist (spliceOut queue id).rows queue.rows := by
  unfold spliceOut
  split
  · exact List.filter_sublist
  · exact List.filter_sublist

theorem InLine.settleNull (h : InLine st) (w : Waiter)
    (why : Refusal) : InLine (st.settleNull w why) := by
  unfold AdmissionState.settleNull
  split
  · exact h
  · exact h.shrink rfl (spliceOut_sublist st.queue w.id) le_rfl

theorem find?_client {l : List Waiter} {p : String → Bool} {w : Waiter}
    (h : (l.find? fun x => p x.client) = some w) :
    ∃ before after, l = before ++ w :: after ∧ ∀ x ∈ before, x.client ≠ w.client := by
  obtain ⟨hw, before, after, hl, hbefore⟩ := List.find?_eq_some_iff_append.mp h
  refine ⟨before, after, hl, fun x hx heq => ?_⟩
  have := hbefore x hx
  simp only [heq, hw, Bool.not_true, Bool.false_eq_true] at this

theorem first_of_pick {w : Waiter} (h : st.pick = some w) :
    ∃ before after, st.queue.rows = before ++ w :: after ∧ ∀ x ∈ before, x.client ≠ w.client := by
  unfold pick at h
  rcases Option.or_eq_some_iff.mp h with h | ⟨-, h⟩
  · exact find?_client (p := fun c => some c != st.lastClient && st.fits c) h
  · exact find?_client (p := st.fits) h

theorem lineOf_grant {w : Waiter} (hnodup : (st.queue.rows.map Waiter.id).Nodup)
    (hpick : st.pick = some w)
    {g : Grant} (hclient : g.client = w.client) (hrequest : g.request = w.id) (hg : st'.grants = st.grants ++ [g])
    (hq : st'.queue = st.queue.erase w.id) (client : String) :
    lineOf st' client = lineOf st client := by
  obtain ⟨before, after, hrows, hbefore⟩ := first_of_pick hpick
  rw [hrows, List.map_append, List.map_cons, List.nodup_append] at hnodup
  obtain ⟨-, hafter, hdisjoint⟩ := hnodup
  rw [List.nodup_cons] at hafter
  have herase : (st.queue.erase w.id).rows = before ++ after := by
    show st.queue.rows.filter _ = _
    rw [hrows, List.filter_append, List.filter_cons_of_neg (by simp)]
    congr 1
    · rw [List.filter_eq_self]
      intro x hx
      exact decide_eq_true (hdisjoint x.id (List.mem_map_of_mem hx) w.id List.mem_cons_self)
    · rw [List.filter_eq_self]
      intro x hx
      exact decide_eq_true fun heq : x.id = w.id => hafter.1 (heq ▸ List.mem_map_of_mem hx)
  unfold lineOf
  rw [hg, hq, herase, hrows]
  by_cases hc : w.client = client
  · have hnone : (before.filter fun x => decide (x.client = client)) = [] := by
      rw [List.filter_eq_nil_iff]
      intro x hx
      rw [decide_eq_true_eq, ← hc]
      exact hbefore x hx
    simp [List.filter_append, hc, hclient, hrequest, hnone]
  · simp [List.filter_append, hc, hclient]

theorem serveGrant_line (hinv : Inv st) {w : Waiter} (hpick : st.pick = some w) (client : String) :
    lineOf ((st.tick.grant w.id w.client w.state w.enqueuedAt).settleGrant w) client = lineOf st client := by
  obtain ⟨hmem, -⟩ := Inv.mem_of_pick hpick
  have hsettled : (st.tick.grant w.id w.client w.state w.enqueuedAt).isSettled w.id = false :=
    hinv.settled.not_settled hmem
  refine lineOf_grant st.queue.nodup hpick (g := ⟨w.id, w.client, st.handlers + 1, st.streams + 1,
    (st.objects w.state).handlers + 1, (st.objects w.state).streams + 1, st.policy, st.currentLimit⟩) rfl rfl ?_ ?_ client
  · simp only [AdmissionState.settleGrant, hsettled, Bool.false_eq_true, if_false]
    rfl
  · simp only [AdmissionState.settleGrant, hsettled, Bool.false_eq_true, if_false]
    exact Conserved.spliceOut_of_mem hmem

theorem InLine.serve (h : InLine st) (hinv : Inv st) {w : Waiter}
    (hpick : st.pick = some w) : InLine (st.serve w) := by
  unfold AdmissionState.serve
  split
  · exact h.settleNull w _
  split
  · have htick : InLine st.tick := h.shrink rfl (List.Sublist.refl _) le_rfl
    exact htick.settleNull w _
  · have hline := serveGrant_line hinv hpick
    have hnext : ((st.tick.grant w.id w.client w.state w.enqueuedAt).settleGrant w).nextRequest = st.nextRequest := by
      unfold AdmissionState.settleGrant
      split
      · rfl
      · rfl
    constructor
    · intro client
      rw [hline client]
      exact h.order client
    · intro client id hid
      rw [hline client] at hid
      rw [hnext]
      exact h.old client id hid

theorem InLine.drainLoop (h : InLine st) (hinv : Inv st) (n : Nat) : InLine (drainLoop n st) := by
  induction n generalizing st with
  | zero => exact h
  | succ n ih =>
    unfold AdmissionState.drainLoop
    cases hpick : st.pick with
    | none => exact h
    | some w => exact ih (h.serve hinv hpick) (hinv.serve hpick)

theorem InLine.drain (h : InLine st) (hinv : Inv st) : InLine st.drain := h.drainLoop hinv _

/-! ## The floor of the limit -/

structure SameLimits (st st' : AdmissionState) : Prop where
  policy : st'.policy = st.policy
  effective : st'.effective = st.effective

namespace SameLimits

theorem refl (st : AdmissionState) : SameLimits st st := ⟨rfl, rfl⟩

theorem trans {a b c : AdmissionState} (hab : SameLimits a b)
    (hbc : SameLimits b c) : SameLimits a c :=
  ⟨hbc.policy.trans hab.policy, hbc.effective.trans hab.effective⟩

theorem settleNull (st : AdmissionState) (w : Waiter)
    (why : Refusal) : SameLimits st (st.settleNull w why) := by
  unfold AdmissionState.settleNull
  split
  · exact refl st
  · exact ⟨rfl, rfl⟩

theorem serve (st : AdmissionState) (w : Waiter) : SameLimits st (st.serve w) := by
  unfold AdmissionState.serve
  split
  · exact settleNull st w _
  split
  · have hsettle := settleNull st.tick w .waitTimeout
    exact ⟨hsettle.policy, hsettle.effective⟩
  · unfold AdmissionState.settleGrant
    split
    · exact ⟨rfl, rfl⟩
    · exact ⟨rfl, rfl⟩

theorem drain (st : AdmissionState) : SameLimits st st.drain := by
  have hloop : ∀ n st, SameLimits st (drainLoop n st) := by
    intro n
    induction n with
    | zero => exact refl
    | succ n ih =>
      intro st
      unfold AdmissionState.drainLoop
      cases st.pick with
      | none => exact refl st
      | some w => exact (serve st w).trans (ih _)
  exact hloop _ st

end SameLimits

/-! ## What holds between operations -/

structure Fair (st : AdmissionState) : Prop where
  inv : Inv st
  rested : Rested st
  inLine : InLine st
  floor : st.policy.minStreams.1 ≤ st.effective

theorem Fair.of_drain (hinv : Inv st) (hline : InLine st)
    (hfloor : st.policy.minStreams.1 ≤ st.effective) :
    Fair st.drain := by
  obtain ⟨hpolicy, heffective⟩ := SameLimits.drain st
  refine ⟨hinv.drain, hinv.rested_drain, hline.drain hinv, ?_⟩
  rw [hpolicy, heffective]
  exact hfloor

theorem Fair.of_same (h : Fair st) (hinv : Inv st') (hq : st'.queue = st.queue)
    (ho : st'.objects = st.objects)
    (hh : st'.handlers = st.handlers) (hs : st'.streams = st.streams) (hp : st'.policy = st.policy)
    (hg : st'.grants = st.grants) (hn : st.nextRequest ≤ st'.nextRequest) (hfloor : st.policy.minStreams.1 ≤ st'.effective)
    (hle : st'.effective ≤ st.effective) : Fair st' := by
  refine ⟨hinv, ?_, ?_, ?_⟩
  · refine h.rested.of_le h.inv.conserved hinv.conserved (hq ▸ List.Subset.refl _) ho hh hs hp ?_
    unfold currentLimit
    rw [hp]
    split
    · exact le_rfl
    split
    · exact hle
    · exact le_rfl
  · exact h.inLine.shrink hg (hq ▸ List.Sublist.refl _) hn
  · rw [hp]
    exact hfloor

namespace Fair

theorem of_eq (h : Fair st) (hinv : Inv st') (hq : st'.queue = st.queue)
    (ho : st'.objects = st.objects)
    (hh : st'.handlers = st.handlers) (hs : st'.streams = st.streams) (hp : st'.policy = st.policy)
    (he : st'.effective = st.effective) (hg : st'.grants = st.grants) (hn : st.nextRequest ≤ st'.nextRequest) :
    Fair st' :=
  h.of_same hinv hq ho hh hs hp hg hn (he ▸ h.floor) (he ▸ le_rfl)

theorem stateFor (h : Fair st) (key : String) : Fair (st.stateFor key).1 := by
  have hinv := h.inv.stateFor key
  unfold AdmissionState.stateFor at hinv ⊢
  split at hinv
  · rename_i e he
    exact h
  · rename_i hnone
    exact h.of_eq hinv rfl rfl rfl rfl rfl rfl rfl le_rfl

theorem enqueue_inLine (h : Fair st) {w : Waiter}
    (hid : w.id = st.nextRequest) : InLine (st.newRequest.enqueue w) := by
  have hnone : st.queue.get? w.id = none := by
    have hwait := h.inv.fresh.2
    rw [AdmissionState.waiting, ← hid] at hwait
    cases hget : st.queue.get? w.id with
    | none => rfl
    | some x =>
      rw [hget] at hwait
      cases hwait
  have hrows : (st.queue.put w).rows = st.queue.rows ++ [w] := by
    unfold Table.put
    rw [dif_pos hnone]
  refine h.inLine.snoc w.client rfl fun c => ?_
  show _ ++ ((st.queue.put w).rows.filter _).map _ = _
  unfold lineOf
  rw [hrows, List.filter_append, List.map_append, ← List.append_assoc]
  congr 1
  by_cases hc : w.client = c
  · simp [hc, hid]
  · simp [hc]

theorem acquire (h : Fair st) (client : Option String) (signal : Option Nat)
    (deadline : Option Int) :
    Fair (st.acquire client signal deadline) := by
  have htick : Fair st.tick := h.of_eq h.inv.tick rfl rfl rfl rfl rfl rfl rfl le_rfl
  unfold AdmissionState.acquire
  simp only
  split
  · exact htick.of_eq (h.inv.tick.resolve_new _) rfl rfl rfl rfl rfl rfl rfl (Nat.le_succ _)
  split
  · exact htick.of_eq (h.inv.tick.resolve_new _) rfl rfl rfl rfl rfl rfl rfl (Nat.le_succ _)
  have hstate := htick.stateFor (client.getD "anonymous")
  have hget := Inv.stateFor_get? st.tick (client.getD "anonymous")
  obtain ⟨hst, ho, hid⟩ := Inv.stateFor_newRequest st.tick (client.getD "anonymous")
  rw [show st.newRequest.tick = st.tick.newRequest from rfl, hst, ho,
    show st.nextRequest = (st.tick.stateFor (client.getD "anonymous")).1.nextRequest from hid.symm]
  generalize (st.tick.stateFor (client.getD "anonymous")).1 = st' at hstate hget
  generalize (st.tick.stateFor (client.getD "anonymous")).2 = o at hget
  split
  · -- granted at once, when nobody waits
    rename_i hfits
    rw [Bool.and_eq_true, List.isEmpty_iff] at hfits
    have hempty : st'.queue.rows = [] := hfits.1
    refine ⟨hstate.inv.grant_new _ _ hget hfits.2, ?_, ?_, hstate.floor⟩
    · intro w hw
      have hw : w ∈ st'.queue.rows := hw
      rw [hempty] at hw
      cases hw
    · refine hstate.inLine.snoc (client.getD "anonymous") rfl fun c => ?_
      unfold lineOf
      show ((st'.grants ++ [_]).filter _).map _ ++ (st'.queue.rows.filter _).map _ = _
      rw [hempty]
      by_cases hc : client.getD "anonymous" = c
      · simp [List.filter_append, hc]
      · simp [List.filter_append, hc]
  split
  · exact hstate.of_eq (hstate.inv.refuse_new _ _ _) rfl rfl rfl rfl rfl rfl rfl (Nat.le_succ _)
  split
  · refine Fair.of_drain (Inv.settleNull (hstate.inv.enqueue_new ?_ hget) (Table.mem_put_self _ _) _)
      (InLine.settleNull (hstate.enqueue_inLine ?_) _ _) ?_
    · rfl
    · rfl
    · obtain ⟨hpolicy, heffective⟩ := SameLimits.settleNull (st'.newRequest.enqueue _) _ .aborted
      rw [hpolicy, heffective]
      exact hstate.floor
  · refine Fair.of_drain (hstate.inv.enqueue_new ?_ hget) (hstate.enqueue_inLine ?_) hstate.floor
    · rfl
    · rfl

theorem settleNull_drain (h : Fair st) {id : Nat} {w : Waiter} (hw : st.queue.get? id = some w)
    (why : Refusal) :
    Fair (st.settleNull w why).drain := by
  refine Fair.of_drain (h.inv.settleNull (Table.get?_mem hw) why) (h.inLine.settleNull w why) ?_
  obtain ⟨hpolicy, heffective⟩ := SameLimits.settleNull st w why
  rw [hpolicy, heffective]
  exact h.floor

theorem timeout (h : Fair st) (id : Nat) : Fair (st.timeout id) := by
  unfold AdmissionState.timeout
  split
  · rename_i w hw
    exact h.settleNull_drain hw _
  · exact h

theorem onAbort (h : Fair st) (id : Nat) : Fair (st.onAbort id) := by
  unfold AdmissionState.onAbort
  split
  · rename_i w hw
    exact h.settleNull_drain hw _
  · exact h

theorem abort (h : Fair st) (sig : Nat) : Fair (st.abort sig) := by
  unfold AdmissionState.abort
  split
  · exact h
  · have hinv : Inv { st with abortedSignals := sig :: st.abortedSignals } :=
      h.inv.of_eq rfl rfl rfl rfl rfl rfl rfl rfl rfl rfl rfl
    exact run_inv (fun _ id hs => Fair.onAbort hs id) (h.of_eq hinv rfl rfl rfl rfl rfl rfl rfl le_rfl)

theorem releaseHandler (h : Fair st) (id : Nat) : Fair (st.releaseHandler id) := by
  unfold AdmissionState.releaseHandler
  split
  · rename_i p hp
    split
    · rename_i hheld
      have hinv := Inv.dropHandler_releaseHandler h.inv.conserved h.inv.settled (fun q hq _ => h.inv.nested q hq) hp hheld
      exact Fair.of_drain hinv (h.inLine.shrink rfl (List.Sublist.refl _) le_rfl) h.floor
    · exact h
  · exact h

theorem release (h : Fair st) (id : Nat) : Fair (st.release id) := by
  unfold AdmissionState.release
  split
  swap
  · exact h
  rename_i p hp
  split
  swap
  · exact h
  rename_i hheld
  have hid : p.id = id := Table.get?_key hp
  subst hid
  rcases h.inv.releaseHandler_dropStream hp hheld with ⟨heq, hinv⟩ | ⟨heq, hinv⟩
  · have hline : InLine ((st.dropStream p).dropHandler { p with streamHeld := false }) :=
      h.inLine.shrink rfl (List.Sublist.refl _) le_rfl
    have hdrained := Fair.of_drain hinv hline h.floor
    rw [heq]
    refine Fair.of_drain (hdrained.inv.clean _) ?_ hdrained.floor
    exact hdrained.inLine.shrink rfl (List.Sublist.refl _) le_rfl
  · rw [heq]
    exact Fair.of_drain (hinv.clean _) (h.inLine.shrink rfl (List.Sublist.refl _) le_rfl) h.floor

theorem demand (h : Fair st) : Fair st.demand.1 := by
  have hinv := h.inv.demand
  unfold AdmissionState.demand at hinv ⊢
  split at hinv
  · exact h
  · exact h.of_eq hinv rfl rfl rfl rfl rfl rfl rfl le_rfl

theorem recover (h : Fair st) : Fair st.recover := by
  have hhealthy : Fair { st with healthy := st.healthy + 1 } :=
    h.of_eq (h.inv.of_eq rfl rfl rfl rfl rfl rfl rfl rfl rfl rfl rfl) rfl rfl rfl rfl rfl rfl rfl le_rfl
  unfold AdmissionState.recover
  simp only
  split
  · exact h.of_eq (h.inv.of_eq rfl rfl rfl rfl rfl rfl rfl rfl rfl rfl rfl) rfl rfl rfl rfl rfl rfl rfl le_rfl
  have hdemand := hhealthy.demand
  generalize hd : ({ st with healthy := st.healthy + 1 } : AdmissionState).demand = d at hdemand
  split
  · refine Fair.of_drain ?_ ?_ ?_
    · exact hdemand.inv.of_eq rfl rfl rfl rfl rfl rfl rfl rfl rfl rfl rfl
    · exact hdemand.inLine.shrink rfl (List.Sublist.refl _) le_rfl
    · show d.1.policy.minStreams.1 ≤ min d.1.policy.maxStreams.1 (d.1.effective + 1)
      have hfloor := hdemand.floor
      have hbounds := d.1.policy.min_le_max
      omega
  · have hinv : Inv { d.1 with decision := "healthy-awaiting-demand" } :=
      hdemand.inv.of_eq rfl rfl rfl rfl rfl rfl rfl rfl rfl rfl rfl
    exact hdemand.of_eq hinv rfl rfl rfl rfl rfl rfl rfl le_rfl

theorem shrunk_bounds (h : Fair st) :
    st.policy.minStreams.1 ≤ max st.policy.minStreams.1 (⌊(st.effective : ℚ) * (4 / 5)⌋.toNat) ∧
      max st.policy.minStreams.1 (⌊(st.effective : ℚ) * (4 / 5)⌋.toNat) ≤ st.effective := by
  refine ⟨le_max_left _ _, max_le h.floor ?_⟩
  have hle : (st.effective : ℚ) * (4 / 5) ≤ ((st.effective : ℤ) : ℚ) := by
    have hnonneg : (0 : ℚ) ≤ st.effective := Nat.cast_nonneg _
    push_cast
    linarith
  have hfloor : ⌊(st.effective : ℚ) * (4 / 5)⌋ ≤ (st.effective : ℤ) := by
    have hmono := Int.floor_le_floor hle
    rwa [Int.floor_intCast] at hmono
  omega

theorem observe (h : Fair st) (sample : Sample) : Fair (st.observe sample) := by
  obtain ⟨st', hs, hobserve⟩ := observe_cases st sample
  have hinv : Inv st' := h.inv.of_eq hs.handlers hs.streams hs.objects hs.permits hs.queue hs.clients hs.nextObject hs.counters hs.grants
    hs.results hs.nextRequest
  have hlimit : st.policy.minStreams.1 ≤ st'.effective ∧ st'.effective ≤ st.effective := by
    rcases hs.effective with heq | heq
    · rw [heq]
      exact ⟨h.floor, le_rfl⟩
    · rw [heq]
      exact h.shrunk_bounds
  have hfair : Fair st' := h.of_same hinv hs.queue hs.objects hs.handlers hs.streams hs.policy hs.grants (le_of_eq hs.nextRequest.symm)
    hlimit.1 hlimit.2
  rcases hobserve with hobserve | ⟨-, hobserve⟩
  · rwa [hobserve]
  · rw [hobserve]
    exact recover hfair

theorem configure (h : Fair st) (input : Option PolicyInput) : Fair (st.configure input) := by
  unfold AdmissionState.configure
  split
  · exact h
  split
  · exact h
  · rename_i next _ _
    refine Fair.of_drain (h.inv.of_eq rfl rfl rfl rfl rfl rfl rfl rfl rfl rfl rfl) ?_ ?_
    · exact h.inLine.shrink rfl (List.Sublist.refl _) le_rfl
    · exact le_max_left _ _

theorem step (h : Fair st) (op : AdmissionOp) : Fair (admissionStep st op) := by
  cases op with
  | acquire client signal deadline => exact h.acquire client signal deadline
  | abort sig => exact h.abort sig
  | timeout id => exact h.timeout id
  | release id => exact h.release id
  | releaseHandler id => exact h.releaseHandler id
  | observe sample => exact h.observe sample
  | configure input => exact h.configure input

end Fair

theorem fair_createResourceAdmission (clock : Nat → Int) (policy : AdmissionPolicy) :
    Fair (createResourceAdmission clock policy) := by
  refine ⟨inv_createResourceAdmission clock policy, ?_, ⟨?_, ?_⟩, le_rfl⟩
  · intro w hw
    exact absurd hw List.not_mem_nil
  · exact fun client => List.Pairwise.nil
  · intro client id hid
    exact absurd hid List.not_mem_nil

/-- **Resource admission is work-conserving and first-in first-out**: after every sequence of
operations no waiter could be granted, the loop of `drain` ends from every state that an operation
calls it in, and each client's requests are granted in the order of their arrival, none of them
while an older one waits. -/
theorem resourceAdmission_workConserving (clock : Nat → Int) (policy : AdmissionPolicy)
    (ops : List AdmissionOp) :
    let st := run admissionStep (createResourceAdmission clock policy) ops
    (∀ w ∈ st.queue.rows, st.fits w.client = false) ∧
    (∀ st' : AdmissionState, Inv st' → DrainsTo st' st'.drain) ∧
    ∀ client, ((st.grants.filter fun g => g.client = client).map Grant.request).Pairwise (· < ·) ∧
      ((st.queue.rows.filter fun w => w.client = client).map Waiter.id).Pairwise (· < ·) ∧
      ∀ g ∈ st.grants, ∀ w ∈ st.queue.rows, g.client = client → w.client = client → g.request < w.id := by
  intro st
  have h : Fair st := run_inv (fun _ op hs => Fair.step hs op) (fair_createResourceAdmission clock policy)
  refine ⟨h.rested, fun st' hst' => drain_drainsTo hst', fun client => ?_⟩
  have horder := h.inLine.order client
  unfold lineOf at horder
  rw [List.pairwise_append] at horder
  obtain ⟨hgrants, hqueue, hbetween⟩ := horder
  refine ⟨hgrants, hqueue, fun g hg w hw hgc hwc => ?_⟩
  apply hbetween
  · exact List.mem_map_of_mem (List.mem_filter.mpr ⟨hg, decide_eq_true hgc⟩)
  · exact List.mem_map_of_mem (List.mem_filter.mpr ⟨hw, decide_eq_true hwc⟩)

end TokenProxy.Admission
