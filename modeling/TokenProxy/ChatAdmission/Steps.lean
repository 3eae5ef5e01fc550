import TokenProxy.ChatAdmission.Counting

/-!
# Every step keeps the counts

A settled waiter, a release and a call of `acquireAdmission` each change one entry and one request.
A release gives its slot back first and passes it on afterwards; in between, the entry has one slot
of slack.
-/

namespace TokenProxy.ChatAdmission

open Lib (run run_inv)

variable {L : Limits} {freed : Option Nat} {s : State} {i k : Nat} {e : Entry} {r : Request}

@[simp] theorem slack_none (k : Nat) : slack none k = 0 := if_neg (by simp)

@[simp] theorem slack_self (k : Nat) : slack (some k) k = 1 := if_pos rfl

theorem slack_ne {j : Nat} (h : j ≠ k) : slack (some k) j = 0 := if_neg fun heq => h (Option.some.inj heq).symm

/-! ### What a request holds and where it waits -/

theorem holds_of_none (h : r.grant = none) : r.holds k = false := by
  simp [Request.holds, h]

theorem holds_of_grant {g : Grant} (h : r.grant = some g)
    (hreleases : r.releases = 0) : r.holds k = decide (g.entry = k) := by
  simp [Request.holds, h, hreleases]

theorem holds_of_released (h : r.releases ≠ 0) : r.holds k = false := by
  simp [Request.holds, h]

theorem waits_of_phase (h : r.phase ≠ .queued) : r.waits k = false := by
  simp [Request.waits, h]

theorem waits_of_waiter {w : Waiter} (h : r.phase = .queued)
    (hw : r.waiter = some w) : r.waits k = decide (w.entry = k) := by
  simp [Request.waits, h, hw]

theorem holds_iff : r.holds k = true ↔ r.releases = 0 ∧ ∃ g ∈ r.grant, g.entry = k := by
  unfold Request.holds
  cases r.grant <;> simp

theorem waits_iff : r.waits k = true ↔ r.phase = .queued ∧ ∃ w ∈ r.waiter, w.entry = k := by
  unfold Request.waits
  cases r.waiter <;> simp

theorem Request.Ok.unsettled {w : Waiter} (h : r.Ok) (hw : r.waiter = some w)
    (hsettled : w.settled = false) :
    r.phase = .queued ∧ r.grant = none ∧ r.releases = 0 ∧ w.settlements = 0 := by
  have hnot : ¬ r.Settled := by
    intro hdone
    have := (hdone w hw).1
    rw [hsettled] at this
    cases this
  unfold Request.Ok at h
  split at h
  · rw [h.1] at hw
    cases hw
  · rename_i hphase
    obtain ⟨hgrant, hreleases, w', hw', -, hsettlements⟩ := h
    cases hw.symm.trans hw'
    exact ⟨hphase, hgrant, hreleases, hsettlements⟩
  all_goals exact absurd h.1 hnot

theorem Request.Ok.waiting (h : r.Ok) (hphase : r.phase = .queued) :
    r.grant = none ∧ r.releases = 0 ∧ ∃ w, r.waiter = some w ∧ w.settled = false ∧ w.settlements = 0 := by
  unfold Request.Ok at h
  rw [hphase] at h
  exact h

/-! ### Settling -/

theorem Inv.refuse (h : Inv L freed s) (i : Nat) : Inv L freed (settle L s i false) := by
  unfold settle
  split
  · exact h
  rename_i r hi
  split
  · exact h
  rename_i w hw
  split
  · exact h
  rename_i hunsettled
  split
  · exact h
  rename_i e he
  obtain ⟨hok, hplaced⟩ := h.requests i r hi
  obtain ⟨hphase, hgrant, hreleases, hsettlements⟩ := hok.unsettled hw (by simpa using hunsettled)
  have hentry := h.entries _ e he
  have hsub : ∀ j, j ∈ e.queue.erase i → j ∈ e.queue := fun j hj => List.mem_of_mem_erase hj
  have hne : e.queue.erase i ≠ [] → e.queue ≠ [] := by
    intro hne hnil
    rw [hnil] at hne
    exact hne rfl
  simp only [Bool.false_eq_true, if_false]
  refine h.update he hi rfl (fun j _ => rfl) (fun j hj => ?_) (by rfl) (fun j => ?_) (hentry.nodup.erase i) hentry.bounded
    (fun hqueue => hentry.full (hne hqueue)) (fun hsome => hentry.found (hsome.imp id hne)) (fun j _ => rfl) ?_ ⟨hplaced.1, ?_⟩
  · rw [waits_of_waiter hphase hw, decide_eq_false (Ne.symm hj)]
    exact waits_of_phase (by simp)
  · rw [hentry.nodup.mem_erase_iff]
    by_cases hj : j = i <;> simp [hj, Request.waits]
  · unfold Request.Ok
    refine ⟨fun w' hw' => ?_, by simp [hgrant], hreleases⟩
    cases hw'
    exact ⟨rfl, by simp [Waiter.settle, hsettlements]⟩
  · intro w' hw'
    cases hw'
    exact hplaced.2 w hw

theorem Inv.grantSlot (h : Inv L freed s) (e' : Entry) (r' : Request) (he : s.entries[k]? = some e)
    (hi : s.requests[i]? = some r)
    (hkey : e'.key = e.key) (hactive : e'.active = e.active) (hqueue : ∀ j, j ∈ e'.queue ↔ j ≠ i ∧ j ∈ e.queue) (hnodup : e'.queue.Nodup)
    (hlt : e.active < L.maxInflight) (hfull : e'.queue ≠ [] → e.active + 1 = L.maxInflight)
    (hfound : s.admissionKeys.lookup e.key = some k) (hfreed : ∀ j, j ≠ k → slack freed j = 0) (hgrant : r.grant = none)
    (hwaits : ∀ j, j ≠ k → r.waits j = false) (hreleases : r'.releases = 0) (hsettled : r'.Settled)
    (hplaced : s.keyOf k = some r'.key ∧ ∀ w ∈ r'.waiter, s.keyOf w.entry = some r'.key) (waitedMs : Int) :
    Inv L none (grantSlot s i r' k e' waitedMs) := by
  have hupdate : Inv L none ((s.setEntry k { e' with active := e'.active + 1 }).setRequest i { r' with
      phase := .resolved { admitted := true, waitedMs, queued := some e'.queue.length, active := some (e'.active + 1) }
      grant := some { entry := k, turn := s.turn } }) := by
    refine h.update he hi hkey (fun j hj => ?_) (fun j hj => ?_) ?_ (fun j => ?_) hnodup ?_ (fun hne => ?_) (fun _ => hfound)
      (fun j hj => (slack_none j).trans (hfreed j hj).symm) ⟨hsettled, rfl, hreleases⟩ ⟨fun g hg => ?_, hplaced.2⟩
    · rw [holds_of_none hgrant]
      simp [Request.holds, Ne.symm hj]
    · rw [hwaits j hj]
      rfl
    · rw [holds_of_none hgrant]
      simp [Request.holds, hreleases, hactive]
    · rw [hqueue j]
      by_cases hj : j = i <;> simp [hj, Request.waits]
    · rw [slack_none]
      simp only
      omega
    · rw [slack_none]
      simp only
      have := hfull hne
      omega
    · cases hg
      exact hplaced.1
  exact hupdate.of_eq rfl rfl rfl

theorem settle_waiting {w : Waiter} (hi : s.requests[i]? = some r) (hw : r.waiter = some w)
    (hunsettled : w.settled = false) (he : s.entries[w.entry]? = some e) :
    settle L s i true = ChatAdmission.grantSlot s i { r with waiter := some w.settle } w.entry { e with queue := e.queue.erase i }
      (s.now - w.enqueuedAt) := by
  unfold settle
  simp only [hi, hw, hunsettled, he, Bool.false_eq_true, if_false, if_true]

theorem Inv.passOn (h : Inv L (some k) s) (he : s.entries[k]? = some e)
    (hi : i ∈ e.queue) : Inv L none (settle L s i true) := by
  have hentry := h.entries k e he
  obtain ⟨r, hr, hwaits⟩ := (hentry.queued i).1 hi
  obtain ⟨hphase, w, hw, rfl⟩ := waits_iff.1 hwaits
  obtain ⟨hok, hplaced⟩ := h.requests i r hr
  obtain ⟨hgrant, hreleases, w', hw', hunsettled, hsettlements⟩ := hok.waiting hphase
  obtain rfl : w = w' := Option.some.inj (hw.symm.trans hw')
  have hfull := hentry.full (List.ne_nil_of_mem hi)
  rw [slack_self] at hfull
  rw [settle_waiting hr hw hunsettled he]
  refine h.grantSlot { e with queue := e.queue.erase i } { r with waiter := some w.settle } he hr rfl rfl (fun j => hentry.nodup.mem_erase_iff) (hentry.nodup.erase i) (by omega) (fun _ => by omega)
    (hentry.found (Or.inr (List.ne_nil_of_mem hi))) (fun j hj => slack_ne hj) hgrant (fun j hj => ?_)
    hreleases (fun w' hw' => ?_) ⟨hplaced.2 w hw, fun w' hw' => ?_⟩ _
  · rw [waits_of_waiter hphase hw, decide_eq_false (Ne.symm hj)]
  · cases hw'
    exact ⟨rfl, by simp [Waiter.settle, hsettlements]⟩
  · cases hw'
    exact hplaced.2 w hw

/-! ### Releasing -/

theorem keyOf_eq_some {key : String} :
    s.keyOf k = some key ↔ ∃ e, s.entries[k]? = some e ∧ e.key = key := by
  simp [State.keyOf]

theorem Inv.reach (h : Inv L freed s) (hi : s.requests[i]? = some r) (hholds : r.holds k = true) :
    ∃ e, s.entries[k]? = some e ∧ e.key = r.key ∧ 0 < e.active ∧ s.admissionKeys.lookup r.key = some k := by
  obtain ⟨hreleases, g, hg, rfl⟩ := holds_iff.1 hholds
  obtain ⟨e, he, hkey⟩ := keyOf_eq_some.1 ((h.requests i r hi).2.1 g hg)
  have hentry := h.entries _ e he
  have hpos : 0 < e.active := by
    rw [hentry.counted]
    exact List.countP_pos_iff.2 ⟨r, List.mem_of_getElem? hi, hholds⟩
  refine ⟨e, he, hkey, hpos, ?_⟩
  rw [← hkey]
  exact hentry.found (Or.inl hpos)

theorem Inv.giveBack (h : Inv L none s) (freed : Option Nat) (idleSince : Int)
    (hi : s.requests[i]? = some r) (hholds : r.holds k = true)
    (hsettled : r.Settled) (hphase : r.phase ≠ .queued) (he : s.entries[k]? = some e) (hfreed : ∀ j, j ≠ k → slack freed j = 0)
    (hle : e.active - 1 + slack freed k ≤ L.maxInflight) (hfull : e.queue ≠ [] → e.active - 1 + slack freed k = L.maxInflight) :
    Inv L freed ((s.setRequest i { r with phase := .over, releases := r.releases + 1 }).setEntry k
      { e with active := e.active - 1, idleSince }) := by
  obtain ⟨hreleases, g, hg, hgk⟩ := holds_iff.1 hholds
  have hgrant : r.grant = some g := hg
  have hentry := h.entries k e he
  have hpos : 0 < e.active := by
    rw [hentry.counted]
    exact List.countP_pos_iff.2 ⟨r, List.mem_of_getElem? hi, hholds⟩
  refine h.update he hi rfl (fun j hj => ?_) (fun j _ => ?_) ?_ (fun j => ?_) hentry.nodup hle hfull
    (fun hsome => hentry.found (hsome.imp (fun _ => hpos) id)) (fun j hj => (hfreed j hj).trans (slack_none j).symm) ⟨hsettled, by simp [hgrant, hreleases]⟩
    (h.requests i r hi).2
  · rw [holds_of_grant hg hreleases, hgk, decide_eq_false (Ne.symm hj)]
    exact holds_of_released (Nat.succ_ne_zero _)
  · rw [waits_of_phase hphase]
    rfl
  · rw [hholds]
    simp [Request.holds]
    omega
  · by_cases hj : j = i
    · subst hj
      rw [if_pos rfl, hentry.queued j]
      constructor
      · rintro ⟨x, hx, hwaits⟩
        cases hi.symm.trans hx
        rw [waits_of_phase hphase] at hwaits
        cases hwaits
      · simp [Request.waits]
    · rw [if_neg hj]

theorem Inv.release (h : Inv L none s) (hi : s.requests[i]? = some r) (hholds : r.holds k = true)
    (hsettled : r.Settled) (hphase : r.phase ≠ .queued) :
    Inv L none (releaseAdmission L (s.setRequest i { r with phase := .over, releases := r.releases + 1 }) r.key) := by
  obtain ⟨e, he, hkey, hpos, hlookup⟩ := h.reach hi hholds
  have hentry := h.entries k e he
  have hbounded := hentry.bounded
  rw [slack_none] at hbounded
  unfold releaseAdmission
  simp only [State.setRequest, hlookup, he]
  cases hqueue : e.queue with
  | nil =>
    have := h.giveBack none (if e.active - 1 = 0 then s.now else e.idleSince) hi hholds hsettled hphase he
      (fun j _ => slack_none j) (by rw [slack_none]; omega) (fun hne => absurd hqueue hne)
    rw [hqueue] at this
    exact this
  | cons next queue =>
    have hfull := hentry.full (by simp [hqueue])
    rw [slack_none] at hfull
    have hgiven := h.giveBack (some k) e.idleSince hi hholds hsettled hphase he (fun j hj => slack_ne hj)
      (by rw [slack_self]; omega) (fun _ => by rw [slack_self]; omega)
    rw [hqueue] at hgiven
    exact hgiven.passOn (Lib.getElem?_set_of_some he) List.mem_cons_self

/-! ### Arriving -/

theorem Inv.sweep (h : Inv L none s) : Inv L none (sweepAdmissionKeys L s) := by
  unfold sweepAdmissionKeys
  split
  · exact h
  refine ⟨fun k e he => ?_, fun key k hk => ?_, h.requests⟩
  · have hentry := h.entries k e he
    refine { hentry with found := fun hsome => ?_ }
    show (s.admissionKeys.filter fun row => !s.idle L row.2).lookup e.key = some k
    have hidle : s.idle L k = false := by
      unfold State.idle
      rw [he]
      rcases hsome with hactive | hqueue
      · simp [Nat.pos_iff_ne_zero.1 hactive]
      · simp [hqueue]
    rw [Lib.Table.lookup_filter (p := fun k => !s.idle L k), hentry.found hsome, Option.filter_some, hidle]
    rfl
  · replace hk : (s.admissionKeys.filter fun row => !s.idle L row.2).lookup key = some k := hk
    rw [Lib.Table.lookup_filter (p := fun k => !s.idle L k)] at hk
    exact h.keys key k (Option.filter_eq_some_iff.1 hk).1

theorem Inv.entryOf (h : Inv L none s) (key : String) :
    Inv L none (entryOf s key).1 ∧ (entryOf s key).1.admissionKeys.lookup key = some (entryOf s key).2 ∧
      (entryOf s key).1.requests = s.requests := by
  unfold ChatAdmission.entryOf
  split
  · rename_i k hk
    exact ⟨h, hk, rfl⟩
  · rename_i hnone
    have hlast : ∀ r ∈ s.requests, r.holds s.entries.length = false ∧ r.waits s.entries.length = false := by
      intro r hr
      obtain ⟨i, hi⟩ := List.getElem?_of_mem hr
      obtain ⟨-, hplaced⟩ := h.requests i r hi
      have hout : s.keyOf s.entries.length = none := by simp [State.keyOf]
      refine ⟨Bool.eq_false_iff.2 fun hholds => ?_, Bool.eq_false_iff.2 fun hwaits => ?_⟩
      · obtain ⟨-, g, hg, hgk⟩ := holds_iff.1 hholds
        have := hplaced.1 g hg
        rw [hgk, hout] at this
        cases this
      · obtain ⟨-, w, hw, hwk⟩ := waits_iff.1 hwaits
        have := hplaced.2 w hw
        rw [hwk, hout] at this
        cases this
    have hkept : ∀ k key', s.keyOf k = some key' →
        ({ s with entries := s.entries ++ [{ key, idleSince := s.now }], admissionKeys := s.admissionKeys.put (key, s.entries.length) } :
          State).keyOf k = some key' := by
      intro k key' hk
      obtain ⟨e, he, hkey⟩ := keyOf_eq_some.1 hk
      refine keyOf_eq_some.2 ⟨e, ?_, hkey⟩
      rw [List.getElem?_append_left (List.getElem?_eq_some_iff.1 he).1, he]
    refine ⟨⟨Lib.items_snoc (fun k e he => ?_) ?_, fun key' k hk => ?_, fun i r hr => ?_⟩, ?_, rfl⟩
    · have hentry := h.entries k e he
      refine { hentry with found := fun hsome => ?_ }
      have hfound := hentry.found hsome
      have hne : e.key ≠ key := by
        rintro rfl
        rw [hfound] at hnone
        cases hnone
      show (s.admissionKeys.put (key, s.entries.length)).lookup e.key = some k
      rw [Lib.Table.lookup_put, if_neg hne, hfound]
    · refine ⟨?_, Nat.zero_le _, fun hne => absurd rfl hne, fun i => ?_, List.nodup_nil, fun hsome => ?_⟩
      · exact (List.countP_eq_zero.2 fun r hr => by simp [(hlast r hr).1]).symm
      · constructor
        · simp
        · rintro ⟨r, hr, hwaits⟩
          rw [(hlast r (List.mem_of_getElem? hr)).2] at hwaits
          cases hwaits
      · exact hsome.elim (fun hpos => absurd hpos (Nat.lt_irrefl 0)) fun hne => absurd rfl hne
    · simp only [Lib.Table.lookup_put] at hk
      split at hk
      · rename_i hkey
        cases hk
        exact keyOf_eq_some.2 ⟨{ key, idleSince := s.now }, by simp, hkey.symm⟩
      · exact hkept k key' (h.keys key' k hk)
    · obtain ⟨hok, hplaced⟩ := h.requests i r hr
      exact ⟨hok, fun g hg => hkept _ _ (hplaced.1 g hg), fun w hw => hkept _ _ (hplaced.2 w hw)⟩
    · simp [Lib.Table.lookup_put]

theorem Inv.join (h : Inv L none s) (hi : s.requests[i]? = some r) (hphase : r.phase = .starting)
    (hk : s.admissionKeys.lookup r.key = some k) : Inv L none (join L s i r k) := by
  obtain ⟨e, he, hkey⟩ := keyOf_eq_some.1 (h.keys _ _ hk)
  have hentry := h.entries k e he
  obtain ⟨hok, -⟩ := h.requests i r hi
  unfold Request.Ok at hok
  rw [hphase] at hok
  obtain ⟨hwaiter, hgrant, hreleases⟩ := hok
  have hbounded := hentry.bounded
  rw [slack_none] at hbounded
  have hwaits : ∀ j, r.waits j = false := fun j => waits_of_phase (by simp [hphase])
  have hnotin : i ∉ e.queue := by
    intro hin
    obtain ⟨r', hr', hw⟩ := (hentry.queued i).1 hin
    cases hi.symm.trans hr'
    rw [hwaits] at hw
    cases hw
  have hplaced : s.keyOf k = some r.key := keyOf_eq_some.2 ⟨e, he, hkey⟩
  have hnowaiter : ∀ w ∈ r.waiter, s.keyOf w.entry = some r.key := by
    intro w hw
    rw [hwaiter] at hw
    cases hw
  have hsettled : r.Settled := by
    intro w hw
    rw [hwaiter] at hw
    cases hw
  have hfound : s.admissionKeys.lookup e.key = some k := by rw [hkey, hk]
  unfold ChatAdmission.join
  simp only [he]
  split
  · rename_i hlt
    refine h.grantSlot e { r with arrived := s.turn } he hi rfl rfl (fun j => ?_) hentry.nodup hlt (fun hne => ?_) hfound (fun j _ => slack_none j) hgrant
      (fun j _ => hwaits j) hreleases hsettled ⟨hplaced, hnowaiter⟩ 0
    · exact ⟨fun hj => ⟨fun hji => hnotin (hji ▸ hj), hj⟩, fun hj => hj.2⟩
    · have := hentry.full hne
      rw [slack_none] at this
      omega
  split
  · have hrelabel : ∀ slot : Slot, slot.admitted = false →
        Inv L none (s.setRequest i { r with arrived := s.turn, phase := .resolved slot }) := fun slot hslot =>
      h.relabel hi (fun j => rfl) (fun j => (hwaits j).symm ▸ rfl) ⟨hsettled, by simp [hgrant, hslot], hreleases⟩
        ⟨(h.requests i r hi).2.1, hnowaiter⟩
    exact (hrelabel _ rfl).of_eq rfl rfl rfl
  · rename_i hge _
    have hupdate : Inv L none ((s.setEntry k { e with queue := e.queue ++ [i] }).setRequest i
        { r with arrived := s.turn, waiter := some { entry := k, enqueuedAt := s.now, deadline := s.now + L.maxWaitMs }, phase := .queued }) := by
      refine h.update he hi rfl (fun j _ => rfl) (fun j hj => ?_) rfl (fun j => ?_) ?_ hentry.bounded (fun _ => ?_) (fun _ => hfound)
        (fun j _ => rfl) ⟨hgrant, hreleases, _, rfl, rfl, rfl⟩ ⟨(h.requests i r hi).2.1, fun w hw => ?_⟩
      · rw [hwaits]
        simp [Request.waits, Ne.symm hj]
      · by_cases hj : j = i <;> simp [hj, Request.waits]
      · exact List.nodup_append.2 ⟨hentry.nodup, List.nodup_singleton i, fun a ha b hb => by
          obtain rfl := List.mem_singleton.1 hb
          exact fun hab => hnotin (hab ▸ ha)⟩
      · rw [slack_none]
        simp only
        omega
      · cases hw
        exact hplaced
    exact hupdate.of_eq rfl rfl rfl

/-! ### Steps -/

theorem Request.Ok.slot {slot : Slot} (h : r.Ok)
    (hphase : r.phase = .resolved slot ∨ r.phase = .delivered slot ∨ r.phase = .returned slot ∨ r.phase = .late slot) :
    r.Settled ∧ slot.admitted = r.grant.isSome ∧ r.releases = 0 := by
  unfold Request.Ok at h
  rcases hphase with hphase | hphase | hphase | hphase <;> rw [hphase] at h <;> exact h

theorem Inv.rephase {phase : Phase} (h : Inv L freed s) (hi : s.requests[i]? = some r)
    (hold : r.phase ≠ .queued) (hnew : phase ≠ .queued)
    (hok : Request.Ok { r with phase }) : Inv L freed (s.setRequest i { r with phase }) :=
  h.relabel hi (fun _ => rfl) (fun _ => (waits_of_phase (r := { r with phase }) hnew).trans (waits_of_phase hold).symm) hok (h.requests i r hi).2

theorem Inv.finish {admitted : Bool} (h : Inv L none s) (hi : s.requests[i]? = some r)
    (hphase : r.phase ≠ .queued)
    (hok : r.Settled ∧ admitted = r.grant.isSome ∧ r.releases = 0) :
    Inv L none (finish L s i r admitted) := by
  obtain ⟨hsettled, hadmitted, hreleases⟩ := hok
  unfold ChatAdmission.finish
  split
  · rename_i htrue
    rw [htrue] at hadmitted
    obtain ⟨g, hg⟩ := Option.isSome_iff_exists.1 hadmitted.symm
    exact h.release (k := g.entry) hi (holds_iff.2 ⟨hreleases, g, hg, rfl⟩) hsettled hphase
  · rename_i hfalse
    rw [Bool.not_eq_true] at hfalse
    refine h.rephase hi hphase (by simp) ⟨hsettled, ?_⟩
    simp [hreleases, ← hadmitted, hfalse]

theorem Inv.signal (h : Inv L freed s) (hi : s.requests[i]? = some r)
    (callerAborted aborted rejected : Bool) :
    Inv L freed (s.setRequest i { r with callerAborted, aborted, rejected }) :=
  h.relabel hi (fun _ => rfl) (fun _ => rfl) (h.requests i r hi).1 (h.requests i r hi).2

theorem Inv.abort (h : Inv L none s) (hi : s.requests[i]? = some r) (callerAborted : Bool) :
    Inv L none (abort L s i { r with callerAborted }) := by
  unfold ChatAdmission.abort
  split
  · exact h.signal hi callerAborted r.aborted r.rejected
  · exact (h.signal hi callerAborted true (r.rejected || r.phase.pending)).refuse i

theorem Inv.acquire (h : Inv L none s) (hi : s.requests[i]? = some r)
    (hphase : r.phase = .starting) :
    Inv L none (acquireAdmission L s i r) := by
  unfold acquireAdmission
  split
  · have hok := (h.requests i r hi).1
    unfold Request.Ok at hok
    rw [hphase] at hok
    obtain ⟨hwaiter, hgrant, hreleases⟩ := hok
    refine h.rephase hi (by simp [hphase]) (by simp) ⟨fun w hw => ?_, by simp [hgrant], hreleases⟩
    rw [hwaiter] at hw
    cases hw
  · obtain ⟨hentry, hlookup, hrequests⟩ := h.sweep.entryOf r.key
    have hsweep : (sweepAdmissionKeys L s).requests = s.requests := by
      unfold sweepAdmissionKeys
      split <;> rfl
    exact hentry.join (by rw [hrequests, hsweep, hi]) hphase hlookup

theorem Inv.act (h : Inv L none s) (hi : s.requests[i]? = some r)
    (op : Op) : Inv L none (act L s i r op) := by
  have hok := (h.requests i r hi).1
  cases op with
  | clock now => exact h
  | enter key callerAborted expired => exact h
  | callerAbort _ => exact h.abort hi true
  | deadline _ => exact h.abort hi r.callerAborted
  | begin _ =>
    simp only [ChatAdmission.act]
    split
    · rename_i hphase
      split
      · unfold Request.Ok at hok
        rw [hphase] at hok
        obtain ⟨hwaiter, hgrant, hreleases⟩ := hok
        refine h.rephase hi (by simp [hphase]) (by simp) ⟨fun w hw => ?_, by simp [hgrant, hreleases]⟩
        rw [hwaiter] at hw
        cases hw
      · exact h.acquire hi hphase
    · exact h
  | waitTimeout _ => exact h.refuse i
  | deliver _ =>
    simp only [ChatAdmission.act]
    split
    · rename_i slot hphase
      have hslot := hok.slot (Or.inl hphase)
      split
      · exact h.rephase hi (by simp [hphase]) (by simp) hslot
      · exact h.rephase hi (by simp [hphase]) (by simp) hslot
    · exact h
  | lateResult _ =>
    simp only [ChatAdmission.act]
    split
    · rename_i slot hphase
      exact h.finish hi (by simp [hphase]) (hok.slot (Or.inr (Or.inr (Or.inr hphase))))
    · exact h
  | resume _ expired =>
    simp only [ChatAdmission.act]
    split
    · rename_i slot hphase
      have hslot := hok.slot (Or.inr (Or.inl hphase))
      split
      · exact h.finish hi (by simp [hphase]) hslot
      · exact h.rephase hi (by simp [hphase]) (by simp) hslot
    · exact h
  | handle _ =>
    simp only [ChatAdmission.act]
    split
    · rename_i slot hphase
      obtain ⟨hsettled, hadmitted, hreleases⟩ := hok.slot (Or.inr (Or.inr (Or.inl hphase)))
      split
      · rename_i htrue
        exact h.rephase hi (by simp [hphase]) (by simp) ⟨hsettled, by rw [← hadmitted, htrue], hreleases⟩
      · rename_i hfalse
        rw [Bool.not_eq_true] at hfalse
        exact h.rephase hi (by simp [hphase]) (by simp) ⟨hsettled, by simp [hreleases, ← hadmitted, hfalse]⟩
    · exact h
  | complete _ =>
    simp only [ChatAdmission.act]
    split
    · rename_i hphase
      unfold Request.Ok at hok
      rw [hphase] at hok
      exact h.finish hi (by simp [hphase]) ⟨hok.1, hok.2.1.symm, hok.2.2⟩
    · exact h

theorem Inv.enter (h : Inv L none s) (key : String) (callerAborted expired : Bool) :
    Inv L none (step L s (.enter key callerAborted expired)) := by
  have hnew : ∀ phase : Phase, phase = .starting ∨ phase = .over →
      Inv L none { s with requests := s.requests ++ [{ key, callerAborted, phase }] } := by
    intro phase hphase
    have hwaits : ∀ k, Request.waits { key, callerAborted, phase } k = false :=
      fun k => waits_of_phase (by rcases hphase with rfl | rfl <;> simp)
    refine ⟨fun k e he => ?_, h.keys, Lib.items_snoc h.requests ⟨?_, by simp, by simp⟩⟩
    · have hentry := h.entries k e he
      refine { hentry with counted := ?_, queued := fun i => ?_ }
      · rw [hentry.counted, List.countP_append]
        rfl
      · rw [hentry.queued]
        constructor
        · rintro ⟨r, hr, hw⟩
          exact ⟨r, by rw [List.getElem?_append_left (List.getElem?_eq_some_iff.1 hr).1, hr], hw⟩
        · rintro ⟨r, hr, hw⟩
          rw [List.getElem?_append] at hr
          split at hr
          · exact ⟨r, hr, hw⟩
          · obtain rfl := List.mem_singleton.1 (List.mem_of_getElem? hr)
            rw [hwaits] at hw
            cases hw
    · rcases hphase with rfl | rfl
      · exact ⟨rfl, rfl, rfl⟩
      · exact ⟨by simp [Request.Settled], rfl⟩
  refine hnew (if callerAborted || expired then .over else .starting) ?_
  split
  · exact Or.inr rfl
  · exact Or.inl rfl

theorem Inv.actOn (h : Inv L none s) (op : Op) : Inv L none (actOn L s op) := by
  unfold ChatAdmission.actOn
  split
  · rename_i r hi
    exact h.act hi op
  · exact h

theorem Inv.step (h : Inv L none s) (op : Op) : Inv L none (step L s op) := by
  cases op with
  | clock now => exact h.of_eq rfl rfl rfl
  | enter key callerAborted expired => exact h.enter key callerAborted expired
  | _ => exact h.actOn _

end TokenProxy.ChatAdmission
