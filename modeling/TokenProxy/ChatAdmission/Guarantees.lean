import TokenProxy.ChatAdmission.Order

/-!
# What the gate guarantees

In every interleaving, read per key: the slots in flight, the waiters and their order, and what
became of each grant.
-/

namespace TokenProxy.ChatAdmission

open Lib (run run_inv)

def State.entryFor (s : State) (key : String) : Option Entry := (s.admissionKeys.lookup key).bind fun k => s.entries[k]?

def State.activeOf (s : State) (key : String) : Nat := ((s.entryFor key).map Entry.active).getD 0

def State.queueOf (s : State) (key : String) : List Nat := ((s.entryFor key).map Entry.queue).getD []

def Request.unreleased (r : Request) : Bool := r.releases = 0 && r.grant.isSome

structure Sound (L : Limits) (s : State) : Prop where
  counted : ∀ key, s.activeOf key = s.requests.countP fun r => r.key = key && r.unreleased
  bounded : ∀ key, s.activeOf key ≤ L.maxInflight
  full : ∀ key, s.queueOf key ≠ [] → s.activeOf key = L.maxInflight
  /-- The queue of a key holds its waiters, in the order of arrival. -/
  waiting : ∀ (i : Nat) r, s.requests[i]? = some r → (i ∈ s.queueOf r.key ↔ r.phase = .queued)
  sorted : ∀ key, (s.queueOf key).Pairwise fun i j =>
    ∀ r r', s.requests[i]? = some r → s.requests[j]? = some r' → r.arrived < r'.arrived
  /-- Who was granted arrived before everybody of the key who waits, and the grants
  are in the order of arrival. -/
  ahead : ∀ (i j : Nat) r r', s.requests[i]? = some r → s.requests[j]? = some r' → r.key = r'.key → r.phase = .queued → r'.grant.isSome →
    r'.arrived < r.arrived
  order : ∀ (i j : Nat) r r', s.requests[i]? = some r → s.requests[j]? = some r' → r.key = r'.key → r.arrived < r'.arrived →
    ∀ g ∈ r.grant, ∀ g' ∈ r'.grant, g.turn < g'.turn
  /-- A waiter is settled when it leaves the queue, and then only; its timer takes it out. -/
  settled : ∀ (i : Nat) r, s.requests[i]? = some r → ∀ w ∈ r.waiter, w.settlements = if r.phase = .queued then 0 else 1
  timer : ∀ (i : Nat) r, (step L s (.waitTimeout i)).requests[i]? = some r → r.phase ≠ .queued
  /-- A grant is released at most once, and once when its request is over; until then
  its release reaches its entry. -/
  released : ∀ (i : Nat) r, s.requests[i]? = some r → r.releases ≤ r.grant.isSome.toNat ∧ (r.phase = .over → r.releases = r.grant.isSome.toNat)
  reach : ∀ (i : Nat) r, s.requests[i]? = some r → r.unreleased = true → ∀ g ∈ r.grant, s.admissionKeys.lookup r.key = some g.entry

variable {L : Limits} {s : State} {i k : Nat} {e : Entry} {r : Request} {key : String}

theorem unreleased_iff : r.unreleased = true ↔ ∃ g ∈ r.grant, r.holds g.entry = true := by
  unfold Request.unreleased Request.holds
  cases r.grant <;> simp

theorem Inv.reach_grant (h : Inv L none s) (hi : s.requests[i]? = some r) (hr : r.unreleased = true)
    {g : Grant} (hg : g ∈ r.grant) :
    s.admissionKeys.lookup r.key = some g.entry := by
  obtain ⟨g', hg', hholds⟩ := unreleased_iff.1 hr
  obtain rfl : g = g' := Option.some.inj (hg.symm.trans hg')
  obtain ⟨-, -, -, -, hlookup⟩ := h.reach hi hholds
  exact hlookup

theorem Inv.entryFor (h : Inv L none s) (hk : s.admissionKeys.lookup key = some k) :
    ∃ e, s.entries[k]? = some e ∧ e.key = key ∧ s.entryFor key = some e := by
  obtain ⟨e, he, hkey⟩ := keyOf_eq_some.1 (h.keys key k hk)
  exact ⟨e, he, hkey, by rw [State.entryFor, hk, Option.bind_some, he]⟩

theorem Inv.counted (h : Inv L none s) (key : String) :
    s.activeOf key = s.requests.countP fun r => r.key = key && r.unreleased := by
  unfold State.activeOf
  cases hk : s.admissionKeys.lookup key with
  | none =>
    rw [State.entryFor, hk]
    symm
    refine List.countP_eq_zero.2 fun r hr hout => ?_
    rw [Bool.and_eq_true, decide_eq_true_eq] at hout
    obtain ⟨i, hi⟩ := List.getElem?_of_mem hr
    obtain ⟨g, hg, -⟩ := unreleased_iff.1 hout.2
    have := h.reach_grant hi hout.2 hg
    rw [hout.1, hk] at this
    cases this
  | some k =>
    obtain ⟨e, he, hkey, hentry⟩ := h.entryFor hk
    rw [hentry]
    show e.active = _
    rw [(h.entries k e he).counted]
    refine List.countP_congr fun r hr => ?_
    obtain ⟨i, hi⟩ := List.getElem?_of_mem hr
    rw [Bool.and_eq_true, decide_eq_true_eq, unreleased_iff]
    constructor
    · intro hholds
      obtain ⟨-, g, hg, rfl⟩ := holds_iff.1 hholds
      refine ⟨?_, g, hg, hholds⟩
      have hplaced := (h.requests i r hi).2.1 g hg
      rw [h.keys key _ hk] at hplaced
      exact (Option.some.inj hplaced).symm
    · rintro ⟨hrkey, g, hg, hholds⟩
      have := h.reach_grant hi (unreleased_iff.2 ⟨g, hg, hholds⟩) hg
      rw [hrkey, hk] at this
      obtain rfl := Option.some.inj this
      exact hholds

theorem Inv.waiting (h : Inv L none s) (hi : s.requests[i]? = some r) :
    i ∈ s.queueOf r.key ↔ r.phase = .queued := by
  unfold State.queueOf
  constructor
  · intro hmem
    cases hk : s.admissionKeys.lookup r.key with
    | none =>
      rw [State.entryFor, hk] at hmem
      cases hmem
    | some k =>
      obtain ⟨e, he, -, hentry⟩ := h.entryFor hk
      rw [hentry] at hmem
      obtain ⟨x, hx, hwaits⟩ := h.exists_of_mem_queue he hmem
      cases hi.symm.trans hx
      exact (waits_iff.1 hwaits).1
  · intro hphase
    obtain ⟨hok, hplaced⟩ := h.requests i r hi
    obtain ⟨-, -, w, hw, -⟩ := hok.waiting hphase
    obtain ⟨e, he, hkey⟩ := keyOf_eq_some.1 (hplaced.2 w hw)
    have hentry := h.entries _ e he
    have hmem : i ∈ e.queue := (hentry.queued i).2 ⟨r, hi, waits_iff.2 ⟨hphase, w, hw, rfl⟩⟩
    have hfound := hentry.found (Or.inr (List.ne_nil_of_mem hmem))
    rw [hkey] at hfound
    rw [State.entryFor, hfound, Option.bind_some, he]
    exact hmem

theorem Request.Ok.settlements (h : r.Ok) :
    ∀ w ∈ r.waiter, w.settlements = if r.phase = .queued then 0 else 1 := by
  intro w hw
  unfold Request.Ok at h
  split at h
  · rw [h.1] at hw
    cases hw
  · rename_i hphase
    obtain ⟨-, -, w', hw', -, hsettlements⟩ := h
    obtain rfl : w = w' := Option.some.inj (hw.symm.trans hw')
    rw [if_pos hphase, hsettlements]
  all_goals
    rename_i hphase
    rw [if_neg (by simp [hphase])]
    exact (h.1 w hw).2

theorem Request.Ok.released (h : r.Ok) :
    r.releases ≤ r.grant.isSome.toNat ∧ (r.phase = .over → r.releases = r.grant.isSome.toNat) := by
  unfold Request.Ok at h
  split at h
  case h_8 => exact ⟨h.2.le, fun _ => h.2⟩
  case h_1 hphase => exact ⟨by rw [h.2.2]; exact Nat.zero_le _, fun hover => by rw [hphase] at hover; cases hover⟩
  case h_2 hphase => exact ⟨by rw [h.2.1]; exact Nat.zero_le _, fun hover => by rw [hphase] at hover; cases hover⟩
  all_goals
    rename_i hphase
    exact ⟨by rw [h.2.2]; exact Nat.zero_le _, fun hover => by rw [hphase] at hover; cases hover⟩

theorem Inv.timer (h : Inv L none s) (hi : (ChatAdmission.step L s (.waitTimeout i)).requests[i]? = some r) : r.phase ≠ .queued := by
  intro hphase
  have hnew := h.step (.waitTimeout i)
  obtain ⟨-, -, w, hw, hunsettled, -⟩ := (hnew.requests i r hi).1.waiting hphase
  simp only [ChatAdmission.step, ChatAdmission.actOn, Op.request] at hi
  cases hold : s.requests[i]? with
  | none =>
    simp only [hold] at hi
    cases hi
  | some x =>
    simp only [hold, ChatAdmission.act] at hi
    unfold settle at hi
    simp only [hold] at hi
    split at hi
    · rename_i hnone
      cases hold.symm.trans hi
      rw [hnone] at hw
      cases hw
    split at hi
    · rename_i hsome hsettled
      cases hold.symm.trans hi
      cases hsome.symm.trans hw
      rw [hsettled] at hunsettled
      cases hunsettled
    split at hi
    · rename_i hsome _ _ hnone
      obtain ⟨e, he, -⟩ := keyOf_eq_some.1 ((h.requests i x hold).2.2 _ hsome)
      rw [he] at hnone
      cases hnone
    · simp only [Bool.false_eq_true, if_false] at hi
      rcases Lib.getElem?_set_cases hi with ⟨-, rfl⟩ | ⟨hne, -⟩
      · cases hphase
      · exact hne rfl

theorem Inv.sound (h : Inv L none s) (hline : InLine s) : Sound L s where
  counted := h.counted
  bounded key := by
    unfold State.activeOf
    cases hk : s.admissionKeys.lookup key with
    | none =>
      rw [State.entryFor, hk]
      exact Nat.zero_le _
    | some k =>
      obtain ⟨e, he, -, hentry⟩ := h.entryFor hk
      rw [hentry]
      exact (h.entries k e he).bounded
  full key hne := by
    unfold State.queueOf at hne
    unfold State.activeOf
    cases hk : s.admissionKeys.lookup key with
    | none =>
      rw [State.entryFor, hk] at hne
      exact absurd rfl hne
    | some k =>
      obtain ⟨e, he, -, hentry⟩ := h.entryFor hk
      rw [hentry] at hne ⊢
      exact (h.entries k e he).full hne
  waiting i r hi := h.waiting hi
  sorted key := by
    unfold State.queueOf
    cases hk : s.admissionKeys.lookup key with
    | none =>
      rw [State.entryFor, hk]
      exact List.Pairwise.nil
    | some k =>
      obtain ⟨e, he, -, hentry⟩ := h.entryFor hk
      rw [hentry]
      exact hline.sorted k e he
  ahead := hline.ahead
  order := hline.order
  settled i r hi := (h.requests i r hi).1.settlements
  timer i r hi := h.timer hi
  released i r hi := (h.requests i r hi).1.released
  reach i r hi hr g hg := h.reach_grant hi hr hg

theorem start_inv : Inv L none {} ∧ InLine {} := by
  have hentries : ∀ (k : Nat) (e : Entry), ({} : State).entries[k]? = some e → False := fun k e he => by cases he
  have hrequests : ∀ (i : Nat) (r : Request), ({} : State).requests[i]? = some r → False := fun i r hr => by cases hr
  have hkeys : ∀ key, ({} : State).admissionKeys.lookup key = none := fun key => by
    rw [Lib.Table.lookup, Lib.Table.get?_empty, Option.map_none]
  refine ⟨⟨fun k e he => (hentries k e he).elim, fun key k hk => ?_, fun i r hr => (hrequests i r hr).elim⟩, ⟨Nat.one_pos,
    fun i r hr => (hrequests i r hr).elim, fun k e he => (hentries k e he).elim, fun i _ r _ hr => (hrequests i r hr).elim,
    fun i _ r _ hr => (hrequests i r hr).elim⟩⟩
  rw [hkeys] at hk
  cases hk

/-- **Per-key admission.** In every interleaving no slot is leaked, granted
beyond the ceiling, or jumped. -/
theorem admission_sound (L : Limits) (ops : List Op) : Sound L (run (step L) {} ops) := by
  have hrun : Inv L none (run (step L) {} ops) ∧ InLine (run (step L) {} ops) :=
    run_inv (I := fun s => Inv L none s ∧ InLine s) (fun s op h => ⟨h.1.step op, h.2.step h.1 op⟩) start_inv
  exact hrun.1.sound hrun.2

end TokenProxy.ChatAdmission
