import TokenProxy.ChatAdmission.Steps

/-!
# The order of arrival

Each call of `acquireAdmission` and each grant takes a turn. Whoever waits arrived after everybody
of its key who was granted, and the queues are in the order of arrival; so the grants of a key
follow its arrivals.
-/

namespace TokenProxy.ChatAdmission

open Lib (getElem?_set_cases)

variable {L : Limits} {freed : Option Nat} {s s' : State} {i k : Nat} {e e' : Entry} {r r' : Request}

structure InLine (s : State) : Prop where
  turn : 0 < s.turn
  fresh : ∀ (i : Nat) r, s.requests[i]? = some r → r.arrived < s.turn ∧ ∀ g ∈ r.grant, g.turn < s.turn
  sorted : ∀ (k : Nat) e, s.entries[k]? = some e → e.queue.Pairwise fun i j =>
    ∀ r r', s.requests[i]? = some r → s.requests[j]? = some r' → r.arrived < r'.arrived
  ahead : ∀ (i j : Nat) r r', s.requests[i]? = some r → s.requests[j]? = some r' → r.key = r'.key → r.phase = .queued → r'.grant.isSome →
    r'.arrived < r.arrived
  order : ∀ (i j : Nat) r r', s.requests[i]? = some r → s.requests[j]? = some r' → r.key = r'.key → r.arrived < r'.arrived →
    ∀ g ∈ r.grant, ∀ g' ∈ r'.grant, g.turn < g'.turn

/-- Nobody arrives and nobody is granted: the requests are those of before, some of them no
longer queued, or new ones. -/
structure Quieter (s s' : State) : Prop where
  turn : s.turn ≤ s'.turn
  requests : ∀ (i : Nat) r', s'.requests[i]? = some r' →
    (∃ r, s.requests[i]? = some r ∧ r'.key = r.key ∧ r'.arrived = r.arrived ∧ r'.grant = r.grant ∧ (r'.phase = .queued → r.phase = .queued)) ∨
      (r'.arrived = 0 ∧ r'.grant = none ∧ r'.phase ≠ .queued)
  queues : ∀ (k : Nat) e', s'.entries[k]? = some e' → e'.queue = [] ∨ ∃ e, s.entries[k]? = some e ∧ e'.queue.Sublist e.queue

theorem Quieter.refl (s : State) : Quieter s s where
  turn := le_rfl
  requests _ r hr := Or.inl ⟨r, hr, rfl, rfl, rfl, id⟩
  queues _ e he := Or.inr ⟨e, he, List.Sublist.refl _⟩

theorem Quieter.of_eq (hturn : s'.turn = s.turn) (hrequests : s'.requests = s.requests)
    (hentries : s'.entries = s.entries) : Quieter s s' where
  turn := hturn.ge
  requests i r hr := (Quieter.refl s).requests i r (hrequests ▸ hr)
  queues k e he := (Quieter.refl s).queues k e (hentries ▸ he)

theorem Quieter.setRequest (hi : s.requests[i]? = some r) (hkey : r'.key = r.key)
    (harrived : r'.arrived = r.arrived)
    (hgrant : r'.grant = r.grant) (hphase : r'.phase = .queued → r.phase = .queued) : Quieter s (s.setRequest i r') where
  turn := le_rfl
  requests j x hx := by
    rcases getElem?_set_cases hx with ⟨rfl, rfl⟩ | ⟨-, hold⟩
    · exact Or.inl ⟨r, hi, hkey, harrived, hgrant, hphase⟩
    · exact (Quieter.refl s).requests j x hold
  queues := (Quieter.refl s).queues

theorem Quieter.setEntry (hk : s.entries[k]? = some e)
    (hqueue : e'.queue.Sublist e.queue) : Quieter s (s.setEntry k e') where
  turn := le_rfl
  requests := (Quieter.refl s).requests
  queues j x hx := by
    rcases getElem?_set_cases hx with ⟨rfl, rfl⟩ | ⟨-, hold⟩
    · exact Or.inr ⟨e, hk, hqueue⟩
    · exact (Quieter.refl s).queues j x hold

theorem Quieter.trans {s'' : State} (h : Quieter s s') (h' : Quieter s' s'') : Quieter s s'' where
  turn := h.turn.trans h'.turn
  requests i x hx := by
    obtain ⟨y, hy, hkey, harrived, hgrant, hphase⟩ | hnew := h'.requests i x hx
    · obtain ⟨z, hz, hykey, hyarrived, hygrant, hyphase⟩ | ⟨hyarrived, hygrant, hyphase⟩ := h.requests i y hy
      · exact Or.inl ⟨z, hz, hkey.trans hykey, harrived.trans hyarrived, hgrant.trans hygrant, fun hx => hyphase (hphase hx)⟩
      · exact Or.inr ⟨harrived.trans hyarrived, hgrant.trans hygrant, fun hx => hyphase (hphase hx)⟩
    · exact Or.inr hnew
  queues k x hx := by
    obtain hnil | ⟨y, hy, hsub⟩ := h'.queues k x hx
    · exact Or.inl hnil
    · obtain hnil | ⟨z, hz, hsub'⟩ := h.queues k y hy
      · rw [hnil] at hsub
        exact Or.inl (List.sublist_nil.1 hsub)
      · exact Or.inr ⟨z, hz, hsub.trans hsub'⟩

theorem Inv.exists_of_mem_queue (h : Inv L freed s) (he : s.entries[k]? = some e)
    (hi : i ∈ e.queue) :
    ∃ r, s.requests[i]? = some r ∧ r.waits k = true := ((h.entries k e he).queued i).1 hi

theorem InLine.quieter (h : InLine s) (hq : Quieter s s') (hinv : Inv L freed s') : InLine s' where
  turn := h.turn.trans_le hq.turn
  fresh i r' hr' := by
    obtain ⟨r, hr, -, harrived, hgrant, -⟩ | ⟨harrived, hgrant, -⟩ := hq.requests i r' hr'
    · obtain ⟨hfresh, hturns⟩ := h.fresh i r hr
      exact ⟨by rw [harrived]; exact hfresh.trans_le hq.turn, fun g hg => (hturns g (hgrant ▸ hg)).trans_le hq.turn⟩
    · refine ⟨by rw [harrived]; exact h.turn.trans_le hq.turn, fun g hg => ?_⟩
      rw [hgrant] at hg
      cases hg
  sorted k e' he' := by
    obtain hnil | ⟨e, he, hsub⟩ := hq.queues k e' he'
    · rw [hnil]
      exact List.Pairwise.nil
    · refine ((h.sorted k e he).sublist hsub).imp_of_mem fun {i j} hi hj hij r r' hr hr' => ?_
      have hback : ∀ m ∈ e'.queue, ∀ x', s'.requests[m]? = some x' → ∃ x, s.requests[m]? = some x ∧ x'.arrived = x.arrived := by
        intro m hm x' hx'
        obtain ⟨x, hx, -, harrived, -⟩ | ⟨-, -, hphase⟩ := hq.requests m x' hx'
        · exact ⟨x, hx, harrived⟩
        · obtain ⟨x, hx, hwaits⟩ := hinv.exists_of_mem_queue he' hm
          cases hx'.symm.trans hx
          rw [waits_of_phase hphase] at hwaits
          cases hwaits
      obtain ⟨x, hx, harrived⟩ := hback i hi r hr
      obtain ⟨x', hx', harrived'⟩ := hback j hj r' hr'
      rw [harrived, harrived']
      exact hij x x' hx hx'
  ahead i j r r' hr hr' hkey hphase hgrant := by
    obtain ⟨x, hx, hxkey, harrived, -, hqueued⟩ | ⟨-, -, hno⟩ := hq.requests i r hr
    · obtain ⟨x', hx', hxkey', harrived', hgrant', -⟩ | ⟨-, hno, -⟩ := hq.requests j r' hr'
      · rw [harrived, harrived']
        exact h.ahead i j x x' hx hx' (hxkey.symm.trans (hkey.trans hxkey')) (hqueued hphase) (hgrant' ▸ hgrant)
      · rw [hno] at hgrant
        cases hgrant
    · exact absurd hphase hno
  order i j r r' hr hr' hkey hlt g hg g' hg' := by
    obtain ⟨x, hx, hxkey, harrived, hgrant, -⟩ | ⟨-, hno, -⟩ := hq.requests i r hr
    · obtain ⟨x', hx', hxkey', harrived', hgrant', -⟩ | ⟨-, hno, -⟩ := hq.requests j r' hr'
      · rw [harrived, harrived'] at hlt
        exact h.order i j x x' hx hx' (hxkey.symm.trans (hkey.trans hxkey')) hlt g (hgrant ▸ hg) g' (hgrant' ▸ hg')
      · rw [hno] at hg'
        cases hg'
    · rw [hno] at hg
      cases hg

/-! ### Grants -/

theorem Inv.mem_queue (h : Inv L freed s) (he : s.entries[k]? = some e)
    (hk : s.admissionKeys.lookup r.key = some k)
    (hi : s.requests[i]? = some r) (hphase : r.phase = .queued) : i ∈ e.queue := by
  obtain ⟨hok, hplaced⟩ := h.requests i r hi
  obtain ⟨-, -, w, hw, -⟩ := hok.waiting hphase
  obtain ⟨e', he', hkey⟩ := keyOf_eq_some.1 (hplaced.2 w hw)
  have hentry := h.entries _ e' he'
  have hmem : i ∈ e'.queue := (hentry.queued i).2 ⟨r, hi, waits_iff.2 ⟨hphase, w, hw, rfl⟩⟩
  have hfound := hentry.found (Or.inr (List.ne_nil_of_mem hmem))
  rw [hkey, hk] at hfound
  obtain rfl : k = w.entry := Option.some.inj hfound
  cases he.symm.trans he'
  exact hmem

/-- A grant keeps the line if everybody of the key who was granted arrived before, and
everybody who still waits after. -/
theorem InLine.grantSlot {waitedMs : Int} (h : InLine s)
    (hinv : Inv L none (grantSlot s i r' k e' waitedMs)) (he : s.entries[k]? = some e)
    (hi : s.requests[i]? = some r) (hqueue : e'.queue.Sublist e.queue) (harrived : r'.arrived ≤ s.turn)
    (hlater : ∀ j x, j ≠ i → s.requests[j]? = some x → x.key = r'.key → x.phase = .queued → r'.arrived < x.arrived)
    (hearlier : ∀ j x, j ≠ i → s.requests[j]? = some x → x.key = r'.key → x.grant.isSome → x.arrived < r'.arrived) :
    InLine (grantSlot s i r' k e' waitedMs) := by
  have hcases : ∀ {j x}, (ChatAdmission.grantSlot s i r' k e' waitedMs).requests[j]? = some x →
      (j = i ∧ x.key = r'.key ∧ x.arrived = r'.arrived ∧ x.grant = some { entry := k, turn := s.turn } ∧ x.phase ≠ .queued) ∨
        (j ≠ i ∧ s.requests[j]? = some x) := by
    intro j x hx
    rcases getElem?_set_cases hx with ⟨rfl, rfl⟩ | ⟨hne, hold⟩
    · exact Or.inl ⟨rfl, rfl, rfl, rfl, by simp⟩
    · exact Or.inr ⟨hne, hold⟩
  refine ⟨Nat.succ_pos _, fun j x hx => ?_, fun k' x hx => ?_, fun j m x y hx hy hkey hphase hgrant => ?_,
    fun j m x y hx hy hkey hlt g hg g' hg' => ?_⟩
  · obtain ⟨-, -, hxa, hxg, -⟩ | ⟨-, hold⟩ := hcases hx
    · refine ⟨by rw [hxa]; exact Nat.lt_succ_of_le harrived, fun g hg => ?_⟩
      rw [hxg] at hg
      cases hg
      exact Nat.lt_succ_self _
    · obtain ⟨hfresh, hturns⟩ := h.fresh j x hold
      exact ⟨Nat.lt_succ_of_lt hfresh, fun g hg => Nat.lt_succ_of_lt (hturns g hg)⟩
  · have hmem : ∀ m ∈ x.queue, m ≠ i := by
      rintro m hm rfl
      obtain ⟨y, hy, hwaits⟩ := hinv.exists_of_mem_queue hx hm
      obtain ⟨-, -, -, -, hphase⟩ | ⟨hne, -⟩ := hcases hy
      · rw [waits_of_phase hphase] at hwaits
        cases hwaits
      · exact hne rfl
    have hold : x.queue.Pairwise fun i j => ∀ r r', s.requests[i]? = some r → s.requests[j]? = some r' → r.arrived < r'.arrived := by
      rcases getElem?_set_cases hx with ⟨rfl, rfl⟩ | ⟨-, hold⟩
      · exact (h.sorted _ e he).sublist hqueue
      · exact h.sorted k' x hold
    refine hold.imp_of_mem fun {a b} ha hb hab y z hy hz => ?_
    obtain ⟨hai, -⟩ | ⟨-, hy⟩ := hcases hy
    · exact absurd hai (hmem a ha)
    obtain ⟨hbi, -⟩ | ⟨-, hz⟩ := hcases hz
    · exact absurd hbi (hmem b hb)
    exact hab y z hy hz
  · obtain ⟨-, -, -, -, hno⟩ | ⟨hne, hx⟩ := hcases hx
    · exact absurd hphase hno
    obtain ⟨-, hykey, hya, -, -⟩ | ⟨-, hy⟩ := hcases hy
    · rw [hya]
      exact hlater j x hne hx (hkey.trans hykey) hphase
    · exact h.ahead j m x y hx hy hkey hphase hgrant
  · obtain ⟨hji, hxkey, hxa, hxg, -⟩ | ⟨hjne, hx⟩ := hcases hx
    · obtain ⟨hmi, -, hya, -, -⟩ | ⟨hmne, hy⟩ := hcases hy
      · omega
      · have := hearlier m y hmne hy (hkey.symm.trans hxkey) (Option.isSome_iff_exists.2 ⟨g', hg'⟩)
        omega
    · obtain ⟨-, -, -, hyg, -⟩ | ⟨-, hy⟩ := hcases hy
      · rw [hyg] at hg'
        cases hg'
        exact (h.fresh j x hx).2 g hg
      · exact h.order j m x y hx hy hkey hlt g hg g' hg'

theorem InLine.passOn {queue : List Nat} (h : InLine s) (hinv : Inv L (some k) s)
    (he : s.entries[k]? = some e) (hqueue : e.queue = i :: queue) :
    InLine (settle L s i true) := by
  have hi : i ∈ e.queue := hqueue ▸ List.mem_cons_self
  have hentry := hinv.entries k e he
  have hnew := hinv.passOn he hi
  obtain ⟨r, hr, hwaits⟩ := hinv.exists_of_mem_queue he hi
  obtain ⟨hphase, w, hw, rfl⟩ := waits_iff.1 hwaits
  obtain ⟨hok, hplaced⟩ := hinv.requests i r hr
  obtain ⟨-, -, w', hw', hunsettled, -⟩ := hok.waiting hphase
  obtain rfl : w = w' := Option.some.inj (hw.symm.trans hw')
  obtain ⟨e', he', hkey⟩ := keyOf_eq_some.1 (hplaced.2 w hw)
  cases he.symm.trans he'
  have hlookup : s.admissionKeys.lookup r.key = some w.entry := by
    rw [← hkey]
    exact hentry.found (Or.inr (List.ne_nil_of_mem hi))
  rw [settle_waiting hr hw hunsettled he] at hnew ⊢
  refine h.grantSlot hnew he hr List.erase_sublist ((h.fresh i r hr).1.le) (fun j x hne hx hxkey hxphase => ?_)
    fun j x _ hx hxkey hxgrant => h.ahead i j r x hr hx hxkey.symm hphase hxgrant
  have hj : j ∈ e.queue := hinv.mem_queue he (by rw [hxkey, hlookup]) hx hxphase
  have hsorted := h.sorted _ e he
  rw [hqueue] at hj hsorted
  exact (List.pairwise_cons.1 hsorted).1 j ((List.mem_cons.1 hj).resolve_left hne) r x hr hx

/-! ### Arrivals -/

theorem InLine.arrive (h : InLine s) (hinv : Inv L freed s) (hi : s.requests[i]? = some r)
    (hphase : r.phase = .starting)
    (hrequests : s'.requests = s.requests.set i r') (harrived : r'.arrived = s.turn) (hgrant : r'.grant = none)
    (hturn : s'.turn = s.turn + 1)
    (hentries : ∀ (k : Nat) e', s'.entries[k]? = some e' → ∃ e, s.entries[k]? = some e ∧ (e'.queue = e.queue ∨ e'.queue = e.queue ++ [i])) :
    InLine s' := by
  have hcases : ∀ {j x}, s'.requests[j]? = some x → (j = i ∧ x = r') ∨ (j ≠ i ∧ s.requests[j]? = some x) := by
    intro j x hx
    rw [hrequests] at hx
    exact getElem?_set_cases hx
  have hnotin : ∀ (k : Nat) e, s.entries[k]? = some e → i ∉ e.queue := by
    intro k e he hin
    obtain ⟨x, hx, hwaits⟩ := hinv.exists_of_mem_queue he hin
    cases hi.symm.trans hx
    rw [waits_of_phase (by simp [hphase])] at hwaits
    cases hwaits
  refine ⟨by omega, fun j x hx => ?_, fun k e' he' => ?_, fun j m x y hx hy hxy hxphase hygrant => ?_,
    fun j m x y hx hy hxy hlt g hg g' hg' => ?_⟩
  · rw [hturn]
    obtain ⟨-, rfl⟩ | ⟨-, hx⟩ := hcases hx
    · refine ⟨by omega, fun g hg => ?_⟩
      rw [hgrant] at hg
      cases hg
    · obtain ⟨hfresh, hturns⟩ := h.fresh j x hx
      exact ⟨Nat.lt_succ_of_lt hfresh, fun g hg => Nat.lt_succ_of_lt (hturns g hg)⟩
  · obtain ⟨e, he, hqueue⟩ := hentries k e' he'
    have hold : e.queue.Pairwise fun i j => ∀ r r', s'.requests[i]? = some r → s'.requests[j]? = some r' → r.arrived < r'.arrived := by
      refine (h.sorted k e he).imp_of_mem fun {a b} ha hb hab y z hy hz => ?_
      obtain ⟨rfl, -⟩ | ⟨-, hy⟩ := hcases hy
      · exact absurd ha (hnotin k e he)
      obtain ⟨rfl, -⟩ | ⟨-, hz⟩ := hcases hz
      · exact absurd hb (hnotin k e he)
      exact hab y z hy hz
    rcases hqueue with hqueue | hqueue
    · rw [hqueue]
      exact hold
    · rw [hqueue]
      refine List.pairwise_append.2 ⟨hold, List.pairwise_singleton _ _, fun a ha b hb y z hy hz => ?_⟩
      obtain rfl := List.mem_singleton.1 hb
      obtain ⟨rfl, -⟩ | ⟨-, hy⟩ := hcases hy
      · exact absurd ha (hnotin k e he)
      obtain ⟨-, rfl⟩ | ⟨hne, -⟩ := hcases hz
      · rw [harrived]
        exact (h.fresh a y hy).1
      · exact absurd rfl hne
  · obtain ⟨-, rfl⟩ | ⟨-, hy⟩ := hcases hy
    · rw [hgrant] at hygrant
      cases hygrant
    obtain ⟨-, rfl⟩ | ⟨-, hx⟩ := hcases hx
    · rw [harrived]
      exact (h.fresh m y hy).1
    · exact h.ahead j m x y hx hy hxy hxphase hygrant
  · obtain ⟨-, rfl⟩ | ⟨-, hx⟩ := hcases hx
    · rw [hgrant] at hg
      cases hg
    obtain ⟨-, rfl⟩ | ⟨-, hy⟩ := hcases hy
    · rw [hgrant] at hg'
      cases hg'
    exact h.order j m x y hx hy hxy hlt g hg g' hg'

theorem InLine.join (h : InLine s) (hinv : Inv L none s) (hi : s.requests[i]? = some r)
    (hphase : r.phase = .starting)
    (hk : s.admissionKeys.lookup r.key = some k) : InLine (join L s i r k) := by
  have hnew := hinv.join hi hphase hk
  obtain ⟨e, he, hkey⟩ := keyOf_eq_some.1 (hinv.keys _ _ hk)
  have hentry := hinv.entries k e he
  have hgrant : r.grant = none := by
    have hok := (hinv.requests i r hi).1
    unfold Request.Ok at hok
    rw [hphase] at hok
    exact hok.2.1
  unfold ChatAdmission.join at hnew ⊢
  simp only [he] at hnew ⊢
  split
  · rename_i hlt
    rw [if_pos hlt] at hnew
    refine h.grantSlot hnew he hi (List.Sublist.refl _) le_rfl (fun j x _ hx hxkey hxphase => ?_) fun j x _ hx _ _ => (h.fresh j x hx).1
    have hfull := hentry.full (List.ne_nil_of_mem (hinv.mem_queue he (by rw [hxkey, hk]) hx hxphase))
    rw [slack_none] at hfull
    omega
  split
  · exact h.arrive hinv hi hphase rfl rfl hgrant rfl fun k e he => ⟨e, he, Or.inl rfl⟩
  · refine h.arrive hinv hi hphase rfl rfl hgrant rfl fun k' e' he' => ?_
    rcases getElem?_set_cases he' with ⟨rfl, rfl⟩ | ⟨-, hold⟩
    · exact ⟨e, he, Or.inr rfl⟩
    · exact ⟨e', hold, Or.inl rfl⟩

/-! ### Steps -/

theorem Quieter.refuse (s : State) (i : Nat) : Quieter s (settle L s i false) := by
  unfold settle
  split
  · exact Quieter.refl s
  rename_i r hi
  split
  · exact Quieter.refl s
  split
  · exact Quieter.refl s
  split
  · exact Quieter.refl s
  rename_i e he
  exact (Quieter.setEntry he List.erase_sublist).trans (Quieter.setRequest hi rfl rfl rfl (by simp))

theorem Quieter.rephase {phase : Phase} (hi : s.requests[i]? = some r) (hphase : phase ≠ .queued) :
    Quieter s (s.setRequest i { r with phase }) :=
  Quieter.setRequest hi rfl rfl rfl fun hqueued => absurd hqueued hphase

theorem Quieter.signal (hi : s.requests[i]? = some r) (callerAborted aborted rejected : Bool) :
    Quieter s (s.setRequest i { r with callerAborted, aborted, rejected }) :=
  Quieter.setRequest hi rfl rfl rfl id

theorem Quieter.abort (hi : s.requests[i]? = some r)
    (callerAborted : Bool) : Quieter s (abort L s i { r with callerAborted }) := by
  unfold ChatAdmission.abort
  split
  · exact Quieter.signal hi callerAborted r.aborted r.rejected
  · exact (Quieter.signal hi callerAborted true (r.rejected || r.phase.pending)).trans (Quieter.refuse _ i)

theorem InLine.release (h : InLine s) (hinv : Inv L none s) (hi : s.requests[i]? = some r)
    (hholds : r.holds k = true) (hsettled : r.Settled) (hphase : r.phase ≠ .queued) :
    InLine (releaseAdmission L (s.setRequest i { r with phase := .over, releases := r.releases + 1 }) r.key) := by
  obtain ⟨e, he, hkey, hpos, hlookup⟩ := hinv.reach hi hholds
  have hentry := hinv.entries k e he
  have hnew := hinv.release hi hholds hsettled hphase
  have hquiet : Quieter s (s.setRequest i { r with phase := .over, releases := r.releases + 1 }) := Quieter.setRequest hi rfl rfl rfl (by simp)
  unfold releaseAdmission at hnew ⊢
  simp only [State.setRequest, hlookup, he] at hnew ⊢
  cases hqueue : e.queue with
  | nil =>
    simp only [hqueue] at hnew ⊢
    refine h.quieter (hquiet.trans (Quieter.setEntry he ?_)) hnew
    rw [hqueue]
  | cons next queue =>
    have hbounded := hentry.bounded
    have hfull := hentry.full (by simp [hqueue])
    rw [slack_none] at hbounded hfull
    have hgiven := hinv.giveBack (some k) e.idleSince hi hholds hsettled hphase he (fun j hj => slack_ne hj)
      (by rw [slack_self]; omega) (fun _ => by rw [slack_self]; omega)
    have hline := h.quieter (hquiet.trans (Quieter.setEntry he (by rfl))) hgiven
    rw [hqueue] at hgiven hline
    exact hline.passOn hgiven (Lib.getElem?_set_of_some he) rfl

theorem InLine.finish {admitted : Bool} (h : InLine s) (hinv : Inv L none s)
    (hi : s.requests[i]? = some r) (hphase : r.phase ≠ .queued)
    (hok : r.Settled ∧ admitted = r.grant.isSome ∧ r.releases = 0) :
    InLine (finish L s i r admitted) := by
  have hnew := hinv.finish hi hphase hok
  obtain ⟨hsettled, hadmitted, hreleases⟩ := hok
  unfold ChatAdmission.finish at hnew ⊢
  split
  · rename_i htrue
    rw [htrue] at hadmitted
    obtain ⟨g, hg⟩ := Option.isSome_iff_exists.1 hadmitted.symm
    exact h.release (k := g.entry) hinv hi (holds_iff.2 ⟨hreleases, g, hg, rfl⟩) hsettled hphase
  · rename_i hfalse
    rw [if_neg hfalse] at hnew
    exact h.quieter (Quieter.rephase hi (by simp)) hnew

theorem InLine.acquire (h : InLine s) (hinv : Inv L none s) (hi : s.requests[i]? = some r)
    (hphase : r.phase = .starting) :
    InLine (acquireAdmission L s i r) := by
  have hnew := hinv.acquire hi hphase
  unfold acquireAdmission at hnew ⊢
  split
  · rename_i haborted
    rw [if_pos haborted] at hnew
    exact h.quieter (Quieter.rephase hi (by simp)) hnew
  · obtain ⟨hentry, hlookup, hrequests⟩ := hinv.sweep.entryOf r.key
    have hsweep : Quieter s (sweepAdmissionKeys L s) ∧ (sweepAdmissionKeys L s).requests = s.requests := by
      unfold sweepAdmissionKeys
      split
      · exact ⟨Quieter.refl s, rfl⟩
      · exact ⟨Quieter.of_eq rfl rfl rfl, rfl⟩
    have hmade : Quieter (sweepAdmissionKeys L s) (entryOf (sweepAdmissionKeys L s) r.key).1 := by
      unfold entryOf
      split
      · exact Quieter.refl _
      · refine ⟨le_rfl, (Quieter.refl _).requests, Lib.items_snoc (fun k e he => ?_) (Or.inl rfl)⟩
        exact (Quieter.refl _).queues k e he
    have hline := h.quieter (hsweep.1.trans hmade) hentry
    exact hline.join hentry (by rw [hrequests, hsweep.2, hi]) hphase hlookup

theorem InLine.act (h : InLine s) (hinv : Inv L none s) (hi : s.requests[i]? = some r)
    (op : Op) : InLine (act L s i r op) := by
  have hnew := hinv.act hi op
  have hok := (hinv.requests i r hi).1
  cases op with
  | clock now => exact h
  | enter key callerAborted expired => exact h
  | callerAbort _ => exact h.quieter (Quieter.abort hi true) hnew
  | deadline _ => exact h.quieter (Quieter.abort hi r.callerAborted) hnew
  | begin _ =>
    simp only [ChatAdmission.act] at hnew ⊢
    split
    · rename_i hphase
      split
      · rename_i haborted
        simp only [hphase] at hnew
        rw [if_pos haborted] at hnew
        exact h.quieter (Quieter.rephase hi (by simp)) hnew
      · exact h.acquire hinv hi hphase
    · exact h
  | waitTimeout _ => exact h.quieter (Quieter.refuse s i) hnew
  | deliver _ =>
    simp only [ChatAdmission.act] at hnew ⊢
    split
    · rename_i slot hphase
      simp only [hphase] at hnew
      exact h.quieter (Quieter.rephase hi (by split <;> simp)) hnew
    · exact h
  | lateResult _ =>
    simp only [ChatAdmission.act]
    split
    · rename_i slot hphase
      exact h.finish hinv hi (by simp [hphase]) (hok.slot (Or.inr (Or.inr (Or.inr hphase))))
    · exact h
  | resume _ expired =>
    simp only [ChatAdmission.act] at hnew ⊢
    split
    · rename_i slot hphase
      split
      · exact h.finish hinv hi (by simp [hphase]) (hok.slot (Or.inr (Or.inl hphase)))
      · rename_i hgoes
        simp only [hphase, if_neg hgoes] at hnew
        exact h.quieter (Quieter.rephase hi (by simp)) hnew
    · exact h
  | handle _ =>
    simp only [ChatAdmission.act] at hnew ⊢
    split
    · rename_i slot hphase
      simp only [hphase] at hnew
      exact h.quieter (Quieter.rephase hi (by split <;> simp)) hnew
    · exact h
  | complete _ =>
    simp only [ChatAdmission.act]
    split
    · rename_i hphase
      unfold Request.Ok at hok
      rw [hphase] at hok
      exact h.finish hinv hi (by simp [hphase]) ⟨hok.1, hok.2.1.symm, hok.2.2⟩
    · exact h

theorem InLine.actOn (h : InLine s) (hinv : Inv L none s) (op : Op) : InLine (actOn L s op) := by
  unfold ChatAdmission.actOn
  split
  · rename_i r hi
    exact h.act hinv hi op
  · exact h

theorem InLine.step (h : InLine s) (hinv : Inv L none s) (op : Op) : InLine (step L s op) := by
  have hnew := hinv.step op
  cases op with
  | clock now => exact h.quieter (Quieter.of_eq rfl rfl rfl) hnew
  | enter key callerAborted expired =>
    refine h.quieter ⟨le_rfl, Lib.items_snoc (Quieter.refl s).requests (Or.inr ⟨rfl, rfl, ?_⟩), (Quieter.refl s).queues⟩ hnew
    show (if (callerAborted || expired) = true then Phase.over else Phase.starting) ≠ .queued
    split <;> simp
  | _ => exact h.actOn hinv _

end TokenProxy.ChatAdmission
