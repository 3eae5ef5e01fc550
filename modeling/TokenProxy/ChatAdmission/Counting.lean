import TokenProxy.ChatAdmission.Gate

/-!
# What the entries count

The count of an entry is the number of requests whose grant was counted in it and whose release has
not run; its queue holds the requests that wait in it. An entry that counts or queues anything is
the one that its key leads to.
-/

namespace TokenProxy.ChatAdmission

open Lib (getElem?_set_of_some getElem?_set_cases getElem?_set_ne countP_set_of_some)

/-- The slot of a request is counted in entry `k`. -/
def Request.holds (r : Request) (k : Nat) : Bool := r.releases = 0 && r.grant.any (·.entry = k)

def Request.waits (r : Request) (k : Nat) : Bool := r.phase = .queued && r.waiter.any (·.entry = k)

/-- A slot was just given back in entry `k`, and is not yet passed on. -/
def slack (freed : Option Nat) (k : Nat) : Nat := if freed = some k then 1 else 0

variable (L : Limits)

structure Entry.Ok (freed : Option Nat) (s : State) (k : Nat) (e : Entry) : Prop where
  counted : e.active = s.requests.countP (·.holds k)
  bounded : e.active + slack freed k ≤ L.maxInflight
  full : e.queue ≠ [] → e.active + slack freed k = L.maxInflight
  queued : ∀ i, i ∈ e.queue ↔ ∃ r, s.requests[i]? = some r ∧ r.waits k = true
  nodup : e.queue.Nodup
  found : 0 < e.active ∨ e.queue ≠ [] → s.admissionKeys.lookup e.key = some k

/-- The waiter of a request, if it had to wait, was settled once. -/
def Request.Settled (r : Request) : Prop := ∀ w ∈ r.waiter, w.settled = true ∧ w.settlements = 1

def Request.Ok (r : Request) : Prop :=
  match r.phase with
  | .starting => r.waiter = none ∧ r.grant = none ∧ r.releases = 0
  | .queued => r.grant = none ∧ r.releases = 0 ∧ ∃ w ∈ r.waiter, w.settled = false ∧ w.settlements = 0
  | .resolved slot | .delivered slot | .returned slot | .late slot => r.Settled ∧ slot.admitted = r.grant.isSome ∧ r.releases = 0
  | .handling => r.Settled ∧ r.grant.isSome ∧ r.releases = 0
  | .over => r.Settled ∧ r.releases = r.grant.isSome.toNat

def State.keyOf (s : State) (k : Nat) : Option String := s.entries[k]?.map Entry.key

/-- The entries that a request was counted or queued in are of its key. -/
def Request.Placed (s : State) (r : Request) : Prop :=
  (∀ g ∈ r.grant, s.keyOf g.entry = some r.key) ∧ ∀ w ∈ r.waiter, s.keyOf w.entry = some r.key

structure Inv (freed : Option Nat) (s : State) : Prop where
  entries : ∀ (k : Nat) (e : Entry), s.entries[k]? = some e → e.Ok L freed s k
  keys : ∀ key k, s.admissionKeys.lookup key = some k → s.keyOf k = some key
  requests : ∀ (i : Nat) (r : Request), s.requests[i]? = some r → r.Ok ∧ r.Placed s

variable {L} {freed freed' : Option Nat} {s s' : State} {i k : Nat} {e e' : Entry} {r r' : Request}

theorem keyOf_setEntry (hk : s.entries[k]? = some e) (hkey : e'.key = e.key)
    (j : Nat) : (s.setEntry k e').keyOf j = s.keyOf j := by
  unfold State.keyOf State.setEntry
  by_cases hj : j = k
  · subst hj
    simp only [getElem?_set_of_some hk, hk, Option.map_some, hkey]
  · simp only [getElem?_set_ne hj]

theorem Request.Placed.congr (h : r.Placed s)
    (hkeys : ∀ k, s'.keyOf k = s.keyOf k) : r.Placed s' := by
  constructor
  · intro g hg
    rw [hkeys, h.1 g hg]
  · intro w hw
    rw [hkeys, h.2 w hw]

theorem Inv.of_eq (h : Inv L freed s) (hentries : s'.entries = s.entries)
    (hkeys : s'.admissionKeys = s.admissionKeys)
    (hrequests : s'.requests = s.requests) : Inv L freed s' := by
  have hkeyOf : ∀ k, s'.keyOf k = s.keyOf k := by
    intro k
    unfold State.keyOf
    rw [hentries]
  refine ⟨fun k e he => ?_, fun key k hk => ?_, fun i r hr => ?_⟩
  · rw [hentries] at he
    have hok := h.entries k e he
    constructor
    · rw [hrequests]
      exact hok.counted
    · exact hok.bounded
    · exact hok.full
    · rw [hrequests]
      exact hok.queued
    · exact hok.nodup
    · rw [hkeys]
      exact hok.found
  · rw [hkeys] at hk
    rw [hkeyOf]
    exact h.keys key k hk
  · rw [hrequests] at hr
    obtain ⟨hok, hplaced⟩ := h.requests i r hr
    exact ⟨hok, hplaced.congr hkeyOf⟩

/-! ### One write -/

theorem waits_setRequest (hi : s.requests[i]? = some r) (j : Nat) :
    (∃ x, (s.setRequest i r').requests[j]? = some x ∧ x.waits k = true) ↔
      if j = i then r'.waits k = true else ∃ x, s.requests[j]? = some x ∧ x.waits k = true := by
  unfold State.setRequest
  by_cases hj : j = i
  · subst hj
    rw [if_pos rfl, getElem?_set_of_some hi]
    constructor
    · rintro ⟨x, hx, hwaits⟩
      cases hx
      exact hwaits
    · exact fun hwaits => ⟨r', rfl, hwaits⟩
  · rw [if_neg hj, getElem?_set_ne hj]

theorem countP_holds_setRequest (hi : s.requests[i]? = some r) (r' : Request) (j : Nat) :
    (s.setRequest i r').requests.countP (·.holds j) + (r.holds j).toNat = s.requests.countP (·.holds j) + (r'.holds j).toNat :=
  countP_set_of_some hi

theorem Inv.update (h : Inv L freed s) (hk : s.entries[k]? = some e) (hi : s.requests[i]? = some r)
    (hkey : e'.key = e.key)
    (hholds : ∀ j, j ≠ k → r'.holds j = r.holds j) (hwaits : ∀ j, j ≠ k → r'.waits j = r.waits j)
    (hcount : e'.active + (r.holds k).toNat = e.active + (r'.holds k).toNat)
    (hqueue : ∀ j, j ∈ e'.queue ↔ if j = i then r'.waits k = true else j ∈ e.queue) (hnodup : e'.queue.Nodup)
    (hbounded : e'.active + slack freed' k ≤ L.maxInflight) (hfull : e'.queue ≠ [] → e'.active + slack freed' k = L.maxInflight)
    (hfound : 0 < e'.active ∨ e'.queue ≠ [] → s.admissionKeys.lookup e.key = some k)
    (hfreed : ∀ j, j ≠ k → slack freed' j = slack freed j) (hok : r'.Ok) (hplaced : r'.Placed s) :
    Inv L freed' ((s.setEntry k e').setRequest i r') := by
  have hkeyOf : ∀ j, ((s.setEntry k e').setRequest i r').keyOf j = s.keyOf j := keyOf_setEntry hk hkey
  refine ⟨fun j x hx => ?_, fun key j hj => ?_, fun j x hx => ?_⟩
  · rcases getElem?_set_cases hx with ⟨rfl, rfl⟩ | ⟨hne, hold⟩
    · have hold := h.entries _ e hk
      constructor
      · have hset := countP_holds_setRequest hi r' j
        have hcounted := hold.counted
        show x.active = (s.setRequest i r').requests.countP _
        omega
      · exact hbounded
      · exact hfull
      · intro m
        rw [hqueue m]
        refine Iff.trans ?_ (waits_setRequest (s := s) hi m).symm
        rw [hold.queued m]
      · exact hnodup
      · rw [hkey]
        exact hfound
    · have hold := h.entries _ x hold
      constructor
      · have hset := countP_holds_setRequest hi r' j
        have hcounted := hold.counted
        have hsame := hholds j hne
        show x.active = (s.setRequest i r').requests.countP _
        simp only [hsame] at hset
        omega
      · rw [hfreed j hne]
        exact hold.bounded
      · rw [hfreed j hne]
        exact hold.full
      · intro m
        rw [hold.queued m]
        refine Iff.trans ?_ (waits_setRequest (s := s) hi m).symm
        by_cases hm : m = i
        · subst hm
          rw [if_pos rfl, hwaits j hne]
          constructor
          · rintro ⟨y, hy, hw⟩
            cases hi.symm.trans hy
            exact hw
          · exact fun hw => ⟨r, hi, hw⟩
        · rw [if_neg hm]
      · exact hold.nodup
      · exact hold.found
  · rw [hkeyOf]
    exact h.keys key j hj
  · rcases getElem?_set_cases hx with ⟨-, rfl⟩ | ⟨-, hold⟩
    · exact ⟨hok, hplaced.congr hkeyOf⟩
    · obtain ⟨hx, hxplaced⟩ := h.requests j x hold
      exact ⟨hx, hxplaced.congr hkeyOf⟩

theorem Inv.relabel (h : Inv L freed s) (hi : s.requests[i]? = some r)
    (hholds : ∀ j, r'.holds j = r.holds j)
    (hwaits : ∀ j, r'.waits j = r.waits j) (hok : r'.Ok) (hplaced : r'.Placed s) :
    Inv L freed (s.setRequest i r') := by
  refine ⟨fun j x hx => ?_, h.keys, fun j x hx => ?_⟩
  · have hold := h.entries j x hx
    refine { hold with counted := ?_, queued := fun m => ?_ }
    · have hset := countP_holds_setRequest hi r' j
      have hcounted := hold.counted
      simp only [hholds j] at hset
      show x.active = (s.setRequest i r').requests.countP _
      omega
    · rw [hold.queued m, waits_setRequest hi m]
      by_cases hm : m = i
      · subst hm
        rw [if_pos rfl, hwaits j]
        constructor
        · rintro ⟨y, hy, hw⟩
          cases hi.symm.trans hy
          exact hw
        · exact fun hw => ⟨r, hi, hw⟩
      · rw [if_neg hm]
  · rcases getElem?_set_cases hx with ⟨-, rfl⟩ | ⟨-, hold⟩
    · exact ⟨hok, hplaced⟩
    · exact h.requests j x hold

end TokenProxy.ChatAdmission
