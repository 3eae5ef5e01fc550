import TokenProxy.QuotaGuard.Cache

/-!
# Refreshes

A refresh keeps whom it is for and stays aborted (`Kept`), only one that is in flight writes a cache
(`Progress`), and one that was taken out of flight before it settled is aborted (`RefreshesInv`).
-/

namespace TokenProxy.QuotaGuard

open Lib

variable {W U : Type}

/-! ### What becomes of a refresh -/

/-- A refresh stays of its connection and identity; it stays aborted and settled. -/
structure Kept (r r' : Refresh W U) : Prop where
  id : r'.id = r.id
  connection : r'.connection = r.connection
  identity : r'.identity = r.identity
  aborted : r.aborted ≠ none → r'.aborted ≠ none
  settled : ∀ f, r.phase = .settled f → r'.phase = .settled f

theorem Kept.refl (r : Refresh W U) : Kept r r := ⟨rfl, rfl, rfl, fun h => h, fun _ h => h⟩

theorem Kept.trans {r r' r'' : Refresh W U} (h : Kept r r') (h' : Kept r' r'') : Kept r r'' where
  id := h'.id.trans h.id
  connection := h'.connection.trans h.connection
  identity := h'.identity.trans h.identity
  aborted ha := h'.aborted (h.aborted ha)
  settled f hf := h'.settled f (h.settled f hf)

/-- The refreshes of `s` are kept, a new one is as `New` says, and only a
new one comes to be in flight. -/
structure Evolves (New : Refresh W U → Prop) (s s' : GuardState W U) : Prop where
  supply : s.supply ≤ s'.supply
  kept : ∀ id r, s.refreshes.get? id = some r → ∃ r', s'.refreshes.get? id = some r' ∧ Kept r r'
  back : ∀ r' ∈ s'.refreshes.rows, (∃ r ∈ s.refreshes.rows, Kept r r') ∨ (New r' ∧ r'.id < s'.supply)
  flight : ∀ k id, inFlight s' k = some id → inFlight s k = some id ∨
    (s.supply ≤ id ∧ ∃ r', s'.refreshes.get? id = some r' ∧ r'.connection.id = k)

variable {New : Refresh W U → Prop}

theorem Evolves.same {s s' : GuardState W U} (hrefreshes : s'.refreshes = s.refreshes)
    (hsupply : s'.supply = s.supply)
    (hinFlight : ∀ k id, inFlight s' k = some id → inFlight s k = some id) : Evolves New s s' where
  supply := hsupply.ge
  kept _ r h := ⟨r, hrefreshes ▸ h, .refl r⟩
  back r' h := Or.inl ⟨r', hrefreshes ▸ h, .refl r'⟩
  flight k id h := Or.inl (hinFlight k id h)

theorem Evolves.refl (s : GuardState W U) : Evolves New s s := .same rfl rfl fun _ _ h => h

theorem Evolves.trans {s s' s'' : GuardState W U} (h : Evolves New s s') (h' : Evolves New s' s'')
    (hnew : ∀ r r', New r → Kept r r' → New r') : Evolves New s s'' where
  supply := h.supply.trans h'.supply
  kept id r hr := by
    obtain ⟨r', hr', hkept⟩ := h.kept id r hr
    obtain ⟨r'', hr'', hkept'⟩ := h'.kept id r' hr'
    exact ⟨r'', hr'', hkept.trans hkept'⟩
  back r'' hr'' := by
    obtain ⟨r', hr', hkept'⟩ | hr' := h'.back r'' hr''
    · obtain ⟨r, hr, hkept⟩ | ⟨hr, hlt⟩ := h.back r' hr'
      · exact Or.inl ⟨r, hr, hkept.trans hkept'⟩
      · exact Or.inr ⟨hnew r' r'' hr hkept', by rw [hkept'.id]; exact hlt.trans_le h'.supply⟩
    · exact Or.inr hr'
  flight k id hid := by
    obtain hid | ⟨hle, hnew⟩ := h'.flight k id hid
    · obtain hid | ⟨hle, r, hr, hk⟩ := h.flight k id hid
      · exact Or.inl hid
      · obtain ⟨r', hr', hkept⟩ := h'.kept id r hr
        exact Or.inr ⟨hle, r', hr', by rw [hkept.connection, hk]⟩
    · exact Or.inr ⟨h.supply.trans hle, hnew⟩

theorem Evolves.put {s s' : GuardState W U} {r r' : Refresh W U}
    (hrefreshes : s'.refreshes = s.refreshes.put r')
    (hget : s.refreshes.get? r.id = some r) (hkept : Kept r r') (hsupply : s'.supply = s.supply)
    (hinFlight : ∀ k id, inFlight s' k = some id → inFlight s k = some id) : Evolves New s s' where
  supply := hsupply.ge
  kept id x hx := by
    rw [hrefreshes, Table.get?_put]
    split
    · rename_i hid
      rw [hid, hkept.id, hget] at hx
      cases hx
      exact ⟨r', rfl, hkept⟩
    · exact ⟨x, hx, .refl x⟩
  back x hx := by
    rw [hrefreshes] at hx
    obtain rfl | ⟨hx, -⟩ := Table.mem_put.1 hx
    · exact Or.inl ⟨r, Table.get?_mem hget, hkept⟩
    · exact Or.inl ⟨x, hx, .refl x⟩
  flight k id h := Or.inl (hinFlight k id h)

theorem abortInFlight_evolves (s : GuardState W U)
    (id : String) : Evolves New s (abortInFlight s id) := by
  unfold abortInFlight
  split
  · rename_i r hr
    obtain ⟨rid, -, hget⟩ := Option.bind_eq_some_iff.1 hr
    have hid : r.id = rid := Table.get?_key hget
    rw [← hid] at hget
    refine .put rfl hget ⟨rfl, rfl, rfl, fun h => ?_, fun _ h => h⟩ rfl fun _ _ h => h
    cases ha : r.aborted with
    | none => exact absurd ha h
    | some a => simp
  · exact .refl s

theorem startRefresh_evolves {s : GuardState W U} (hids : ∀ r ∈ s.refreshes.rows, r.id < s.supply)
    (connection : Connection W) (identity : EvidenceIdentity)
    (hnew : New { id := s.supply, connection := connection, identity := identity }) :
    Evolves New s (startRefresh s connection identity) where
  supply := Nat.le_succ _
  kept id r hr := by
    refine ⟨r, ?_, .refl r⟩
    have hne : id ≠ s.supply := by
      have hlt := hids r (Table.get?_mem hr)
      rw [Table.get?_key hr] at hlt
      exact hlt.ne
    exact (Table.get?_put_ne s.refreshes hne).trans hr
  back r hr := by
    obtain rfl | ⟨hr, -⟩ := Table.mem_put.1 hr
    · exact Or.inr ⟨hnew, Nat.lt_succ_self _⟩
    · exact Or.inl ⟨r, hr, .refl r⟩
  flight k id h := by
    have hput : ((s.inFlightRefreshes.put (connection.id, s.supply)).get? k).map Prod.snd = some id := h
    rw [Table.get?_put] at hput
    split at hput
    · rename_i hk
      cases hput
      exact Or.inr ⟨le_rfl, _, Table.get?_put_self s.refreshes _, hk.symm⟩
    · exact Or.inl hput

/-! ### What holds of the refreshes -/

def FetchedOk (derive : U → Nat → Option (Snapshot W)) (f : Fetched W U) : Prop :=
  ∀ snapshot, f.snapshot = some snapshot → ∃ usage now, f.rawUsage = some usage ∧ derive usage now = some snapshot

def RefreshPhase.fetched? : RefreshPhase W U → Option (Fetched W U)
  | .fetching => none
  | .retaining fetched => some fetched
  | .returned fetched => some fetched
  | .settled fetched => some fetched

def Unsettled (r : Refresh W U) : Prop := ∀ f, r.phase ≠ .settled f

structure RefreshesInv (derive : U → Nat → Option (Snapshot W)) (s : GuardState W U) : Prop where
  ids : ∀ r ∈ s.refreshes.rows, r.id < s.supply
  derived : ∀ r ∈ s.refreshes.rows, ∀ f, r.phase.fetched? = some f → FetchedOk derive f
  flying : ∀ k id, inFlight s k = some id → ∃ r, s.refreshes.get? id = some r ∧ r.connection.id = k
  revoked : ∀ r ∈ s.refreshes.rows, Unsettled r → inFlight s r.connection.id = some r.id ∨ r.aborted ≠ none

variable {derive : U → Nat → Option (Snapshot W)}

theorem RefreshesInv.of_evolves {s s' : GuardState W U} (h : RefreshesInv derive s)
    (he : Evolves New s s')
    (hderived : ∀ r ∈ s'.refreshes.rows, ∀ f, r.phase.fetched? = some f → FetchedOk derive f)
    (hrevoked : ∀ r ∈ s'.refreshes.rows, Unsettled r → inFlight s' r.connection.id = some r.id ∨ r.aborted ≠ none) :
    RefreshesInv derive s' where
  ids r' hr' := by
    obtain ⟨r, hr, hkept⟩ | ⟨-, hlt⟩ := he.back r' hr'
    · rw [hkept.id]
      exact (h.ids r hr).trans_le he.supply
    · exact hlt
  derived := hderived
  flying k id hid := by
    obtain hid | ⟨-, hnew⟩ := he.flight k id hid
    · obtain ⟨r, hr, hk⟩ := h.flying k id hid
      obtain ⟨r', hr', hkept⟩ := he.kept id r hr
      exact ⟨r', hr', by rw [hkept.connection, hk]⟩
    · exact hnew
  revoked := hrevoked

/-- A refresh moves on: it is in flight until it settles, writes a cache only while it is, and
persists only if it was not aborted. -/
structure Progress (derive : U → Nat → Option (Snapshot W)) (s : GuardState W U)
    (r r' : Refresh W U) (s' : GuardState W U) :
    Prop where
  refreshes : s'.refreshes = s.refreshes.put r'
  kept : Kept r r'
  supply : s'.supply = s.supply
  derived : ∀ f, r'.phase.fetched? = some f → FetchedOk derive f
  flight : s'.inFlightRefreshes = s.inFlightRefreshes ∨
    (¬ Unsettled r' ∧ inFlight s r.connection.id = some r.id ∧
      s'.inFlightRefreshes = s.inFlightRefreshes.erase r.connection.id)
  caches : inFlight s r.connection.id ≠ some r.id →
    s'.memoryCache = s.memoryCache ∧ s'.negativeCache = s.negativeCache
  persisted : s'.persisted = s.persisted ∨ r.aborted = none

theorem Progress.set (s : GuardState W U) {r r' : Refresh W U} (hkept : Kept r r')
    (hderived : ∀ f, r'.phase.fetched? = some f → FetchedOk derive f) : Progress derive s r r' (setRefresh s r') where
  refreshes := rfl
  kept := hkept
  supply := rfl
  derived := hderived
  flight := Or.inl rfl
  caches _ := ⟨rfl, rfl⟩
  persisted := Or.inl rfl

theorem FetchedOk.none {f : Fetched W U} (h : f.snapshot = none) : FetchedOk derive f := by
  intro snapshot hsnapshot
  rw [h] at hsnapshot
  cases hsnapshot

theorem refreshFails_progress (s : GuardState W U) {r : Refresh W U} (hunsettled : Unsettled r)
    (errorName : String) (now : Nat) :
    Progress derive s r (failed r errorName) (refreshFails s r errorName now) := by
  have hset : Progress derive s r (failed r errorName) (setRefresh s (failed r errorName)) :=
    .set s ⟨rfl, rfl, rfl, fun h => h, fun f h => absurd h (hunsettled f)⟩ fun f hf => by
      cases hf
      exact FetchedOk.none rfl
  obtain hcase | ⟨hcurrent, hcase⟩ := refreshFails_cases s r errorName now
  · rw [hcase]
    exact hset
  · rw [hcase]
    exact { hset with caches := fun hnot => absurd hcurrent hnot }

theorem fetchSettles_progress (s : GuardState W U) {r : Refresh W U} (hphase : r.phase = .fetching)
    (outcome : FetchOutcome U)
    (now : Nat) : ∃ r', Progress derive s r r' (fetchSettles derive s r outcome now) := by
  have hunsettled : Unsettled r := fun f h => by
    rw [hphase] at h
    cases h
  have hkept (phase : RefreshPhase W U) (persist : Option (Snapshot W)) :
      Kept r { r with phase := phase, persist := persist } :=
    ⟨rfl, rfl, rfl, fun h => h, fun f h => absurd h (hunsettled f)⟩
  unfold fetchSettles
  split
  · exact ⟨_, refreshFails_progress s hunsettled _ now⟩
  · exact ⟨_, refreshFails_progress s hunsettled _ now⟩
  · rename_i haborted
    split
    · exact ⟨_, .set s (hkept _ r.persist) fun f hf => by cases hf; exact FetchedOk.none rfl⟩
    · rename_i hcurrent
      rw [ne_eq, not_not] at hcurrent
      split
      · rename_i usage _
        split
        · rename_i snapshot hderive
          refine ⟨_, rfl, hkept _ _, rfl, ?_, Or.inl rfl, fun hnot => absurd hcurrent hnot, Or.inl rfl⟩
          intro f hf snapshot' hsnapshot
          cases hf
          cases hsnapshot
          exact ⟨usage, now, rfl, hderive⟩
        · refine ⟨_, rfl, hkept _ r.persist, rfl, ?_, Or.inl rfl, fun hnot => absurd hcurrent hnot, Or.inl rfl⟩
          intro f hf
          cases hf
          exact FetchedOk.none rfl
      · exact ⟨_, .set s (hkept _ r.persist) fun f hf => by cases hf; exact FetchedOk.none rfl⟩

/-- **Step of a refresh.** -/
theorem refreshStep_progress (s : GuardState W U) {r : Refresh W U}
    (hderived : ∀ f, r.phase.fetched? = some f → FetchedOk derive f) (now : Nat) (op : GuardOp W U) :
    refreshStep derive s r now op = s ∨ ∃ r', Progress derive s r r' (refreshStep derive s r now op) := by
  cases op with
  | fetched id outcome =>
    simp only [refreshStep]
    split
    · rename_i hphase
      exact Or.inr (fetchSettles_progress s hphase outcome now)
    · exact Or.inl rfl
  | retained id error =>
    simp only [refreshStep]
    split
    · rename_i fetched hphase
      have hunsettled : Unsettled r := fun f h => by
        rw [hphase] at h
        cases h
      cases error with
      | some errorName => exact Or.inr ⟨_, refreshFails_progress s hunsettled errorName now⟩
      | none =>
        refine Or.inr ⟨_, .set s ⟨rfl, rfl, rfl, fun h => h, fun f h => absurd h (hunsettled f)⟩ fun f hf => ?_⟩
        cases hf
        exact hderived fetched (by rw [hphase]; rfl)
    · exact Or.inl rfl
  | ended id =>
    simp only [refreshStep]
    split
    · rename_i fetched hphase
      refine Or.inr ⟨_, rfl, ⟨rfl, rfl, rfl, fun h => h, fun f h => ?_⟩, rfl, fun f hf => ?_, ?_,
        fun _ => ⟨rfl, rfl⟩, Or.inl rfl⟩
      · rw [hphase] at h
        cases h
      · cases hf
        exact hderived fetched (by rw [hphase]; rfl)
      · by_cases hcurrent : inFlight s r.connection.id = some r.id
        · exact Or.inr ⟨fun h => h fetched rfl, hcurrent, if_pos hcurrent⟩
        · exact Or.inl (if_neg hcurrent)
    · exact Or.inl rfl
  | timeout id =>
    have hkept : Kept r { r with aborted := r.aborted.or (some "TimeoutError") } := by
      refine ⟨rfl, rfl, rfl, fun h => ?_, fun _ h => h⟩
      cases ha : r.aborted with
      | none => exact absurd ha h
      | some a => simp
    simp only [refreshStep]
    split
    · exact Or.inr ⟨_, .set s hkept hderived⟩
    · exact Or.inr ⟨_, .set s hkept hderived⟩
    · exact Or.inl rfl
  | persists id committed =>
    simp only [refreshStep]
    split
    · rename_i snapshot hpersist
      have hkept : Kept r { r with persist := none } := ⟨rfl, rfl, rfl, fun h => h, fun _ h => h⟩
      split
      · rename_i hcommitted
        exact Or.inr ⟨_, rfl, hkept, rfl, hderived, Or.inl rfl, fun _ => ⟨rfl, rfl⟩, Or.inr hcommitted.2⟩
      · exact Or.inr ⟨_, .set s hkept hderived⟩
    · exact Or.inl rfl
  | evaluate => exact Or.inl rfl
  | resume => exact Or.inl rfl
  | cancel => exact Or.inl rfl
  | clear => exact Or.inl rfl

theorem Progress.flight_sub {s s' : GuardState W U} {r r' : Refresh W U}
    (h : Progress derive s r r' s') (k : String) (id : Nat)
    (hid : inFlight s' k = some id) : inFlight s k = some id := by
  rw [inFlight] at hid ⊢
  obtain heq | ⟨-, -, heq⟩ := h.flight
  · rwa [heq] at hid
  · rw [heq, Table.get?_erase] at hid
    split at hid
    · cases hid
    · exact hid

theorem Progress.evolves {s s' : GuardState W U} {r r' : Refresh W U}
    (h : Progress derive s r r' s') (hget : s.refreshes.get? r.id = some r) : Evolves New s s' :=
  .put h.refreshes hget h.kept h.supply h.flight_sub

theorem Progress.inv {s s' : GuardState W U} {r r' : Refresh W U} (h : Progress derive s r r' s')
    (hget : s.refreshes.get? r.id = some r) (hinv : RefreshesInv derive s) :
    RefreshesInv derive s' := by
  refine @RefreshesInv.of_evolves W U (fun _ => False) derive s s' hinv (h.evolves hget) ?_ ?_
  · intro x hx
    rw [h.refreshes] at hx
    obtain rfl | ⟨hx, -⟩ := Table.mem_put.1 hx
    · exact h.derived
    · exact hinv.derived x hx
  · -- what was in flight is, if it did not settle, and nothing else was in its place
    have hstays : ∀ x : Refresh W U, (x.id = r.id → Unsettled r') → inFlight s x.connection.id = some x.id →
        inFlight s' x.connection.id = some x.id := by
      intro x hx hflight
      rw [inFlight] at hflight ⊢
      obtain heq | ⟨hsettled, hcurrent, heq⟩ := h.flight
      · rwa [heq]
      · rw [heq, Table.get?_erase, if_neg]
        · exact hflight
        · intro hk
          rw [hk] at hflight
          exact hsettled (hx (Option.some.inj (hflight.symm.trans hcurrent)))
    intro x hx hopen
    rw [h.refreshes] at hx
    obtain rfl | ⟨hx, hne⟩ := Table.mem_put.1 hx
    · have hunsettled : Unsettled r := fun f hf => hopen f (h.kept.settled f hf)
      obtain hflight | haborted := hinv.revoked r (Table.get?_mem hget) hunsettled
      · refine Or.inl (hstays x (fun _ => hopen) ?_)
        rw [h.kept.connection, h.kept.id]
        exact hflight
      · exact Or.inr (h.kept.aborted haborted)
    · refine (hinv.revoked x hx hopen).imp_left (hstays x fun hid => ?_)
      exact absurd (hid.trans h.kept.id.symm) hne

/-! ### Scheduling and clearing -/

theorem abortInFlight_inFlight (s : GuardState W U)
    (id k : String) : inFlight (abortInFlight s id) k = inFlight s k := by
  rw [abortInFlight_eq]
  rfl

theorem abortInFlight_aborts {s : GuardState W U} (hinv : RefreshesInv derive s) {id : String}
    {r : Refresh W U}
    (hr : r ∈ (abortInFlight s id).refreshes.rows) (hflight : inFlight s id = some r.id) :
    r.aborted ≠ none := by
  obtain ⟨x, hx, -⟩ := hinv.flying id r.id hflight
  have hbind : (inFlight s id).bind s.refreshes.get? = some x := by rw [hflight, Option.bind_some, hx]
  unfold abortInFlight at hr
  rw [hbind] at hr
  obtain rfl | ⟨-, hne⟩ := Table.mem_put.1 hr
  · cases ha : x.aborted <;> simp
  · exact absurd (Table.get?_key hx).symm hne

theorem abortInFlight_inv {s : GuardState W U} (hinv : RefreshesInv derive s) (id : String) :
    RefreshesInv derive (abortInFlight s id) := by
  refine @RefreshesInv.of_evolves W U (fun _ => False) derive s _ hinv (abortInFlight_evolves s id) ?_ ?_
  · intro r hr
    unfold abortInFlight at hr
    split at hr
    · rename_i x hx
      obtain ⟨rid, -, hget⟩ := Option.bind_eq_some_iff.1 hx
      obtain rfl | ⟨hr, -⟩ := Table.mem_put.1 hr
      · exact hinv.derived x (Table.get?_mem hget)
      · exact hinv.derived r hr
    · exact hinv.derived r hr
  · intro r hr hopen
    rw [abortInFlight_inFlight]
    have hevolves : Evolves (fun _ => False) s (abortInFlight s id) := abortInFlight_evolves s id
    obtain ⟨x, hx, hkept⟩ | ⟨hnone, -⟩ := hevolves.back r hr
    · rw [hkept.connection, hkept.id]
      exact (hinv.revoked x hx fun f hf => hopen f (hkept.settled f hf)).imp_right hkept.aborted
    · exact hnone.elim

theorem startRefresh_inv {s : GuardState W U} (hinv : RefreshesInv derive s)
    (connection : Connection W) (identity : EvidenceIdentity)
    (hold : ∀ r ∈ s.refreshes.rows, inFlight s connection.id = some r.id → r.aborted ≠ none) :
    RefreshesInv derive (startRefresh s connection identity) := by
  refine @RefreshesInv.of_evolves W U (fun _ => True) derive s _ hinv (startRefresh_evolves hinv.ids connection identity trivial)
    ?_ ?_
  · intro r hr
    obtain rfl | ⟨hr, -⟩ := Table.mem_put.1 hr
    · intro f hf
      cases hf
    · exact hinv.derived r hr
  · intro r hr hopen
    have hput (k : String) : inFlight (startRefresh s connection identity) k =
        if k = connection.id then some s.supply else inFlight s k := by
      show ((s.inFlightRefreshes.put (connection.id, s.supply)).get? k).map Prod.snd = _
      rw [Table.get?_put]
      split
      · rfl
      · rfl
    rw [hput]
    obtain rfl | ⟨hr, -⟩ := Table.mem_put.1 hr
    · exact Or.inl (if_pos rfl)
    · obtain hflight | haborted := hinv.revoked r hr hopen
      · by_cases hk : r.connection.id = connection.id
        · exact Or.inr (hold r hr (by rw [← hk, hflight]))
        · exact Or.inl (by rw [if_neg hk, hflight])
      · exact Or.inr haborted

/-- What scheduling gives a caller: an answer, or a refresh of its connection and identity. -/
structure Scheduled (derive : U → Nat → Option (Snapshot W)) (s : GuardState W U)
    (connection : Connection W)
    (identity : EvidenceIdentity) (result : GuardState W U × CallPhase W U) : Prop where
  inv : RefreshesInv derive result.1
  evolves : Evolves (fun r => r.connection = connection ∧ r.identity = identity) s result.1
  persisted : result.1.persisted = s.persisted
  phase : (∃ f, result.2 = .resolved f ∧ f.snapshot = none) ∨
    ∃ r ∈ result.1.refreshes.rows, result.2 = .waiting r.id ∧ r.connection.id = connection.id ∧ r.identity = identity

theorem scheduleRefresh_scheduled {s : GuardState W U} (hinv : RefreshesInv derive s)
    (connection : Connection W) (identity : EvidenceIdentity) (now : Nat) :
    Scheduled derive s connection identity (scheduleRefresh s connection identity now) := by
  unfold scheduleRefresh
  split
  · exact ⟨hinv, .refl s, rfl, Or.inl ⟨_, rfl, rfl⟩⟩
  · split
    · rename_i r hr
      obtain ⟨rid, hflight, hget⟩ := Option.bind_eq_some_iff.1 hr
      have hid : r.id = rid := Table.get?_key hget
      split
      · rename_i hidentity
        obtain ⟨x, hx, hk⟩ := hinv.flying _ _ hflight
        rw [hget] at hx
        cases hx
        exact ⟨hinv, .refl s, rfl, Or.inr ⟨r, Table.get?_mem hget, rfl, hk, hidentity⟩⟩
      · have hsupply : (abortInFlight s connection.id).supply = s.supply := by rw [abortInFlight_eq]
        refine ⟨startRefresh_inv (abortInFlight_inv hinv _) connection identity fun x hx hflight => ?_,
          (abortInFlight_evolves s connection.id).trans
            (startRefresh_evolves (abortInFlight_inv hinv _).ids connection identity ⟨rfl, rfl⟩) ?_, ?_,
          Or.inr ⟨_, Table.mem_put_self _ _, ?_, rfl, rfl⟩⟩
        · rw [abortInFlight_inFlight] at hflight
          exact abortInFlight_aborts hinv hx hflight
        · exact fun r r' hr hkept => ⟨hkept.connection.trans hr.1, hkept.identity.trans hr.2⟩
        · rw [startRefresh, setRefresh, abortInFlight_eq]
        · rw [hsupply]
    · rename_i hnone
      refine ⟨startRefresh_inv hinv connection identity fun r hr hflight => ?_,
        startRefresh_evolves hinv.ids connection identity ⟨rfl, rfl⟩, rfl, Or.inr ⟨_, Table.mem_put_self _ _, rfl, rfl, rfl⟩⟩
      rw [hflight, Option.bind_some, Table.get?_of_mem hr] at hnone
      cases hnone

theorem RefreshesInv.drop {s s' : GuardState W U} (hinv : RefreshesInv derive s)
    (hrefreshes : s'.refreshes = s.refreshes)
    (hsupply : s'.supply = s.supply) (hsub : ∀ k id, inFlight s' k = some id → inFlight s k = some id)
    (hdropped : ∀ r ∈ s.refreshes.rows, inFlight s r.connection.id = some r.id →
      inFlight s' r.connection.id = some r.id ∨ r.aborted ≠ none) : RefreshesInv derive s' where
  ids r hr := hsupply ▸ hinv.ids r (hrefreshes ▸ hr)
  derived r hr := hinv.derived r (hrefreshes ▸ hr)
  flying k id hid := hrefreshes ▸ hinv.flying k id (hsub k id hid)
  revoked r hr hopen := by
    have hr' : r ∈ s.refreshes.rows := hrefreshes ▸ hr
    obtain hflight | haborted := hinv.revoked r hr' hopen
    · exact hdropped r hr' hflight
    · exact Or.inr haborted

theorem RefreshesInv.withCache {s : GuardState W U} (hinv : RefreshesInv derive s)
    (cache : Dict String (CacheEntry W)) :
    RefreshesInv derive { s with memoryCache := cache } :=
  hinv.drop rfl rfl (fun _ _ h => h) fun _ _ h => Or.inl h

theorem abortAll (l : List (String × Nat)) {s : GuardState W U} (hinv : RefreshesInv derive s) :
    let s' := l.foldl (fun s entry => abortInFlight s entry.1) s
    RefreshesInv derive s' ∧ Evolves (fun _ => False) s s' ∧ (∀ k, inFlight s' k = inFlight s k) ∧ s'.persisted = s.persisted ∧
      ∀ x ∈ l, ∀ r ∈ s'.refreshes.rows, inFlight s x.1 = some r.id → r.aborted ≠ none := by
  induction l generalizing s with
  | nil => exact ⟨hinv, .refl s, fun _ => rfl, rfl, fun x hx => absurd hx List.not_mem_nil⟩
  | cons y l ih =>
    obtain ⟨hinv', hevolves, hflight, hpersisted, haborted⟩ := ih (abortInFlight_inv hinv y.1)
    refine ⟨hinv', (abortInFlight_evolves s y.1).trans hevolves fun _ _ h _ => h, fun k => ?_, ?_,
      fun x hx r hr hxr => ?_⟩
    · rw [List.foldl_cons, hflight, abortInFlight_inFlight]
    · rw [List.foldl_cons, hpersisted, abortInFlight_eq]
    · obtain rfl | hx := List.mem_cons.1 hx
      · obtain ⟨r₀, hr₀, hkept⟩ | ⟨hnone, -⟩ := hevolves.back r hr
        · exact hkept.aborted (abortInFlight_aborts hinv hr₀ (by rw [hxr, hkept.id]))
        · exact hnone.elim
      · exact haborted x hx r hr (by rw [abortInFlight_inFlight, hxr])

theorem clearQuotaCache_inv {s : GuardState W U} (hinv : RefreshesInv derive s)
    (connection : Option String) :
    RefreshesInv derive (clearQuotaCache s connection) ∧ Evolves (fun _ => False) s (clearQuotaCache s connection) ∧
      (clearQuotaCache s connection).persisted = s.persisted := by
  cases connection with
  | none =>
    obtain ⟨hinv', hevolves, hflight, hpersisted, haborted⟩ := abortAll s.inFlightRefreshes.rows hinv
    refine ⟨hinv'.drop rfl rfl (fun k id h => by cases h) fun r hr hr' => Or.inr ?_, ?_, hpersisted⟩
    · rw [hflight] at hr'
      obtain ⟨x, hx, hid⟩ := Option.map_eq_some_iff.1 hr'
      have hk : x.1 = r.connection.id := Table.get?_key hx
      exact haborted x (Table.get?_mem hx) r hr (by rw [hk, hr'])
    · exact hevolves.trans (.same rfl rfl fun k id h => by cases h) fun _ _ h _ => h
  | some id =>
    have herase (k : String) (rid : Nat) (h : inFlight (clearQuotaCache s (some id)) k = some rid) :
        k ≠ id ∧ inFlight (abortInFlight s id) k = some rid := by
      have hmap : (((abortInFlight s id).inFlightRefreshes.erase id).get? k).map Prod.snd = some rid := h
      rw [Table.get?_erase] at hmap
      split at hmap
      · cases hmap
      · rename_i hne
        exact ⟨hne, hmap⟩
    refine ⟨(abortInFlight_inv hinv id).drop rfl rfl (fun k rid h => (herase k rid h).2) fun r hr hflight => ?_, ?_, ?_⟩
    · by_cases hk : r.connection.id = id
      · rw [hk, abortInFlight_inFlight] at hflight
        exact Or.inr (abortInFlight_aborts hinv hr hflight)
      · left
        show (((abortInFlight s id).inFlightRefreshes.erase id).get? r.connection.id).map Prod.snd = some r.id
        rw [Table.get?_erase, if_neg hk]
        exact hflight
    · exact (abortInFlight_evolves s id).trans (.same rfl rfl fun k rid h => (herase k rid h).2) fun _ _ h _ => h
    · show (abortInFlight s id).persisted = s.persisted
      rw [abortInFlight_eq]

end TokenProxy.QuotaGuard
