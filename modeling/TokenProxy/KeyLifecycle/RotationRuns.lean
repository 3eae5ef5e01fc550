import TokenProxy.KeyLifecycle.RotationSafety
import TokenProxy.Lib.Arena
import TokenProxy.Lib.Run

/-!
# Runs with rotations

Each write of a rotation, each patch and each other step keeps the invariant, if it is undisturbed.
-/

namespace TokenProxy.KeyLifecycle

open Lib (Table run Meets run_inv_of_meets)

/-! ### Steps beside the rotations -/

theorem State.mark_eq {s s' : State} (h : s'.keys = s.keys) (k : Nat) : s'.mark k = s.mark k := by
  rw [State.mark, State.mark, h]

theorem mark_updateApiKey {s s' : State} {id : Nat} {data : KeyPatch} {now : Nat}
    (h : s'.keys = updateApiKey s.keys id data now) (k : Nat) : s'.mark k = s.mark k := by
  unfold State.mark
  rw [h, get?_updateApiKey]
  by_cases hk : k = id
  · rw [if_pos hk]
    cases s.keys.get? k <;> rfl
  · rw [if_neg hk]

theorem Inv.shift {s s' : State} (h : Inv s) (hrunning : s'.running = s.running)
    (hrotations : s'.rotations = s.rotations)
    (hclock : s.clock ≤ s'.clock) (hnext : s'.nextId = s.nextId) (hmark : ∀ k, s'.mark k = s.mark k)
    (hkeys : ∀ r ∈ s.running, ∀ k ∈ r.successor, ∀ key ∈ s'.keys.get? k, AtMost key.expiresAt r.previous.expiresAt) : Inv s' where
  ids k hk := by
    rw [hmark] at hk
    rw [hnext]
    exact h.ids k hk
  known r hr := by
    rw [hmark]
    exact h.known r (hrunning ▸ hr)
  rotations r hr := (h.rotations r (hrunning ▸ hr)).mono hclock hnext.ge (hkeys r (hrunning ▸ hr))
  exclusive := by
    obtain ⟨hunique, hrecorded, halone, hcurrent, hunrecorded⟩ := h.exclusive
    constructor
    · rwa [hrotations]
    · simpa only [hrotations, hnext, hmark, hrunning] using hrecorded
    · rwa [hrunning]
    · simpa only [hmark, hrunning] using hcurrent
    · rwa [hrunning, hrotations]

theorem Inv.patch {s : State} (h : Inv s) {id : Nat} {data : KeyPatch}
    (hok : PatchUndisturbed s id data) :
    Inv { s with keys := updateApiKey s.keys id data s.clock } := by
  refine h.shift rfl rfl le_rfl rfl (mark_updateApiKey rfl) fun r hr k hk key hkey => ?_
  have hold := ((h.rotations r hr).successor k hk).2
  simp only [get?_updateApiKey] at hkey
  split at hkey
  · rename_i hid
    subst hid
    obtain ⟨key', hkey', rfl⟩ := Option.map_eq_some_iff.1 hkey
    exact hok r hr hk key' hkey'
  · exact hold key hkey

theorem beginRotation_ok {s : State} {keyId : Nat} {overlapHours : Option ℚ} {name : Option Text}
    {r : Rotation} (h : beginRotation s keyId overlapHours name = .ok r) :
    s.keys.get? r.keyId = some r.previous ∧ r.phase = .creating ∧ r.failed = false ∧ r.successor = none ∧ r.written = [] := by
  unfold beginRotation at h
  cases hhours : normalizeOverlapHours overlapHours with
  | error e =>
    rw [hhours] at h
    cases h
  | ok hours =>
    rw [hhours] at h
    simp only [bind, Except.bind] at h
    split at h
    · cases h
    rename_i previous hprevious
    split at h
    · cases h
    split at h
    · cases h
    · cases h
      exact ⟨hprevious, rfl, rfl, rfl, rfl⟩

theorem Inv.begin {s : State} (h : Inv s) {r : Rotation}
    (hkey : s.keys.get? r.keyId = some r.previous)
    (hphase : r.phase = .creating) (hfailed : r.failed = false) (hsuccessor : r.successor = none) (hwritten : r.written = []) :
    Inv { s with running := s.running ++ [r] } := by
  have hmark : ∀ k, State.mark { s with running := s.running ++ [r] } k = s.mark k := State.mark_eq rfl
  have hidle : r.inProgress = false := by simp [Rotation.inProgress, hphase]
  obtain ⟨hunique, hrecorded, halone, hcurrent, hunrecorded⟩ := h.exclusive
  have hsome : (s.mark r.keyId).isSome = true := by simp [State.mark, hkey]
  refine ⟨h.ids, ?_, ?_, ⟨hunique, ?_, ?_, ?_, ?_⟩⟩
  · simp only [hmark, List.forall_mem_append, List.forall_mem_singleton]
    exact ⟨h.known, hsome⟩
  · simp only [List.forall_mem_append, List.forall_mem_singleton]
    refine ⟨fun r hr => (h.rotations r hr).mono le_rfl le_rfl fun k hk => ((h.rotations r hr).successor k hk).2, ?_⟩
    constructor <;> simp [h.ids _ hsome, hphase, hfailed, hsuccessor, hwritten]
  · intro row hrow
    refine ⟨(hrecorded row hrow).1, fun hnone => ?_⟩
    obtain ⟨r, hr, hspec⟩ := (hrecorded row hrow).2 hnone
    exact ⟨r, List.mem_append_left _ hr, hspec⟩
  · have hat : ∀ (i : Nat) x, (s.running ++ [r])[i]? = some x → x.inProgress = true → s.running[i]? = some x :=
      Lib.items_snoc (P := fun i x => x.inProgress = true → s.running[i]? = some x) (fun _ _ hx _ => hx)
        fun hp => absurd (hidle.symm.trans hp) Bool.false_ne_true
    intro i j r₁ r₂ hi hj hp hp'
    exact halone i j r₁ r₂ (hat i r₁ hi hp) (hat j r₂ hj hp') hp hp'
  · simp only [hmark, List.forall_mem_append, List.forall_mem_singleton]
    exact ⟨hcurrent, fun hp => by rw [hidle] at hp; cases hp⟩
  · simp only [List.forall_mem_append, List.forall_mem_singleton]
    exact ⟨hunrecorded, fun hp => by rw [hidle] at hp; cases hp⟩

/-! ### Steps of a rotation -/

section

variable {s s' : State} {i : Nat} {r r' : Rotation}

theorem Inv.update_rotations (h : Inv s) (hrunning : s'.running = s.running.set i r')
    (hok : r'.Ok s') (hclock : s'.clock = s.clock) (hnext : s.nextId ≤ s'.nextId)
    (hkeys : ∀ k < s.nextId, ∀ key' ∈ s'.keys.get? k, ∃ key ∈ s.keys.get? k, AtMost key'.expiresAt key.expiresAt) :
    ∀ x ∈ s'.running, x.Ok s' := by
  rw [hrunning]
  intro x hx
  rcases List.mem_or_eq_of_mem_set hx with hx | rfl
  · refine (h.rotations x hx).mono hclock.ge hnext fun k hk key' hkey' => ?_
    obtain ⟨hlt, hold⟩ := (h.rotations x hx).successor k hk
    obtain ⟨key, hkey, hle⟩ := hkeys k hlt key' hkey'
    exact hle.trans (hold key hkey)
  · exact hok

theorem Exclusive.update (hi : s.running[i]? = some r) (h : Exclusive s)
    (hrunning : s'.running = s.running.set i r')
    (hrotations : s'.rotations = s.rotations) (hnext : s'.nextId = s.nextId) (hmark : ∀ k, s'.mark k = s.mark k)
    (hkey : r'.keyId = r.keyId) (hprogress : r'.inProgress = true → r.inProgress = true)
    (hphase : r.inProgress = true → r.phase ≠ .superseding) (hphase' : r'.inProgress = true → r'.phase ≠ .superseding) :
    Exclusive s' := by
  obtain ⟨hunique, hrecorded, halone, hcurrent, hunrecorded⟩ := h
  have hr := List.mem_of_getElem? hi
  have hat : ∀ (j : Nat) x, s'.running[j]? = some x → x.inProgress = true →
      ∃ y, s.running[j]? = some y ∧ y.inProgress = true ∧ y.keyId = x.keyId := by
    intro j x hx hp
    rw [hrunning] at hx
    rcases Lib.getElem?_set_cases hx with ⟨rfl, rfl⟩ | ⟨-, hx⟩
    · exact ⟨r, hi, hprogress hp, hkey.symm⟩
    · exact ⟨x, hx, hp, rfl⟩
  constructor
  · rwa [hrotations]
  · intro row hrow
    rw [hrotations] at hrow
    rw [hnext, hmark]
    refine ⟨(hrecorded row hrow).1, fun hnone => ?_⟩
    obtain ⟨x, hx, hxkey, hp, hxphase⟩ := (hrecorded row hrow).2 hnone
    obtain ⟨j, hj⟩ := List.getElem?_of_mem hx
    have hji : j ≠ i := by
      rintro rfl
      obtain rfl : r = x := Option.some.inj (hi.symm.trans hj)
      exact hphase hp hxphase
    exact ⟨x, List.mem_of_getElem? (by rw [hrunning, Lib.getElem?_set_ne hji, hj]), hxkey, hp, hxphase⟩
  · intro j k x x' hx hx' hp hp' hsame
    obtain ⟨y, hy, hyp, hykey⟩ := hat j x hx hp
    obtain ⟨y', hy', hyp', hykey'⟩ := hat k x' hx' hp'
    exact halone j k y y' hy hy' hyp hyp' (by rw [hykey, hykey', hsame])
  · intro x hx hp
    obtain ⟨j, hj⟩ := List.getElem?_of_mem hx
    obtain ⟨y, hy, hyp, hykey⟩ := hat j x hj hp
    rw [hmark, ← hykey]
    exact hcurrent y (List.mem_of_getElem? hy) hyp
  · intro x hx hp hxphase row hrow
    rw [hrotations] at hrow
    rw [hrunning] at hx
    rcases List.mem_or_eq_of_mem_set hx with hx | rfl
    · exact hunrecorded x hx hp hxphase row hrow
    · rw [hkey]
      exact hunrecorded r hr (hprogress hp) (hphase (hprogress hp)) row hrow

theorem State.mark_eq_some {k : Nat} {m : Option Nat}
    (h : s.mark k = some m) : ∃ key, s.keys.get? k = some key ∧ key.supersededAt = m :=
  Option.map_eq_some_iff.1 h

theorem Inv.update (hi : s.running[i]? = some r) (h : Inv s)
    (hrunning : s'.running = s.running.set i r')
    (hrotations : s'.rotations = s.rotations) (hclock : s'.clock = s.clock) (hnext : s'.nextId = s.nextId)
    (hmark : ∀ k, s'.mark k = s.mark k)
    (hkeys : ∀ k < s.nextId, ∀ key' ∈ s'.keys.get? k, ∃ key ∈ s.keys.get? k, AtMost key'.expiresAt key.expiresAt)
    (hok : r'.Ok s') (hkey : r'.keyId = r.keyId) (hprogress : r'.inProgress = true → r.inProgress = true)
    (hphase : r.inProgress = true → r.phase ≠ .superseding) (hphase' : r'.inProgress = true → r'.phase ≠ .superseding) : Inv s' where
  ids k hk := by
    rw [hmark] at hk
    rw [hnext]
    exact h.ids k hk
  known x hx := by
    rw [hmark]
    rw [hrunning] at hx
    rcases List.mem_or_eq_of_mem_set hx with hx | rfl
    · exact h.known x hx
    · rw [hkey]
      exact h.known r (List.mem_of_getElem? hi)
  rotations := h.update_rotations hrunning hok hclock hnext.ge hkeys
  exclusive := h.exclusive.update hi hrunning hrotations hnext hmark hkey hprogress hphase hphase'

theorem same_keys {keys keys' : Keys} (h : keys' = keys) (n : Nat) :
    ∀ k < n, ∀ key' ∈ keys'.get? k, ∃ key ∈ keys.get? k, AtMost key'.expiresAt key.expiresAt :=
  fun _ _ key' hkey' => ⟨key', h ▸ hkey', AtMost.refl _⟩

section

variable {keys : Keys} {k : Nat} {a b : ApiKey}

theorem get?_put_row (ha : keys.get? k = some a) (hid : b.id = a.id) (k' : Nat) :
    (keys.put b).get? k' = if k' = k then some b else keys.get? k' := by
  rw [Table.get?_put, hid, Table.get?_key ha]

theorem put_row_atMost (ha : keys.get? k = some a) (hid : b.id = a.id)
    (hle : AtMost b.expiresAt a.expiresAt) (k' : Nat) :
    ∀ x ∈ (keys.put b).get? k', ∃ y ∈ keys.get? k', AtMost x.expiresAt y.expiresAt := by
  intro x hx
  rw [get?_put_row ha hid] at hx
  split at hx
  · rename_i hsame
    cases hx
    exact ⟨a, by rw [hsame]; exact ha, hle⟩
  · exact ⟨x, hx, AtMost.refl _⟩

end

theorem Inv.fault (h : Inv s) (hi : s.running[i]? = some r) (hreturned : r.phase ≠ .returned)
    (hok : r.Undisturbed s true) : Inv (s.setRotation i { r with failed := true }) := by
  have hr := h.rotations r (List.mem_of_getElem? hi)
  have hphases : r.phase = .creating ∨ (r.phase = .copying ∨ r.phase = .shortening) ∧ isExpired r.previous.expiresAt s.clock = true := by
    unfold Rotation.Undisturbed at hok
    cases hphase : r.phase <;> simp_all
  refine h.update hi rfl rfl rfl rfl (State.mark_eq rfl) (same_keys rfl _)
    ⟨hr.creating, hr.known, hr.bare, hr.successor, hr.written, hr.early, fun _ => hphases⟩ rfl (fun hp => ?_) (fun _ hp => ?_)
    (fun hp => ?_)
  · simp [Rotation.inProgress] at hp
  · rw [hp] at hphases
    simp at hphases
  · simp [Rotation.inProgress] at hp

theorem Inv.create (h : Inv s) (hi : s.running[i]? = some r) (hfailed : r.failed = false)
    (hphase : r.phase = .creating)
    (hok : r.Undisturbed s false) : Inv ((advance s r).1.setRotation i (advance s r).2) := by
  have hmem := List.mem_of_getElem? hi
  have hr := h.rotations r hmem
  obtain ⟨hbare, hunmarked, halone'⟩ : _ ∧ _ ∧ _ := by simpa only [Rotation.Undisturbed, hphase] using hok
  obtain ⟨hunique, hrecorded, halone, hcurrent, hunrecorded⟩ := h.exclusive
  set s' := (advance s r).1.setRotation i (advance s r).2 with hs'
  set r' : Rotation := { r with phase := .copying, successor := some s.nextId } with hr'
  have hadvance : s' = { s with
      keys := s.keys.put (newKey s.nextId (successorName r) r.previous.machineId r.previous.expiresAt s.clock)
      nextId := s.nextId + 1, running := s.running.set i r' } := by
    rw [hs', advance_creating hphase]
    rfl
  have hfresh : s.keys.get? s.nextId = none := by
    by_contra hsome
    have hlt := h.ids s.nextId (by rw [State.mark, Option.isSome_map]; exact Option.isSome_iff_ne_none.2 hsome)
    omega
  have hget : ∀ k, s'.keys.get? k = if k = s.nextId then
      some (newKey s.nextId (successorName r) r.previous.machineId r.previous.expiresAt s.clock) else s.keys.get? k := by
    intro k
    rw [hadvance]
    exact Table.get?_put _ _ _
  have hold : ∀ k < s.nextId, s'.keys.get? k = s.keys.get? k := fun k hk => by rw [hget, if_neg (Nat.ne_of_lt hk)]
  have hmark : ∀ k < s.nextId, s'.mark k = s.mark k := fun k hk => by rw [State.mark, State.mark, hold k hk]
  have hrunning : s'.running = s.running.set i r' := by rw [hadvance]
  have hnext : s'.nextId = s.nextId + 1 := by rw [hadvance]
  have hrotations : s'.rotations = s.rotations := by rw [hadvance]
  have hclock : s'.clock = s.clock := by rw [hadvance]
  have hprogress : r.inProgress = false := by simp [Rotation.inProgress, hphase]
  have hcurrent' : s.mark r.keyId = some none := by
    obtain ⟨m, hm⟩ := Option.isSome_iff_exists.1 (h.known r hmem)
    obtain ⟨key, hkey, rfl⟩ := State.mark_eq_some hm
    rw [hm, hunmarked key hkey]
  have hfree : ∀ row ∈ s.rotations, row.predecessorKeyId ≠ r.keyId := by
    intro row hrow hsame
    obtain ⟨x, hx, hxkey, hp, -⟩ := (hrecorded row hrow).2 (by rw [hsame, hcurrent'])
    rw [halone' x hx (hxkey.trans hsame)] at hp
    cases hp
  refine ⟨fun k hk => ?_, fun x hx => ?_, ?_, ⟨?_, ?_, ?_, ?_, ?_⟩⟩
  · rw [hnext]
    by_cases hlt : k < s.nextId
    · omega
    · rw [State.mark, hget] at hk
      split at hk
      · omega
      · have := h.ids k hk
        omega
  · rw [hrunning] at hx
    rcases List.mem_or_eq_of_mem_set hx with hx | rfl
    · rw [hmark _ (h.rotations x hx).known]
      exact h.known x hx
    · rw [hmark _ hr.known]
      exact h.known r hmem
  · refine h.update_rotations hrunning ?_ hclock (by omega) fun k hk key' hkey' => ⟨key', by rwa [← hold k hk], AtMost.refl _⟩
    constructor
    · simp [hr']
    · rw [hnext]
      exact Nat.lt_succ_of_lt hr.known
    · rw [hclock]
      exact fun _ => hbare
    · intro k hk
      obtain rfl : s.nextId = k := Option.some.inj hk
      refine ⟨by omega, fun key hkey => ?_⟩
      rw [hget, if_pos rfl] at hkey
      cases hkey
      exact AtMost.refl _
    · exact hr.written
    · exact fun _ => hr.early (Or.inl hphase)
    · intro hf
      rw [hr'] at hf
      rw [hfailed] at hf
      cases hf
  · rwa [hrotations]
  · intro row hrow
    rw [hrotations] at hrow
    obtain ⟨hlt, hpending⟩ := hrecorded row hrow
    refine ⟨by omega, fun hnone => ?_⟩
    rw [hmark _ hlt] at hnone
    obtain ⟨x, hx, hxkey, hp, hxphase⟩ := hpending hnone
    obtain ⟨j, hj⟩ := List.getElem?_of_mem hx
    have hji : j ≠ i := by
      rintro rfl
      obtain rfl : r = x := Option.some.inj (hi.symm.trans hj)
      rw [hprogress] at hp
      cases hp
    exact ⟨x, List.mem_of_getElem? (by rw [hrunning, Lib.getElem?_set_ne hji, hj]), hxkey, hp, hxphase⟩
  · have hother : ∀ (j : Nat) x, s.running[j]? = some x → x.inProgress = true → x.keyId ≠ r.keyId := by
      intro j x hx hp hsame
      rw [halone' x (List.mem_of_getElem? hx) hsame] at hp
      cases hp
    intro j k x x' hx hx' hp hp' hsame
    rw [hrunning] at hx hx'
    rcases Lib.getElem?_set_cases hx with ⟨rfl, rfl⟩ | ⟨-, hj⟩
    · rcases Lib.getElem?_set_cases hx' with ⟨rfl, rfl⟩ | ⟨-, hk⟩
      · rfl
      · exact absurd hsame.symm (hother k x' hk hp')
    · rcases Lib.getElem?_set_cases hx' with ⟨rfl, rfl⟩ | ⟨-, hk⟩
      · exact absurd hsame (hother j x hj hp)
      · exact halone j k x x' hj hk hp hp' hsame
  · intro x hx hp
    rw [hrunning] at hx
    rcases List.mem_or_eq_of_mem_set hx with hx | rfl
    · rw [hmark _ (h.rotations x hx).known]
      exact hcurrent x hx hp
    · rw [hmark _ hr.known]
      exact hcurrent'
  · intro x hx hp hxphase row hrow
    rw [hrotations] at hrow
    rw [hrunning] at hx
    rcases List.mem_or_eq_of_mem_set hx with hx | rfl
    · exact hunrecorded x hx hp hxphase row hrow
    · exact hfree row hrow

theorem Rotation.Ok.hasSuccessor (h : r.Ok s)
    (hphase : r.phase ≠ .creating) : ∃ k, r.successor = some k := by
  rw [← Option.ne_none_iff_exists']
  exact fun hnone => hphase (h.creating.1 hnone)

theorem Inv.copy (h : Inv s) (hi : s.running[i]? = some r) (hfailed : r.failed = false)
    (hphase : r.phase = .copying) :
    Inv ((advance s r).1.setRotation i (advance s r).2) := by
  have hr := h.rotations r (List.mem_of_getElem? hi)
  obtain ⟨k, hk⟩ := hr.hasSuccessor (by simp [hphase])
  have hexpiry : ∀ k', ∀ key' ∈ (updateApiKey s.keys k (carried r.previous) s.clock).get? k', ∃ key ∈ s.keys.get? k',
      AtMost key'.expiresAt key.expiresAt := by
    intro k' key' hkey'
    rw [get?_updateApiKey] at hkey'
    split at hkey'
    · obtain ⟨key, hkey, rfl⟩ := Option.map_eq_some_iff.1 hkey'
      exact ⟨key, hkey, AtMost.refl _⟩
    · exact ⟨key', hkey', AtMost.refl _⟩
  rw [advance_copying hphase hk]
  refine h.update hi rfl rfl rfl rfl (mark_updateApiKey rfl) (fun k' _ => hexpiry k') ?_ rfl (fun hp => ?_) (fun _ => by simp [hphase])
    (fun _ => by simp)
  · constructor
    · simp [hk]
    · exact hr.known
    · exact fun _ => hr.bare (by simp [hphase])
    · intro k' hk'
      refine ⟨(hr.successor k' hk').1, fun key' hkey' => ?_⟩
      obtain ⟨key, hkey, hle⟩ := hexpiry k' key' hkey'
      exact hle.trans ((hr.successor k' hk').2 key hkey)
    · exact hr.written
    · exact fun _ => hr.early (by simp [hphase])
    · simp [hfailed]
  · simp [Rotation.inProgress, hphase, hfailed]

theorem Inv.shorten (h : Inv s) (hi : s.running[i]? = some r) (hfailed : r.failed = false)
    (hphase : r.phase = .shortening)
    (hok : r.Undisturbed s false) : Inv ((advance s r).1.setRotation i (advance s r).2) := by
  have hmem := List.mem_of_getElem? hi
  have hr := h.rotations r hmem
  have hp : r.inProgress = true := by simp [Rotation.inProgress, hphase, hfailed]
  obtain ⟨k, hk⟩ := hr.hasSuccessor (by simp [hphase])
  obtain ⟨key, hkey, hmark⟩ := State.mark_eq_some (h.exclusive.current r hmem hp)
  have hlater : AtMost (some r.end) key.expiresAt := by
    have hall : ∀ key ∈ s.keys.get? r.keyId, AtMost (some r.end) key.expiresAt := by
      simpa only [Rotation.Undisturbed, hphase] using hok
    exact hall key hkey
  have hexpiry := put_row_atMost (b := KeyLifecycle.shorten s r key) hkey rfl hlater
  have hwritten : Shortened r.end (key, KeyLifecycle.shorten s r key) := by
    refine ⟨hlater, rfl, fun t ht => ?_⟩
    have hnew : isExpired (some r.end) t = false := by simpa [isExpired] using ht
    have hold : isExpired key.expiresAt t = false := by
      by_contra hexpired
      rw [Bool.not_eq_false] at hexpired
      rw [isExpired_of_atMost hlater hexpired] at hnew
      cases hnew
    exact hnew.trans hold.symm
  rw [advance_shortening hphase hk hkey]
  refine h.update hi rfl rfl rfl rfl (fun k' => ?_) (fun k' _ => hexpiry k') ?_ rfl (fun _ => hp) (fun _ => by simp [hphase])
    (fun _ => by simp)
  · show ((s.keys.put (KeyLifecycle.shorten s r key)).get? k').map ApiKey.supersededAt = _
    rw [get?_put_row (b := KeyLifecycle.shorten s r key) hkey rfl]
    split
    · rename_i hsame
      rw [hsame, State.mark, hkey]
      rfl
    · rfl
  · constructor
    · simp [hk]
    · exact hr.known
    · exact fun _ => hr.bare (by simp [hphase])
    · intro k' hk'
      refine ⟨(hr.successor k' hk').1, fun key' hkey' => ?_⟩
      obtain ⟨key, hkey, hle⟩ := hexpiry k' key' hkey'
      exact hle.trans ((hr.successor k' hk').2 key hkey)
    · rw [List.forall_mem_append, List.forall_mem_singleton]
      exact ⟨hr.written, hwritten⟩
    · simp
    · simp [hfailed]

theorem Inv.record (h : Inv s) (hi : s.running[i]? = some r) (hfailed : r.failed = false)
    (hphase : r.phase = .recording) :
    Inv ((advance s r).1.setRotation i (advance s r).2) := by
  have hmem := List.mem_of_getElem? hi
  have hr := h.rotations r hmem
  have hp : r.inProgress = true := by simp [Rotation.inProgress, hphase, hfailed]
  obtain ⟨k, hk⟩ := hr.hasSuccessor (by simp [hphase])
  obtain ⟨hunique, hrecorded, halone, hcurrent, hunrecorded⟩ := h.exclusive
  rw [advance_recording hphase hk]
  set r' : Rotation := { r with phase := .superseding } with hr'
  set row : RotationRow := { successorKeyId := k, predecessorKeyId := r.keyId, rotatedAt := r.rotatedAt, overlapEndsAt := r.end
                             overlapHours := r.hours } with hrow
  have hp' : r'.inProgress = true := by simp [Rotation.inProgress, hr', hfailed]
  have hat : ∀ (j : Nat) x, (s.running.set i r')[j]? = some x → x.inProgress = true →
      ∃ y, s.running[j]? = some y ∧ y.inProgress = true ∧ y.keyId = x.keyId := by
    intro j x hx hxp
    rcases Lib.getElem?_set_cases hx with ⟨rfl, rfl⟩ | ⟨-, hx⟩
    · exact ⟨r, hi, hp, rfl⟩
    · exact ⟨x, hx, hxp, rfl⟩
  have hmark : ∀ k', State.mark { s with rotations := s.rotations ++ [row], running := s.running.set i r' } k' = s.mark k' :=
    State.mark_eq rfl
  refine ⟨h.ids, fun x hx => ?_, ?_, ⟨?_, ?_, ?_, ?_, ?_⟩⟩
  · rw [State.setRotation] at hx
    rcases List.mem_or_eq_of_mem_set hx with hx | rfl
    · exact h.known x hx
    · exact h.known r hmem
  · refine h.update_rotations rfl ?_ rfl le_rfl (same_keys rfl _)
    constructor
    · simp [hr', hk]
    · exact hr.known
    · exact fun _ => hr.bare (by simp [hphase])
    · exact hr.successor
    · exact hr.written
    · simp [hr']
    · simp [hr', hfailed]
  · show ((s.rotations ++ [row]).map RotationRow.predecessorKeyId).Nodup
    rw [List.map_append, List.nodup_append]
    refine ⟨hunique, List.nodup_singleton _, ?_⟩
    rintro a ha b hb rfl
    obtain ⟨x, hx, rfl⟩ := List.mem_map.1 ha
    exact hunrecorded r hmem hp (by simp [hphase]) x hx (by simpa [hrow] using hb)
  · intro x hx
    rcases List.mem_append.1 hx with hx | hx
    · obtain ⟨hlt, hpending⟩ := hrecorded x hx
      refine ⟨hlt, fun hnone => ?_⟩
      obtain ⟨y, hy, hykey, hyp, hyphase⟩ := hpending hnone
      obtain ⟨j, hj⟩ := List.getElem?_of_mem hy
      have hji : j ≠ i := by
        rintro rfl
        obtain rfl : r = y := Option.some.inj (hi.symm.trans hj)
        rw [hphase] at hyphase
        cases hyphase
      exact ⟨y, List.mem_of_getElem? ((Lib.getElem?_set_ne hji).trans hj), hykey, hyp, hyphase⟩
    · obtain rfl := List.mem_singleton.1 hx
      exact ⟨hr.known, fun _ => ⟨r', List.mem_of_getElem? (Lib.getElem?_set_of_some hi), rfl, hp', rfl⟩⟩
  · intro j j' x x' hx hx' hxp hxp' hsame
    obtain ⟨y, hy, hyp, hykey⟩ := hat j x hx hxp
    obtain ⟨y', hy', hyp', hykey'⟩ := hat j' x' hx' hxp'
    exact halone j j' y y' hy hy' hyp hyp' (by rw [hykey, hykey', hsame])
  · intro x hx hxp
    obtain ⟨j, hj⟩ := List.getElem?_of_mem hx
    obtain ⟨y, hy, hyp, hykey⟩ := hat j x hj hxp
    rw [← hykey]
    exact hcurrent y (List.mem_of_getElem? hy) hyp
  · intro x hx hxp hxphase row' hrow'
    obtain ⟨j, hj⟩ := List.getElem?_of_mem hx
    rcases Lib.getElem?_set_cases hj with ⟨rfl, rfl⟩ | ⟨hji, hold⟩
    · exact absurd rfl hxphase
    · rcases List.mem_append.1 hrow' with hrow' | hrow'
      · exact hunrecorded x (List.mem_of_getElem? hold) hxp hxphase row' hrow'
      · obtain rfl := List.mem_singleton.1 hrow'
        exact fun hsame => hji (halone j i x r hold hi hxp hp hsame.symm)

theorem Inv.supersede (h : Inv s) (hi : s.running[i]? = some r) (hfailed : r.failed = false)
    (hphase : r.phase = .superseding) :
    Inv ((advance s r).1.setRotation i (advance s r).2) := by
  have hmem := List.mem_of_getElem? hi
  have hr := h.rotations r hmem
  have hp : r.inProgress = true := by simp [Rotation.inProgress, hphase, hfailed]
  obtain ⟨k, hk⟩ := hr.hasSuccessor (by simp [hphase])
  obtain ⟨hunique, hrecorded, halone, hcurrent, hunrecorded⟩ := h.exclusive
  obtain ⟨key, hkey, hnone⟩ := State.mark_eq_some (hcurrent r hmem hp)
  have hexpiry := put_row_atMost (b := KeyLifecycle.supersede r key) hkey rfl (AtMost.refl _)
  have hwritten : Shortened r.end (key, KeyLifecycle.supersede r key) := ⟨AtMost.refl _, rfl, fun _ _ => rfl⟩
  rw [advance_superseding hphase hk hkey]
  set r' : Rotation := { r with phase := .returned, written := r.written ++ [(key, KeyLifecycle.supersede r key)] } with hr'
  set s' : State := State.setRotation { s with keys := s.keys.put (KeyLifecycle.supersede r key) } i r' with hs'
  have hidle : r'.inProgress = false := by simp [Rotation.inProgress, hr']
  have hmark : ∀ k', s'.mark k' = if k' = r.keyId then some (some r.rotatedAt) else s.mark k' := by
    intro k'
    show ((s.keys.put (KeyLifecycle.supersede r key)).get? k').map ApiKey.supersededAt = _
    rw [get?_put_row (b := KeyLifecycle.supersede r key) hkey rfl]
    split <;> rfl
  have hat : ∀ (j : Nat) x, s'.running[j]? = some x → x.inProgress = true → j ≠ i ∧ s.running[j]? = some x := by
    intro j x hx hxp
    rcases Lib.getElem?_set_cases hx with ⟨rfl, rfl⟩ | hx
    · rw [hidle] at hxp
      cases hxp
    · exact hx
  refine ⟨fun k' hk' => ?_, fun x hx => ?_, ?_, ⟨hunique, ?_, ?_, ?_, ?_⟩⟩
  · rw [hmark] at hk'
    split at hk'
    · rename_i hsame
      exact hsame ▸ hr.known
    · exact h.ids k' hk'
  · have hold : (s.mark x.keyId).isSome = true := by
      rcases List.mem_or_eq_of_mem_set hx with hx | rfl
      · exact h.known x hx
      · exact h.known r hmem
    rw [hmark]
    split
    · rfl
    · exact hold
  · refine h.update_rotations rfl ?_ rfl le_rfl fun k' _ => hexpiry k'
    constructor
    · simp [hr', hk]
    · exact hr.known
    · exact fun _ => hr.bare (by simp [hphase])
    · intro k' hk'
      refine ⟨(hr.successor k' hk').1, fun key' hkey' => ?_⟩
      obtain ⟨key, hkey, hle⟩ := hexpiry k' key' hkey'
      exact hle.trans ((hr.successor k' hk').2 key hkey)
    · rw [List.forall_mem_append, List.forall_mem_singleton]
      exact ⟨hr.written, hwritten⟩
    · simp [hr']
    · simp [hr', hfailed]
  · intro row hrow
    refine ⟨(hrecorded row hrow).1, fun hunmarked => ?_⟩
    rw [hmark] at hunmarked
    split at hunmarked
    · cases hunmarked
    rename_i hne
    obtain ⟨x, hx, hxkey, hxp, hxphase⟩ := (hrecorded row hrow).2 hunmarked
    obtain ⟨j, hj⟩ := List.getElem?_of_mem hx
    have hji : j ≠ i := by
      rintro rfl
      obtain rfl : r = x := Option.some.inj (hi.symm.trans hj)
      exact hne hxkey.symm
    exact ⟨x, List.mem_of_getElem? ((Lib.getElem?_set_ne hji).trans hj), hxkey, hxp, hxphase⟩
  · intro j j' x x' hx hx' hxp hxp' hsame
    exact halone j j' x x' (hat j x hx hxp).2 (hat j' x' hx' hxp').2 hxp hxp' hsame
  · intro x hx hxp
    obtain ⟨j, hj⟩ := List.getElem?_of_mem hx
    obtain ⟨hji, hj⟩ := hat j x hj hxp
    rw [hmark, if_neg fun hsame => hji (halone j i x r hj hi hxp hp hsame)]
    exact hcurrent x (List.mem_of_getElem? hj) hxp
  · intro x hx hxp hxphase row hrow
    obtain ⟨j, hj⟩ := List.getElem?_of_mem hx
    exact hunrecorded x (List.mem_of_getElem? (hat j x hj hxp).2) hxp hxphase row hrow

end

/-! ### Runs -/

theorem Inv.resume {s : State} (h : Inv s) (i : Nat) (fault : Bool)
    (hok : Undisturbed s (.resume i fault)) :
    Inv (resume s i fault) := by
  unfold KeyLifecycle.resume
  unfold Undisturbed at hok
  cases hi : s.running[i]? with
  | none => exact h
  | some r =>
    simp only [hi] at hok ⊢
    by_cases hstopped : r.failed = true ∨ r.phase = .returned
    · rw [if_pos hstopped]
      exact h
    rw [if_neg hstopped]
    rw [not_or, Bool.not_eq_true] at hstopped
    obtain ⟨hfailed, hreturned⟩ := hstopped
    have hwrite : r.Undisturbed s fault := by
      rcases hok with hf | hret | hwrite
      · rw [hfailed] at hf
        cases hf
      · exact absurd hret hreturned
      · exact hwrite
    cases fault with
    | true => exact h.fault hi hreturned hwrite
    | false =>
      cases hphase : r.phase with
      | creating => exact h.create hi hfailed hphase hwrite
      | copying => exact h.copy hi hfailed hphase
      | shortening => exact h.shorten hi hfailed hphase hwrite
      | recording => exact h.record hi hfailed hphase
      | superseding => exact h.supersede hi hfailed hphase
      | returned => exact absurd hphase hreturned

theorem Inv.step {s : State} (op : Op) (hok : Undisturbed s op) (h : Inv s) : Inv (step s op) := by
  have hold : ∀ r ∈ s.running, ∀ k ∈ r.successor, ∀ key ∈ s.keys.get? k, AtMost key.expiresAt r.previous.expiresAt :=
    fun r hr k hk => ((h.rotations r hr).successor k hk).2
  have hpatch : ∀ id data, op.patch = some (id, data) → PatchUndisturbed s id data →
      Inv { s with keys := updateApiKey s.keys id data s.clock } := fun _ _ _ hok => h.patch hok
  cases op with
  | elapse milliseconds => exact h.shift rfl rfl (Nat.le_add_right _ _) rfl (State.mark_eq rfl) hold
  | rotate keyId overlapHours name =>
    unfold KeyLifecycle.step
    simp only
    cases hbegin : beginRotation s keyId overlapHours name with
    | error e => exact h
    | ok r =>
      obtain ⟨hkey, hphase, hfailed, hsuccessor, hwritten⟩ := beginRotation_ok hbegin
      exact h.begin hkey hphase hfailed hsuccessor hwritten
  | resume i fault => exact h.resume i fault hok
  | spend id usage => exact h.shift rfl rfl le_rfl rfl (State.mark_eq rfl) hold
  | validate id => exact h
  | update id data fault =>
    cases fault with
    | true => exact h
    | false => exact h.patch hok
  | adopt id settings date fault =>
    cases fault with
    | true => cases settings <;> exact h
    | false =>
      cases settings with
      | none => exact h
      | some settings => exact h.patch hok

/-- No rotation is at work, and every key that was rotated is marked and has one successor. -/
structure Settled (s : State) : Prop where
  running : s.running = []
  ids : ∀ k, (s.mark k).isSome = true → k < s.nextId
  unique : (s.rotations.map RotationRow.predecessorKeyId).Nodup
  marked : ∀ row ∈ s.rotations, row.predecessorKeyId < s.nextId ∧ s.mark row.predecessorKeyId ≠ some none

theorem Settled.inv {s : State} (h : Settled s) : Inv s := by
  refine ⟨h.ids, ?_, ?_, ⟨h.unique, fun row hrow => ?_, ?_, ?_, ?_⟩⟩
  · simp [h.running]
  · simp [h.running]
  · exact ⟨(h.marked row hrow).1, fun hnone => absurd hnone (h.marked row hrow).2⟩
  · simp [h.running]
  · simp [h.running]
  · simp [h.running]

/-- **Key rotation never widens access** in the runs in which every rotation creates its successor
from a key without restrictions (or one that has expired), alone for this key, does not fail after
that (unless the key has expired and is not written yet), finds the key's expiry not moved before
the end it chose, and no patch gives a successor a later expiry. -/
theorem rotation_neverWidens {s : State} (h : Settled s) {ops : List Op}
    (hok : Meets step Undisturbed s ops) :
    NeverWidens (run step s ops) :=
  (run_inv_of_meets (fun _ op hok h => h.step op hok) hok h.inv).neverWidens


/-! ### Runs of an office -/

/-- Two keys: the first may do anything, the second may spend ten dollars. -/
def office : State where
  clock := 1000
  keys := (Table.empty.put { id := 0, name := "open".toList, machineId := some "m".toList, createdAt := 0 }).put
    { id := 1, name := "capped".toList, machineId := some "m".toList, createdAt := 0, maxCostUsd := some 10 }
  nextId := 2

theorem office_settled : Settled office where
  running := rfl
  ids k hk := by
    by_contra hge
    have h0 : (0 : Nat) ≠ k := by simp only [office] at hge; omega
    have h1 : (1 : Nat) ≠ k := by simp only [office] at hge; omega
    simp [office, State.mark, Table.get?, Table.put, Table.empty, h0, h1] at hk
  unique := List.nodup_nil
  marked _ hrow := absurd hrow List.not_mem_nil

def rotation (keyId i writes : Nat) : List Op := .rotate keyId (some 24) none :: List.replicate writes (.resume i false)

/-- The open key is rotated while its expiry is put off, and cannot be rotated again. -/
def carefulRun : List Op :=
  rotation 0 0 2 ++ [Op.update 0 { expiresAt := some (some 90000000) } false, .resume 0 false, .validate 0, .resume 0 false, .resume 0 false] ++
    rotation 0 1 5

theorem carefulRun_neverWidens :
    (run step office carefulRun).rotations.length = 1 ∧ NeverWidens (run step office carefulRun) :=
  ⟨by decide +kernel, rotation_neverWidens office_settled (by decide +kernel)⟩

/-- The successor of the capped key is valid before its ceiling is copied; two rotations of one key
leave two successors; a write that fails leaves a usable key; and an expiry that was brought forward
meanwhile is moved later. -/
theorem rotation_widens :
    ¬ NeverWidens (run step office (rotation 1 0 1)) ∧
    ¬ NeverWidens (run step office (Op.rotate 0 (some 24) none :: rotation 0 0 5 ++ List.replicate 5 (Op.resume 1 false))) ∧
    ¬ NeverWidens (run step office (rotation 0 0 1 ++ [Op.resume 0 true])) ∧
    ¬ NeverWidens (run step office (rotation 0 0 2 ++ [Op.update 0 { expiresAt := some (some 2000) } false, .resume 0 false])) := by
  refine ⟨fun h => ?_, fun h => ?_, fun h => ?_, fun h => ?_⟩
  · have hnarrow := h.narrow
    have hcapped : ¬ ∀ r ∈ (run step office (rotation 1 0 1)).running, ∀ k ∈ r.successor,
        ∀ key ∈ (run step office (rotation 1 0 1)).keys.get? k, (run step office (rotation 1 0 1)).validates key = true →
          AtMost key.maxCostUsd r.previous.maxCostUsd := by decide +kernel
    exact hcapped fun r hr k hk key hkey hvalid => (hnarrow r hr k hk key hkey hvalid).costUsd
  · exact absurd h.unique (by decide +kernel)
  · exact absurd h.failures (by decide +kernel)
  · have hlater : ¬ ∀ r ∈ (run step office (rotation 0 0 2 ++
        [.update 0 { expiresAt := some (some 2000) } false, .resume 0 false])).running, ∀ w ∈ r.written,
          AtMost w.2.expiresAt w.1.expiresAt := by decide +kernel
    exact hlater fun r hr w hw => (h.predecessor r hr w hw).notLater

end TokenProxy.KeyLifecycle
