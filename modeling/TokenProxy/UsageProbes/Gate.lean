import TokenProxy.Lib.Arena
import TokenProxy.Lib.Run
import TokenProxy.Lib.Table

/-!
# The gate of usage probes

`usageProbeGate.js`: at most `MAX_CONCURRENT_PROBES` probes run at a time, further ones wait in a
queue of `MAX_WAITING_PROBES`, and callers that ask for the same thing while a probe for it is on
its way share that probe.

* A probe is known by its place among all probes that were ever made. Its phase says how far its
  promise is: the slot was granted but the probe is not called yet (`granted`), the slot was refused
  but `inFlight` does not know yet (`refused`).
* The microtasks between these come in any order, and any caller may come between.

`gate_bounded` and `gate_shared` say what holds in every reachable state, `gate_in_order` that no
probe overtakes one that waits.
-/

namespace TokenProxy.UsageProbes

open Lib

def MAX_CONCURRENT_PROBES : ℕ := 4

def MAX_WAITING_PROBES : ℕ := 64

inductive Phase where
  | queued
  | granted
  | running
  | settled
  | refused
  | failed
  deriving DecidableEq

structure Probe (κ : Type) where
  key : κ
  phase : Phase
  deriving DecidableEq

variable {κ : Type} [DecidableEq κ]

structure State (κ : Type) [DecidableEq κ] where
  probes : List (Probe κ) := []
  inFlight : Dict κ ℕ := Table.empty
  active : ℕ := 0
  waiting : List ℕ := []

/-- `acquireSlot`, of the probe that is made next: its phase, and the gate. -/
def acquireSlot (s : State κ) (aborted : Bool) : Phase × State κ :=
  if s.active < MAX_CONCURRENT_PROBES then (.granted, { s with active := s.active + 1 })
  else if MAX_WAITING_PROBES ≤ s.waiting.length then (.refused, s)
  else if aborted then (.refused, s)
  else (.queued, { s with waiting := s.waiting ++ [s.probes.length] })

def runUsageProbe (s : State κ) (key : κ) (aborted : Bool) : State κ :=
  match s.inFlight.lookup key with
  | some _ => s
  | none =>
    let (phase, acquired) := acquireSlot s aborted
    { acquired with probes := s.probes ++ [⟨key, phase⟩], inFlight := s.inFlight.put (key, s.probes.length) }

def State.setPhase (s : State κ) (i : ℕ) (phase : Phase) : State κ :=
  match s.probes[i]? with
  | some probe => { s with probes := s.probes.set i { probe with phase } }
  | none => s

def releaseSlot (s : State κ) : State κ :=
  match s.waiting with
  | [] => { s with active := s.active - 1 }
  | next :: waiting => State.setPhase { s with active := s.active - 1 + 1, waiting } next .granted

inductive GateOp (κ : Type) where
  | call (key : κ) (aborted : Bool)
  /-- The signal of a probe aborts. -/
  | abort (i : ℕ)
  /-- The slot resolved: the probe is called. -/
  | start (i : ℕ)
  /-- The probe ended, whether it answered or threw. -/
  | settle (i : ℕ)
  /-- The slot was refused: the callers learn of it. -/
  | fail (i : ℕ)

def gateStep (s : State κ) : GateOp κ → State κ
  | .call key aborted => runUsageProbe s key aborted
  | .abort i => if i ∈ s.waiting then State.setPhase { s with waiting := s.waiting.erase i } i .refused else s
  | .start i =>
    match s.probes[i]? with
    | some ⟨_, .granted⟩ => s.setPhase i .running
    | _ => s
  | .settle i =>
    match s.probes[i]? with
    | some ⟨key, .running⟩ => releaseSlot (State.setPhase { s with inFlight := s.inFlight.erase key } i .settled)
    | _ => s
  | .fail i =>
    match s.probes[i]? with
    | some ⟨key, .refused⟩ => State.setPhase { s with inFlight := s.inFlight.erase key } i .failed
    | _ => s

/-! ### The invariant -/

def Probe.holds (p : Probe κ) : Bool := p.phase = .granted ∨ p.phase = .running

def Probe.served (p : Probe κ) : Bool := p.phase = .granted ∨ p.phase = .running ∨ p.phase = .settled

def Probe.live (p : Probe κ) : Bool := p.phase ≠ .settled ∧ p.phase ≠ .failed

/-- What the counter, the queue and the table say of the probes. `freed` slots were given back and
are not passed on yet. -/
structure Inv (freed : ℕ) (s : State κ) : Prop where
  counted : s.active = s.probes.countP Probe.holds + freed
  bounded : s.active ≤ MAX_CONCURRENT_PROBES
  room : s.waiting.length ≤ MAX_WAITING_PROBES
  full : s.waiting ≠ [] → s.active = MAX_CONCURRENT_PROBES
  queued : ∀ i, i ∈ s.waiting ↔ ∃ p, s.probes[i]? = some p ∧ p.phase = .queued
  sorted : s.waiting.Pairwise (· < ·)
  found : ∀ key i, s.inFlight.lookup key = some i ↔ ∃ p, s.probes[i]? = some p ∧ p.key = key ∧ p.live = true
  inOrder : ∀ i ∈ s.waiting, ∀ (j : ℕ) (p : Probe κ), i < j → s.probes[j]? = some p → p.served = false

variable {s : State κ} {i freed : ℕ} {p p' : Probe κ}

theorem Inv.lt_length (h : Inv freed s) (hi : i ∈ s.waiting) : i < s.probes.length := by
  obtain ⟨q, hq, -⟩ := (h.queued i).mp hi
  exact (List.getElem?_eq_some_iff.mp hq).1

theorem found_set (h : Inv freed s) (hp : s.probes[i]? = some p) (hkey : p'.key = p.key)
    (hlive : p'.live = p.live) (key : κ) (j : ℕ) :
    s.inFlight.lookup key = some j ↔ ∃ q, (s.probes.set i p')[j]? = some q ∧ q.key = key ∧ q.live = true := by
  rw [h.found]
  by_cases hj : j = i
  · subst hj
    rw [getElem?_set_of_some hp, hp]
    simp [hkey, hlive]
  · rw [getElem?_set_ne hj]

theorem found_erase (h : Inv freed s) (hp : s.probes[i]? = some p) (hlive : p.live = true)
    (hdead : p'.live = false) (key : κ) (j : ℕ) :
    (s.inFlight.erase p.key).lookup key = some j ↔ ∃ q, (s.probes.set i p')[j]? = some q ∧ q.key = key ∧ q.live = true := by
  have hself : s.inFlight.lookup p.key = some i := (h.found p.key i).mpr ⟨p, hp, rfl, hlive⟩
  rw [Table.lookup_erase]
  by_cases hj : j = i
  · subst hj
    rw [getElem?_set_of_some hp]
    split
    · simp [hdead]
    · rename_i hkey
      constructor
      · intro hlookup
        obtain ⟨q, hq, hqkey, -⟩ := (h.found key j).mp hlookup
        rw [hp, Option.some.injEq] at hq
        subst hq
        exact absurd hqkey.symm hkey
      · rintro ⟨q, hq, -, hqlive⟩
        rw [Option.some.injEq] at hq
        subst hq
        rw [hdead] at hqlive
        exact absurd hqlive (by decide)
  · rw [getElem?_set_ne hj]
    split
    · rename_i hkey
      subst hkey
      refine iff_of_false (by simp) fun hq => hj ?_
      have hother := (h.found p.key j).mpr hq
      rw [hself, Option.some.injEq] at hother
      exact hother.symm
    · exact h.found key j

/-! ### One change of phase -/

theorem Inv.move {freed' : ℕ} {phase : Phase} {inFlight : Dict κ ℕ} (h : Inv freed s)
    (hp : s.probes[i]? = some p)
    (hfrom : p.phase ≠ .queued) (hto : phase ≠ .queued) (hserved : ({ p with phase } : Probe κ).served = true → p.served = true)
    (hfreed : freed' + ({ p with phase } : Probe κ).holds.toNat = freed + p.holds.toNat)
    (hfound : ∀ key j, inFlight.lookup key = some j ↔ ∃ q, (s.probes.set i { p with phase })[j]? = some q ∧ q.key = key ∧ q.live = true) :
    Inv freed' { s with probes := s.probes.set i { p with phase }, inFlight } where
  counted := by
    have hcount : (s.probes.set i { p with phase }).countP Probe.holds + p.holds.toNat =
        s.probes.countP Probe.holds + ({ p with phase } : Probe κ).holds.toNat := countP_set_of_some hp
    have := h.counted
    simp only
    omega
  bounded := h.bounded
  room := h.room
  full := h.full
  queued j := by
    rw [h.queued]
    by_cases hj : j = i
    · subst hj
      rw [getElem?_set_of_some hp, hp]
      simp [hfrom, hto]
    · rw [getElem?_set_ne hj]
  sorted := h.sorted
  found := hfound
  inOrder j hj k q hk hq := by
    rcases getElem?_set_cases hq with ⟨rfl, rfl⟩ | ⟨-, hq⟩
    · have hbefore := h.inOrder j hj k p hk hp
      by_contra hnow
      rw [hserved (by simpa using hnow)] at hbefore
      exact absurd hbefore (by decide)
    · exact h.inOrder j hj k q hk hq

theorem Inv.dequeue {freed' : ℕ} {phase : Phase} (h : Inv freed s) (hi : i ∈ s.waiting)
    (hp : s.probes[i]? = some p) (hto : phase ≠ .queued)
    (hlive : ({ p with phase } : Probe κ).live = true) (hfirst : ({ p with phase } : Probe κ).served = true → ∀ j ∈ s.waiting, i ≤ j)
    (hfreed : freed' + ({ p with phase } : Probe κ).holds.toNat = freed) :
    Inv freed' { s with probes := s.probes.set i { p with phase }, waiting := s.waiting.erase i } := by
  have hnodup : s.waiting.Nodup := h.sorted.imp fun hlt => Nat.ne_of_lt hlt
  have hqueued : p.phase = .queued := by
    obtain ⟨q, hq, hphase⟩ := (h.queued i).mp hi
    rw [hp, Option.some.injEq] at hq
    rwa [hq]
  constructor
  case counted =>
    have hcount : (s.probes.set i { p with phase }).countP Probe.holds + p.holds.toNat =
        s.probes.countP Probe.holds + ({ p with phase } : Probe κ).holds.toNat := countP_set_of_some hp
    have hholds : p.holds = false := by simp [Probe.holds, hqueued]
    rw [hholds] at hcount
    have := h.counted
    simp only [Bool.toNat_false] at hcount ⊢
    omega
  case bounded => exact h.bounded
  case room => exact (List.erase_sublist.length_le).trans h.room
  case full =>
    intro hne
    apply h.full
    intro he
    exact hne (by simp [he])
  case queued =>
    intro j
    simp only
    rw [hnodup.mem_erase_iff, h.queued]
    by_cases hj : j = i
    · subst hj
      rw [getElem?_set_of_some hp]
      simp [hto]
    · rw [getElem?_set_ne hj]
      simp [hj]
  case sorted => exact h.sorted.sublist List.erase_sublist
  case found =>
    intro key j
    have hkey : ({ p with phase } : Probe κ).key = p.key := rfl
    have hsame : ({ p with phase } : Probe κ).live = p.live := by
      rw [hlive]
      simp [Probe.live, hqueued]
    exact found_set h hp hkey hsame key j
  case inOrder =>
    intro j hj k q hk hq
    have hmem := (hnodup.mem_erase_iff.mp hj).2
    rcases getElem?_set_cases hq with ⟨rfl, rfl⟩ | ⟨-, hq⟩
    · by_contra hnow
      have := hfirst (by simpa using hnow) j hmem
      omega
    · exact h.inOrder j hmem k q hk hq

/-! ### Calls -/

theorem found_snoc (h : Inv freed s) {key : κ} (hnone : s.inFlight.lookup key = none)
    {phase : Phase} (hlive : (⟨key, phase⟩ : Probe κ).live = true) (key' : κ) (j : ℕ) :
    (s.inFlight.put (key, s.probes.length)).lookup key' = some j ↔
      ∃ q, (s.probes ++ [(⟨key, phase⟩ : Probe κ)])[j]? = some q ∧ q.key = key' ∧ q.live = true := by
  simp only [getElem?_snoc]
  rw [Table.lookup_put]
  split
  · rename_i hkey
    subst hkey
    constructor
    · intro hj
      rw [Option.some.injEq] at hj
      exact ⟨_, Or.inr ⟨hj.symm, rfl⟩, rfl, hlive⟩
    · rintro ⟨q, hq | ⟨rfl, rfl⟩, hqkey, hqlive⟩
      · rw [(h.found key' j).mpr ⟨q, hq, hqkey, hqlive⟩] at hnone
        exact absurd hnone (by simp)
      · rfl
  · rename_i hkey
    rw [h.found]
    constructor
    · rintro ⟨q, hq, hrest⟩
      exact ⟨q, Or.inl hq, hrest⟩
    · rintro ⟨q, hq | ⟨-, rfl⟩, hqkey, hqlive⟩
      · exact ⟨q, hq, hqkey, hqlive⟩
      · exact absurd hqkey.symm hkey

theorem Inv.make {active : ℕ} {phase : Phase} (h : Inv 0 s) {key : κ}
    (hnone : s.inFlight.lookup key = none) (hphase : phase ≠ .queued)
    (hlive : (⟨key, phase⟩ : Probe κ).live = true) (hactive : active = s.active + (⟨key, phase⟩ : Probe κ).holds.toNat)
    (hbounded : active ≤ MAX_CONCURRENT_PROBES) (hempty : (⟨key, phase⟩ : Probe κ).served = true → s.waiting = []) :
    Inv 0 { s with active, probes := s.probes ++ [⟨key, phase⟩], inFlight := s.inFlight.put (key, s.probes.length) } := by
  constructor
  case counted =>
    have hcounted := h.counted
    simp only [List.countP_append]
    rw [hactive, hcounted]
    cases hholds : (⟨key, phase⟩ : Probe κ).holds <;> simp [hholds]
  case bounded => exact hbounded
  case room => exact h.room
  case full =>
    intro hne
    have hfull := h.full hne
    simp only
    have hle : s.active ≤ active := by omega
    omega
  case queued =>
    intro j
    simp only [getElem?_snoc]
    rw [h.queued]
    constructor
    · rintro ⟨q, hq, hrest⟩
      exact ⟨q, Or.inl hq, hrest⟩
    · rintro ⟨q, hq | ⟨-, rfl⟩, hqueued⟩
      · exact ⟨q, hq, hqueued⟩
      · exact absurd hqueued hphase
  case sorted => exact h.sorted
  case found => exact found_snoc h hnone hlive
  case inOrder =>
    intro j hj k q hk hq
    rcases getElem?_snoc.mp hq with hq | ⟨-, rfl⟩
    · exact h.inOrder j hj k q hk hq
    · by_contra hnow
      rw [hempty (by simpa using hnow)] at hj
      exact absurd hj (by simp)

theorem Inv.enqueue (h : Inv 0 s) {key : κ} (hnone : s.inFlight.lookup key = none)
    (hfull : s.active = MAX_CONCURRENT_PROBES) (hroom : s.waiting.length < MAX_WAITING_PROBES) :
    Inv 0 { s with
      waiting := s.waiting ++ [s.probes.length]
      probes := s.probes ++ [⟨key, .queued⟩]
      inFlight := s.inFlight.put (key, s.probes.length) } := by
  constructor
  case counted =>
    have hholds : (⟨key, .queued⟩ : Probe κ).holds = false := by simp [Probe.holds]
    have := h.counted
    simp only [List.countP_append, List.countP_singleton, hholds, Bool.false_eq_true, if_false]
    omega
  case bounded => exact h.bounded
  case room =>
    simp only [List.length_append, List.length_singleton]
    omega
  case full => exact fun _ => hfull
  case queued =>
    intro j
    simp only [getElem?_snoc, List.mem_append, List.mem_singleton]
    rw [h.queued]
    constructor
    · rintro (⟨q, hq, hrest⟩ | hj)
      · exact ⟨q, Or.inl hq, hrest⟩
      · exact ⟨_, Or.inr ⟨hj, rfl⟩, rfl⟩
    · rintro ⟨q, hq | ⟨hj, -⟩, hqueued⟩
      · exact Or.inl ⟨q, hq, hqueued⟩
      · exact Or.inr hj
  case sorted =>
    rw [List.pairwise_append]
    refine ⟨h.sorted, by simp, ?_⟩
    intro j hj k hk
    rw [List.mem_singleton.mp hk]
    exact h.lt_length hj
  case found => exact found_snoc h hnone (by simp [Probe.live])
  case inOrder =>
    intro j hj k q hk hq
    rcases getElem?_snoc.mp hq with hq | ⟨-, rfl⟩
    · rcases List.mem_append.mp hj with hj | hj
      · exact h.inOrder j hj k q hk hq
      · have hlt := (List.getElem?_eq_some_iff.mp hq).1
        rw [List.mem_singleton.mp hj] at hk
        omega
    · simp [Probe.served]

theorem Inv.runUsageProbe (h : Inv 0 s) (key : κ)
    (aborted : Bool) : Inv 0 (runUsageProbe s key aborted) := by
  unfold UsageProbes.runUsageProbe
  split
  · exact h
  · rename_i hnone
    have hbounded := h.bounded
    unfold acquireSlot
    by_cases hfree : s.active < MAX_CONCURRENT_PROBES
    · rw [if_pos hfree]
      refine h.make hnone (by decide) (by simp [Probe.live]) (by simp [Probe.holds]) hfree fun _ => ?_
      by_contra hne
      have := h.full hne
      omega
    rw [if_neg hfree]
    have hrefused : Inv 0 { s with
        probes := s.probes ++ [⟨key, .refused⟩], inFlight := s.inFlight.put (key, s.probes.length) } :=
      h.make hnone (by decide) (by simp [Probe.live]) (by simp [Probe.holds]) hbounded (by simp [Probe.served])
    by_cases hroom : MAX_WAITING_PROBES ≤ s.waiting.length
    · rw [if_pos hroom]
      exact hrefused
    · rw [if_neg hroom]
      cases aborted with
      | true => exact hrefused
      | false => exact h.enqueue hnone (by omega) (by omega)

/-! ### Steps -/

theorem Inv.releaseSlot (h : Inv 1 s) : Inv 0 (releaseSlot s) := by
  unfold UsageProbes.releaseSlot
  have hcounted := h.counted
  have hbounded := h.bounded
  split
  · rename_i hwaiting
    exact ⟨by simp only; omega, by simp only; omega, h.room, fun hne => absurd hwaiting hne, h.queued, h.sorted, h.found, h.inOrder⟩
  · rename_i next waiting hwaiting
    have hnext : next ∈ s.waiting := by simp [hwaiting]
    obtain ⟨q, hq, -⟩ := (h.queued next).mp hnext
    have hsorted := h.sorted
    rw [hwaiting, List.pairwise_cons] at hsorted
    have hfirst : ∀ j ∈ s.waiting, next ≤ j := by
      intro j hj
      rw [hwaiting, List.mem_cons] at hj
      rcases hj with rfl | hj
      · exact Nat.le_refl _
      · exact Nat.le_of_lt (hsorted.1 j hj)
    have hinv : Inv 0 { s with probes := s.probes.set next { q with phase := .granted }, waiting := s.waiting.erase next } :=
      h.dequeue hnext hq (by decide) (by simp [Probe.live]) (fun _ => hfirst) (by simp [Probe.holds])
    have hactive : s.active - 1 + 1 = s.active := by omega
    simp only [State.setPhase, hq, hactive]
    simpa [hwaiting] using hinv

theorem Inv.gateStep (h : Inv 0 s) (op : GateOp κ) : Inv 0 (gateStep s op) := by
  cases op with
  | call key aborted => exact h.runUsageProbe key aborted
  | abort i =>
    rw [UsageProbes.gateStep]
    split
    · rename_i hi
      obtain ⟨q, hq, -⟩ := (h.queued i).mp hi
      simp only [State.setPhase, hq]
      exact h.dequeue hi hq (by decide) (by simp [Probe.live]) (by simp [Probe.served]) (by simp [Probe.holds])
    · exact h
  | start i =>
    rw [UsageProbes.gateStep]
    split
    · rename_i key hp
      simp only [State.setPhase, hp]
      exact h.move hp (by simp) (by decide) (by simp [Probe.served]) (by simp [Probe.holds])
        (found_set h hp rfl (by simp [Probe.live]))
    · exact h
  | settle i =>
    rw [UsageProbes.gateStep]
    split
    · rename_i key hp
      simp only [State.setPhase, hp]
      apply Inv.releaseSlot
      exact h.move hp (by simp) (by decide) (by simp [Probe.served]) (by simp [Probe.holds])
        (found_erase h hp (by simp [Probe.live]) (by simp [Probe.live]))
    · exact h
  | fail i =>
    rw [UsageProbes.gateStep]
    split
    · rename_i key hp
      simp only [State.setPhase, hp]
      exact h.move hp (by simp) (by decide) (by simp [Probe.served]) (by simp [Probe.holds])
        (found_erase h hp (by simp [Probe.live]) (by simp [Probe.live]))
    · exact h

/-! ### What every run of the gate guarantees -/

def reached (ops : List (GateOp κ)) : State κ := run gateStep {} ops

theorem inv_reached (ops : List (GateOp κ)) : Inv 0 (reached ops) := by
  apply run_inv (fun s op (h : Inv 0 s) => h.gateStep op)
  constructor
  case counted => rfl
  case bounded => exact Nat.zero_le _
  case room => exact Nat.zero_le _
  case full => exact fun h => absurd rfl h
  case queued => exact fun i => by simp
  case sorted => exact List.Pairwise.nil
  case found => exact fun key i => by simp [Table.lookup]
  case inOrder => exact fun i hi => absurd hi (by simp)

/-- However calls, aborts and answers interleave, at most four probes have a slot, and they are
those that are counted; at most 64 wait, each once in the queue, and none while a slot is free. -/
theorem gate_bounded (ops : List (GateOp κ)) :
    ((reached ops).active = (reached ops).probes.countP Probe.holds ∧ (reached ops).active ≤ MAX_CONCURRENT_PROBES) ∧
      ((reached ops).waiting.length ≤ MAX_WAITING_PROBES ∧ (reached ops).waiting.Nodup) ∧
      (∀ i, i ∈ (reached ops).waiting ↔ ∃ p, (reached ops).probes[i]? = some p ∧ p.phase = .queued) ∧
      ((reached ops).waiting ≠ [] → (reached ops).active = MAX_CONCURRENT_PROBES) := by
  have h := inv_reached ops
  exact ⟨⟨h.counted, h.bounded⟩, ⟨h.room, h.sorted.imp fun hlt => Nat.ne_of_lt hlt⟩, h.queued, h.full⟩

/-- There is never more than one probe for a key that callers can join, and a call
joins it wherever there is one. -/
theorem gate_shared (ops : List (GateOp κ)) (key : κ) :
    (∀ (i j : ℕ) (p q : Probe κ), (reached ops).probes[i]? = some p → (reached ops).probes[j]? = some q → p.key = key → q.key = key →
        p.live = true → q.live = true → i = j) ∧
      ∀ aborted, runUsageProbe (reached ops) key aborted = reached ops ↔ ∃ p ∈ (reached ops).probes, p.key = key ∧ p.live = true := by
  have h := inv_reached ops
  generalize reached ops = s at h
  constructor
  · intro i j p q hp hq hpkey hqkey hplive hqlive
    have hi := (h.found key i).mpr ⟨p, hp, hpkey, hplive⟩
    rw [(h.found key j).mpr ⟨q, hq, hqkey, hqlive⟩, Option.some.injEq] at hi
    exact hi.symm
  · intro aborted
    unfold runUsageProbe
    cases hlookup : s.inFlight.lookup key with
    | some i =>
      obtain ⟨p, hp, hkey, hlive⟩ := (h.found key i).mp hlookup
      exact iff_of_true rfl ⟨p, List.mem_of_getElem? hp, hkey, hlive⟩
    | none =>
      refine iff_of_false ?_ ?_
      · -- a probe more than before
        intro he
        have hlength := congrArg (fun t : State κ => t.probes.length) he
        simp only [List.length_append, List.length_singleton] at hlength
        omega
      · rintro ⟨p, hp, hkey, hlive⟩
        obtain ⟨i, hi⟩ := List.mem_iff_getElem?.mp hp
        rw [(h.found key i).mpr ⟨p, hi, hkey, hlive⟩] at hlookup
        exact absurd hlookup (by simp)

/-- While a probe waits, none that was called for later has or had a slot. -/
theorem gate_in_order (ops : List (GateOp κ)) (i j : ℕ) :
    ∀ p q, (reached ops).probes[i]? = some p → (reached ops).probes[j]? = some q → p.phase = .queued → i < j → q.served = false :=
  fun p q hp hq hqueued hij => (inv_reached ops).inOrder i (((inv_reached ops).queued i).mpr ⟨p, hp, hqueued⟩) j q hij hq

/-- Four probes have the slots, a fifth waits, and so does a sixth. -/
theorem sixth_waits : (⟨"f", .queued⟩ : Probe String).served = false :=
  gate_in_order (["a", "b", "c", "d", "e", "f"].map fun key => .call key false) 4 5 ⟨"e", .queued⟩ ⟨"f", .queued⟩ (by decide) (by decide) rfl
    (by decide)

end TokenProxy.UsageProbes
