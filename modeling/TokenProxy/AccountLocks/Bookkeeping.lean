import TokenProxy.AccountLocks.Locks
import TokenProxy.Lib.Arena
import TokenProxy.Lib.Run

/-!
# Bookkeeping under concurrency

Requests on one connection: each is selected with a snapshot of the row, and its failures and its
success are recorded by calls whose read, decision and write are steps of their own. A success works
on the snapshot, so what it removes was decided long before it is written (`Outdated`).
-/

namespace TokenProxy.AccountLocks

open Lib (run Meets run_inv)

/-! ### The system -/

/-- A request as it was selected; `selectedAt` counts the writes of the row until then. -/
structure Request where
  model : Option String
  snapshot : Connection
  selectedAt : Nat

/-- A call in progress: a mark that read the row, a patch that was decided, or nothing any more.
`clears` is the request and the time of a clear. -/
inductive Call where
  | marking (model : Option String) (failure : Failure) (backoffLevel : Nat)
  | writing (patch : Patch) (clears : Option (Request × Nat))
  | done

structure State where
  clock : Nat
  row : Connection
  writes : Nat := 0
  requests : List Request := []
  calls : List Call := []

inductive Op where
  | elapse (milliseconds : Nat)
  | select (model : Option String)
  | fail (model : Option String) (failure : Failure)
  | succeed (i : Nat)
  | decide (j : Nat)
  | write (j : Nat)

def State.setCall (s : State) (j : Nat) (c : Call) : State := { s with calls := s.calls.set j c }

def step (s : State) : Op → State
  | .elapse milliseconds => { s with clock := s.clock + milliseconds }
  | .select model => { s with requests := s.requests ++ [{ model, snapshot := s.row, selectedAt := s.writes }] }
  | .fail model failure => { s with calls := s.calls ++ [.marking model failure s.row.backoffLevel] }
  | .succeed i =>
    match s.requests[i]? with
    | some r =>
      match clearPatch r.snapshot r.model s.clock with
      | some patch => { s with calls := s.calls ++ [.writing patch (some (r, s.clock))] }
      | none => s
    | none => s
  | .decide j =>
    match s.calls[j]? with
    | some (.marking model failure backoffLevel) =>
      s.setCall j (match markPatch failure model backoffLevel s.clock with
        | some patch => .writing patch none
        | none => .done)
    | _ => s
  | .write j =>
    match s.calls[j]? with
    | some (.writing patch _) => { s with row := merge s.row patch s.writes, writes := s.writes + 1 }.setCall j .done
    | _ => s

/-! ### The property -/

/-- Each lock has the metadata of its failure, with the same end. -/
def Paired (c : Connection) : Prop := ∀ k, ∀ l ∈ c.lock k, ∃ f ∈ c.failure k, f.endsAt = l.endsAt

/-- What a clear of `r` may make of the row: it removes no active lock of another model
and no lock that was written after `r` was selected, and resets the error state only in
a row without active locks. -/
structure ClearsSafely (r : Request) (patch : Patch) (before after : Connection)
    (now : Nat) : Prop where
  others : ∀ k, ∀ l ∈ before.lock k, l.active now = true → k ≠ modelKey r.model → k ≠ allModels → after.lock k = some l
  later : ∀ k, ∀ l ∈ before.lock k, r.selectedAt ≤ l.written → after.lock k = some l
  reset : patch.testStatus = some .active → ∀ k, ∀ l ∈ after.lock k, l.active now = false

def StepSafe (s : State) (op : Op) : Prop :=
  ∀ j, op = .write j → ∀ patch r at', s.calls[j]? = some (.writing patch (some (r, at'))) →
    ClearsSafely r patch s.row (step s op).row s.clock

/-! ### The condition -/

/-- The success of `r`, recorded at `at'`, leaves the lock `k` alone: `r` was selected without a
field for it, or with one of another model that had not ended. -/
def Request.Spares (r : Request) (at' : Nat) (k : String) : Prop :=
  r.snapshot.hasLockKey k = false ∨ ((named r.model = true → k ≠ modelKey r.model ∧ k ≠ allModels) ∧ expired r.snapshot at' k = false)

/-- `r` was selected with a lock of another model that was still active
when its success was recorded. -/
def Request.KnowsLock (r : Request) (at' : Nat) : Prop :=
  ∃ k, ∃ l ∈ r.snapshot.lock k, l.active at' = true ∧ (named r.model = true → k ≠ modelKey r.model ∧ k ≠ allModels)

/-- When a clear is written, each lock that was written since its request was selected is one that
the request spares; and if it is still active, the request knows of another active lock. -/
def Current (s : State) (op : Op) : Prop :=
  ∀ j, op = .write j → ∀ patch r at', s.calls[j]? = some (.writing patch (some (r, at'))) →
    ∀ k, ∀ l ∈ s.row.lock k, r.selectedAt ≤ l.written → r.Spares at' k ∧ (l.active s.clock = true → r.KnowsLock at')

/-! ### What a clear removes -/

variable {c : Connection} {model : Option String} {now : Nat} {k : String}

theorem mem_allLockKeys : k ∈ allLockKeys c ↔ c.hasLockKey k = true := by
  unfold allLockKeys Connection.hasLockKey Lib.Table.lookup
  rw [Option.isSome_map, List.mem_map]
  constructor
  · rintro ⟨row, hrow, rfl⟩
    rw [Lib.Table.get?_of_mem hrow]
    rfl
  · intro hsome
    obtain ⟨row, hrow⟩ := Option.isSome_iff_exists.1 hsome
    exact ⟨row, Lib.Table.get?_mem hrow, Lib.Table.get?_key hrow⟩

theorem hasLockKey_of_lock {l : Lock} (h : l ∈ c.lock k) : c.hasLockKey k = true := by
  unfold Connection.lock at h
  unfold Connection.hasLockKey
  cases hk : c.locks.lookup k with
  | none => simp [hk] at h
  | some value => rfl

theorem mem_keysToClear : k ∈ keysToClear c model now ↔
    c.hasLockKey k = true ∧ (named model = true ∧ (k = modelKey model ∨ k = allModels) ∨ expired c now k = true) := by
  simp [keysToClear, mem_allLockKeys]

theorem spares_iff {r : Request} : r.Spares now k ↔ k ∉ keysToClear r.snapshot r.model now := by
  rw [mem_keysToClear]
  unfold Request.Spares
  cases hkey : r.snapshot.hasLockKey k <;> cases hnamed : named r.model <;> cases hexpired : expired r.snapshot now k <;> simp

theorem expired_of_lock {l : Lock} (h : l ∈ c.lock k) : expired c now k = !l.active now := by
  have hk : c.lock k = some l := h
  rw [expired, hk]
  rfl

theorem knowsLock_iff {r : Request} :
    r.KnowsLock now ↔ remainingActiveLocks r.snapshot r.model now ≠ [] := by
  constructor
  · rintro ⟨k, l, hl, hactive, hother⟩ hnil
    have hmem : k ∈ remainingActiveLocks r.snapshot r.model now := by
      simp only [remainingActiveLocks, List.mem_filter, mem_allLockKeys, hasLockKey_of_lock hl, Bool.and_eq_true,
        decide_eq_true_eq, true_and]
      have hk : r.snapshot.lock k = some l := hl
      refine ⟨spares_iff.1 (Or.inr ⟨hother, ?_⟩), by rw [hk]; exact hactive⟩
      rw [expired_of_lock hl, hactive]
      rfl
    rw [hnil] at hmem
    cases hmem
  · intro hne
    obtain ⟨k, hk⟩ := List.exists_mem_of_ne_nil _ hne
    simp only [remainingActiveLocks, List.mem_filter, mem_allLockKeys, Bool.and_eq_true, decide_eq_true_eq] at hk
    obtain ⟨hkey, hkept, hactive⟩ := hk
    obtain ⟨hlock, hactive⟩ := (Option.any_eq_true_iff_get _ _).1 hactive
    refine ⟨k, _, Option.get_mem hlock, hactive, fun hnamed => ?_⟩
    rcases spares_iff.2 hkept with hnone | ⟨hother, -⟩
    · rw [hkey] at hnone
      cases hnone
    · exact hother hnamed

/-! ### Invariants -/

def KeysPaired (c : Connection) : Prop := ∀ k, c.hasFailureKey k = true → c.hasLockKey k = true

/-- What a request was selected with, seen from the row as it is: a lock that is older
than the selection was there. -/
def Request.Seen (row : Connection) (r : Request) : Prop :=
  ∀ k, ∀ l ∈ row.lock k, l.written < r.selectedAt → r.snapshot.lock k = some l

end TokenProxy.AccountLocks
