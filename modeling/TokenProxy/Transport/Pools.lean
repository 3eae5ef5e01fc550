import TokenProxy.Lib.Arena
import TokenProxy.Lib.Run
import TokenProxy.Lib.Table

/-!
# The cache of transport pools

`dispatcherCache.js`: at most `maxSize` pools of connections, one for each key. A caller reserves
the pool of its key before it exists and releases it when it has the headers. A further key takes
the place of the first pool that nobody has reserved and that is idle; that pool is closed before
the new one is made, and where it cannot be closed its place is lost.

* An entry is known by its place among all entries that were ever made, and so is the pool that it
  makes.
* Which pools are idle is told by the transport with each call; disposing of a pool and making one
  end in a step of their own.

`pools_bounded` counts the open pools, `reserved_kept` says that nobody loses a pool that is
reserved.
-/

namespace TokenProxy.Transport

open Lib

/-- How far the promise of an entry is. `previous` is the pool whose place it takes. -/
inductive Phase where
  | disposing (previous : ℕ)
  | creating
  | ready
  | stuck (previous : ℕ)
  | failed
  deriving DecidableEq

structure Entry (κ : Type) where
  key : κ
  phase : Phase
  reservations : ℕ
  /-- Its pool was made, and not closed yet. -/
  opened : Bool
  deriving DecidableEq

structure Handle where
  entry : ℕ
  released : Bool
  deriving DecidableEq

inductive Refusal where
  | poolCapacity
  | poolsClosed
  deriving DecidableEq

variable {κ : Type} [DecidableEq κ]

structure Pools (κ : Type) [DecidableEq κ] where
  entries : Dict κ ℕ := Table.empty
  pool : List (Entry κ) := []
  handles : List Handle := []
  closed : Bool := false

def Entry.hold (e : Entry κ) : Entry κ := { e with reservations := e.reservations + 1 }

def Pools.setEntry (s : Pools κ) (i : ℕ) (e : Entry κ) : Pools κ := { s with pool := s.pool.set i e }

def Pools.shut (s : Pools κ) (i : ℕ) : Pools κ :=
  match s.pool[i]? with
  | some e => s.setEntry i { e with opened := false }
  | none => s

def Pools.setPhase (s : Pools κ) (i : ℕ) (phase : Phase) : Pools κ :=
  match s.pool[i]? with
  | some e => s.setEntry i { e with phase }
  | none => s

/-- `candidate.resource && candidate.reservations === 0 && candidate.resource.isIdle()` -/
def evictable (s : Pools κ) (idle : ℕ → Bool) (row : κ × ℕ) : Bool :=
  match s.pool[row.2]? with
  | some e => e.phase = .ready ∧ e.reservations = 0 ∧ idle row.2
  | none => false

def Pools.make (s : Pools κ) (key : κ) (phase : Phase) : Pools κ :=
  { s with
    entries := s.entries.put (key, s.pool.length)
    pool := s.pool ++ [{ key, phase, reservations := 1, opened := false }]
    handles := s.handles ++ [{ entry := s.pool.length, released := false }] }

def reserve (maxSize : ℕ) (s : Pools κ) (key : κ) (idle : ℕ → Bool) : Except Refusal (Pools κ) :=
  if s.closed then .error .poolsClosed
  else
    match s.entries.lookup key with
    | some i =>
      match s.pool[i]? with
      | some e =>
        .ok { s.setEntry i e.hold with
          entries := (s.entries.erase key).put (key, i), handles := s.handles ++ [{ entry := i, released := false }] }
      | none => .ok s
    | none =>
      if s.entries.rows.length < maxSize then .ok (s.make key .creating)
      else
        match s.entries.rows.find? (evictable s idle) with
        | none => .error .poolCapacity
        | some row => .ok (Pools.make { s with entries := s.entries.erase row.1 } key (.disposing row.2))

def release (s : Pools κ) (h : ℕ) : Pools κ :=
  match s.handles[h]? with
  | some ⟨i, false⟩ =>
    match s.pool[i]? with
    | some e =>
      { s.setEntry i { e with reservations := e.reservations - 1 } with handles := s.handles.set h { entry := i, released := true } }
    | none => s
  | _ => s

/-- The pool that an entry owns, its own or the one whose place it takes. -/
def Entry.owned (i : ℕ) (e : Entry κ) : Option ℕ :=
  match e.phase with
  | .ready => some i
  | .disposing previous => some previous
  | .stuck previous => some previous
  | .creating => none
  | .failed => none

/-- `entry.promise` has settled. -/
def Entry.settled (e : Entry κ) : Bool :=
  match e.phase with
  | .disposing _ => false
  | .creating => false
  | _ => true

def allDisposed (s : Pools κ) : Bool :=
  s.entries.rows.all fun row =>
    match s.pool[row.2]? with
    | some e => e.settled && (e.owned row.2).all fun j => (s.pool[j]?).all fun f => !f.opened
    | none => true

inductive PoolOp (κ : Type) where
  | reserve (key : κ) (idle : ℕ → Bool)
  | release (h : ℕ)
  /-- `dispose(entry.previous)` ends. -/
  | disposeEnds (i : ℕ) (ok : Bool)
  /-- `create()` ends. -/
  | createEnds (i : ℕ) (ok : Bool)
  | close
  /-- `close` disposed of the pool of an entry. -/
  | closeDisposes (i : ℕ)
  | closeEnds

def poolStep (maxSize : ℕ) (s : Pools κ) : PoolOp κ → Pools κ
  | .reserve key idle =>
    match reserve maxSize s key idle with
    | .ok s => s
    | .error _ => s
  | .release h => release s h
  | .disposeEnds i ok =>
    match s.pool[i]? with
    | some e =>
      match e.phase with
      | .disposing previous =>
        if ok then (s.shut previous).setPhase i .creating else s.setPhase i (.stuck previous)
      | _ => s
    | none => s
  | .createEnds i ok =>
    match s.pool[i]? with
    | some e =>
      if e.phase = .creating then
        if ok then s.setEntry i { e with phase := .ready, opened := true }
        else
          { s.setEntry i { e with phase := .failed } with
            entries := if s.entries.lookup e.key = some i then s.entries.erase e.key else s.entries }
      else s
    | none => s
  | .close => { s with closed := true }
  | .closeDisposes i =>
    match s.pool[i]? with
    | some e =>
      if s.closed ∧ e.settled ∧ s.entries.lookup e.key = some i then
        match e.owned i with
        | some j => s.shut j
        | none => s
      else s
    | none => s
  | .closeEnds => if s.closed ∧ allDisposed s then { s with entries := Table.empty } else s

/-! ### The invariant -/

structure Inv (maxSize : ℕ) (s : Pools κ) : Prop where
  size : s.entries.rows.length ≤ maxSize
  keyed : ∀ key i, s.entries.lookup key = some i → ∃ e, s.pool[i]? = some e ∧ e.key = key
  /-- An open pool is owned by an entry that has a place. -/
  owned : ∀ (j : ℕ) e, s.pool[j]? = some e → e.opened = true →
    ∃ key i f, s.entries.lookup key = some i ∧ s.pool[i]? = some f ∧ f.owned i = some j
  counted : ∀ (i : ℕ) e, s.pool[i]? = some e → e.reservations = s.handles.countP fun h => h.entry = i ∧ h.released = false
  /-- A reserved entry has its place, unless its pool could not be made. -/
  kept : s.closed = false → ∀ (i : ℕ) e, s.pool[i]? = some e → 0 < e.reservations → e.phase ≠ .failed → s.entries.lookup e.key = some i
  working : s.closed = false → ∀ key i e, s.entries.lookup key = some i → s.pool[i]? = some e → e.phase = .ready → e.opened = true
  /-- A pool that gave its place away is not found again. -/
  evicted : ∀ (i : ℕ) e j, s.pool[i]? = some e → e.phase = .disposing j → j < s.pool.length ∧ ∀ key, s.entries.lookup key ≠ some j
  /-- A pool is open in its own entry only. -/
  fresh : ∀ (i : ℕ) e, s.pool[i]? = some e → e.opened = true → e.phase = .ready
  /-- Handles are of entries that were made. -/
  made : ∀ x ∈ s.handles, x.entry < s.pool.length
  /-- An entry whose pool is to be made has its place. -/
  pending : ∀ (i : ℕ) e, s.pool[i]? = some e → (e.phase = .creating ∨ ∃ j, e.phase = .disposing j) → s.entries.lookup e.key = some i

variable {maxSize : ℕ} {s : Pools κ} {i : ℕ} {e : Entry κ}

theorem lookup_of_mem {d : Dict κ ℕ} {row : κ × ℕ}
    (h : row ∈ d.rows) : d.lookup row.1 = some row.2 := by
  rw [Table.lookup, Table.get?_of_mem h]
  rfl

theorem length_put_le (d : Dict κ ℕ) (row : κ × ℕ) :
    (d.put row).rows.length ≤ d.rows.length + 1 := by
  cases hget : d.get? row.1 with
  | none => rw [Table.rows_put_none hget, List.length_append, List.length_singleton]
  | some old =>
    unfold Table.put
    split <;> simp

theorem length_erase_lt {d : Dict κ ℕ} {key : κ} {i : ℕ}
    (h : d.lookup key = some i) : (d.erase key).rows.length < d.rows.length := by
  unfold Table.lookup at h
  obtain ⟨row, hrow, -⟩ := Option.map_eq_some_iff.mp h
  apply List.length_filter_lt_length_iff_exists.mpr
  exact ⟨row, Table.get?_mem hrow, by simp [Table.get?_key hrow]⟩

theorem Inv.key_of_lookup (h : Inv maxSize s) {key : κ} (hlookup : s.entries.lookup key = some i)
    (hp : s.pool[i]? = some e) : e.key = key := by
  obtain ⟨f, hf, hkey⟩ := h.keyed key i hlookup
  rw [hp, Option.some.injEq] at hf
  rwa [hf]

theorem Inv.count (h : Inv maxSize s) (hp : s.pool[i]? = some e) {n : ℕ} {entries : Dict κ ℕ}
    {handles : List Handle}
    (hlookup : ∀ key, entries.lookup key = s.entries.lookup key) (hsize : entries.rows.length ≤ maxSize)
    (hcounted : ∀ (j : ℕ) f, (s.pool.set i { e with reservations := n })[j]? = some f →
      f.reservations = handles.countP fun h => h.entry = j ∧ h.released = false)
    (hmade : ∀ x ∈ handles, x.entry < s.pool.length)
    (hkept : s.closed = false → 0 < n → e.phase ≠ .failed → s.entries.lookup e.key = some i) :
    Inv maxSize { s with entries, pool := s.pool.set i { e with reservations := n }, handles } := by
  have hset (j : ℕ) (f : Entry κ) (hf : (s.pool.set i { e with reservations := n })[j]? = some f) :
      ∃ g, s.pool[j]? = some g ∧ f.key = g.key ∧ f.phase = g.phase ∧ f.opened = g.opened ∧ f.owned j = g.owned j := by
    rcases getElem?_set_cases hf with ⟨rfl, rfl⟩ | ⟨-, hf⟩
    · exact ⟨e, hp, rfl, rfl, rfl, rfl⟩
    · exact ⟨f, hf, rfl, rfl, rfl, rfl⟩
  have hback (j : ℕ) (g : Entry κ) (hg : s.pool[j]? = some g) :
      ∃ f, (s.pool.set i { e with reservations := n })[j]? = some f ∧ f.key = g.key ∧ f.owned j = g.owned j := by
    by_cases hj : j = i
    · subst hj
      rw [hp, Option.some.injEq] at hg
      subst hg
      exact ⟨_, getElem?_set_of_some hp, rfl, rfl⟩
    · exact ⟨g, by rw [getElem?_set_ne hj, hg], rfl, rfl⟩
  constructor
  case size => exact hsize
  case keyed =>
    intro key j hj
    rw [hlookup] at hj
    obtain ⟨g, hg, hkey⟩ := h.keyed key j hj
    obtain ⟨f, hf, hfkey, -⟩ := hback j g hg
    exact ⟨f, hf, hfkey.trans hkey⟩
  case owned =>
    intro j f hf hopened
    obtain ⟨g, hg, -, -, hsame, -⟩ := hset j f hf
    obtain ⟨key, k, o, hk, ho, howned⟩ := h.owned j g hg (hsame ▸ hopened)
    obtain ⟨o', ho', -, hsame'⟩ := hback k o ho
    exact ⟨key, k, o', by rw [hlookup, hk], ho', hsame'.trans howned⟩
  case counted => exact hcounted
  case kept =>
    intro hclosed j f hf hpos hphase
    rw [hlookup]
    rcases getElem?_set_cases hf with ⟨rfl, rfl⟩ | ⟨-, hf⟩
    · exact hkept hclosed hpos hphase
    · exact h.kept hclosed j f hf hpos hphase
  case working =>
    intro hclosed key j f hj hf hready
    obtain ⟨g, hg, -, hphase, hopened, -⟩ := hset j f hf
    rw [hopened]
    exact h.working hclosed key j g (by rw [← hlookup, hj]) hg (by rw [← hphase, hready])
  case evicted =>
    intro j f k hf hphase
    obtain ⟨g, hg, -, hsame, -⟩ := hset j f hf
    obtain ⟨hlt, hnot⟩ := h.evicted j g k hg (by rw [← hsame, hphase])
    refine ⟨by rwa [List.length_set], fun key => ?_⟩
    rw [hlookup]
    exact hnot key
  case fresh =>
    intro j f hf hopened
    obtain ⟨g, hg, -, hphase, hsame, -⟩ := hset j f hf
    rw [hphase]
    exact h.fresh j g hg (hsame ▸ hopened)
  case made =>
    intro x hx
    simp only [List.length_set]
    exact hmade x hx
  case pending =>
    intro j f hf hphase
    obtain ⟨g, hg, hkey, hsame, -⟩ := hset j f hf
    rw [hlookup, hkey]
    exact h.pending j g hg (hsame ▸ hphase)

theorem Inv.shut (h : Inv maxSize s) {j : ℕ} (hgone : s.closed = false → ∀ key, s.entries.lookup key ≠ some j) : Inv maxSize (s.shut j) := by
  unfold Pools.shut
  split
  case h_2 => exact h
  rename_i e hp
  have hset (k : ℕ) (f : Entry κ) (hf : (s.pool.set j { e with opened := false })[k]? = some f) :
      ∃ g, s.pool[k]? = some g ∧ f.key = g.key ∧ f.phase = g.phase ∧ f.reservations = g.reservations ∧
        (f.opened = true → g.opened = true) ∧ (k ≠ j → f = g) := by
    rcases getElem?_set_cases hf with ⟨rfl, rfl⟩ | ⟨-, hf⟩
    · exact ⟨e, hp, rfl, rfl, rfl, fun he => absurd he (by simp), fun hne => absurd rfl hne⟩
    · exact ⟨f, hf, rfl, rfl, rfl, id, fun _ => rfl⟩
  have hback (k : ℕ) (g : Entry κ) (hg : s.pool[k]? = some g) :
      ∃ f, (s.pool.set j { e with opened := false })[k]? = some f ∧ f.key = g.key ∧ f.owned k = g.owned k := by
    by_cases hk : k = j
    · subst hk
      rw [hp, Option.some.injEq] at hg
      subst hg
      exact ⟨_, getElem?_set_of_some hp, rfl, rfl⟩
    · exact ⟨g, by rw [getElem?_set_ne hk, hg], rfl, rfl⟩
  constructor
  case size => exact h.size
  case keyed =>
    intro key k hk
    obtain ⟨g, hg, hkey⟩ := h.keyed key k hk
    obtain ⟨f, hf, hfkey, -⟩ := hback k g hg
    exact ⟨f, hf, hfkey.trans hkey⟩
  case owned =>
    intro k f hf hopened
    obtain ⟨g, hg, -, -, -, hsame, -⟩ := hset k f hf
    obtain ⟨key, l, o, hl, ho, howned⟩ := h.owned k g hg (hsame hopened)
    obtain ⟨o', ho', -, hsame'⟩ := hback l o ho
    exact ⟨key, l, o', hl, ho', hsame'.trans howned⟩
  case counted =>
    intro k f hf
    obtain ⟨g, hg, -, -, hsame, -⟩ := hset k f hf
    rw [hsame]
    exact h.counted k g hg
  case kept =>
    intro hclosed k f hf hpos hphase
    obtain ⟨g, hg, hkey, hsame, hreservations, -⟩ := hset k f hf
    rw [hkey]
    exact h.kept hclosed k g hg (hreservations ▸ hpos) (hsame ▸ hphase)
  case working =>
    intro hclosed key k f hk hf hready
    obtain ⟨g, hg, -, -, -, -, hother⟩ := hset k f hf
    have hne : k ≠ j := by
      rintro rfl
      exact hgone hclosed key hk
    obtain rfl := hother hne
    exact h.working hclosed key k f hk hg hready
  case evicted =>
    intro k f l hf hphase
    obtain ⟨g, hg, -, hsame, -⟩ := hset k f hf
    obtain ⟨hlt, hnot⟩ := h.evicted k g l hg (by rw [← hsame, hphase])
    exact ⟨by simpa [Pools.setEntry] using hlt, hnot⟩
  case fresh =>
    intro k f hf hopened
    obtain ⟨g, hg, -, hphase, -, hsame, -⟩ := hset k f hf
    rw [hphase]
    exact h.fresh k g hg (hsame hopened)
  case made =>
    intro x hx
    simp only [Pools.setEntry, List.length_set]
    exact h.made x hx
  case pending =>
    intro k f hf hphase
    obtain ⟨g, hg, hkey, hsame, -⟩ := hset k f hf
    rw [hkey]
    exact h.pending k g hg (hsame ▸ hphase)

theorem Inv.advance (h : Inv maxSize s) (hp : s.pool[i]? = some e) {phase : Phase} {opened : Bool}
    (hplace : s.entries.lookup e.key = some i)
    (howned : ∀ j f, e.owned i = some j → s.pool[j]? = some f → f.opened = true → ({ e with phase, opened } : Entry κ).owned i = some j)
    (hopened : opened = true → phase = .ready)
    (hworking : phase = .ready → opened = true) (hphase : ∀ j, phase ≠ .disposing j) :
    Inv maxSize (s.setEntry i { e with phase, opened }) := by
  unfold Pools.setEntry
  constructor
  case size => exact h.size
  case keyed =>
    intro key j hj
    obtain ⟨g, hg, hkey⟩ := h.keyed key j hj
    by_cases hji : j = i
    · subst hji
      rw [hp, Option.some.injEq] at hg
      subst hg
      exact ⟨_, getElem?_set_of_some hp, hkey⟩
    · exact ⟨g, by rw [getElem?_set_ne hji, hg], hkey⟩
  case owned =>
    intro j f hf hfopened
    by_cases hji : j = i
    · subst hji
      rw [getElem?_set_of_some hp, Option.some.injEq] at hf
      subst hf
      exact ⟨e.key, j, _, hplace, getElem?_set_of_some hp, by simp [Entry.owned, hopened hfopened]⟩
    · rw [getElem?_set_ne hji] at hf
      obtain ⟨key, k, o, hk, ho, hoj⟩ := h.owned j f hf hfopened
      by_cases hki : k = i
      · subst hki
        rw [hp, Option.some.injEq] at ho
        subst ho
        exact ⟨key, k, _, hk, getElem?_set_of_some hp, howned j f hoj hf hfopened⟩
      · exact ⟨key, k, o, hk, by rw [getElem?_set_ne hki, ho], hoj⟩
  case counted =>
    intro j f hf
    rcases getElem?_set_cases hf with ⟨rfl, rfl⟩ | ⟨-, hf⟩
    · exact h.counted j e hp
    · exact h.counted j f hf
  case kept =>
    intro hclosed j f hf hpos hfphase
    rcases getElem?_set_cases hf with ⟨rfl, rfl⟩ | ⟨-, hf⟩
    · exact hplace
    · exact h.kept hclosed j f hf hpos hfphase
  case working =>
    intro hclosed key j f hj hf hready
    rcases getElem?_set_cases hf with ⟨rfl, rfl⟩ | ⟨-, hf⟩
    · exact hworking hready
    · exact h.working hclosed key j f hj hf hready
  case evicted =>
    intro j f k hf hfphase
    rcases getElem?_set_cases hf with ⟨rfl, rfl⟩ | ⟨-, hf⟩
    · exact absurd hfphase (hphase k)
    · obtain ⟨hlt, hnot⟩ := h.evicted j f k hf hfphase
      exact ⟨by rwa [List.length_set], hnot⟩
  case fresh =>
    intro j f hf hfopened
    rcases getElem?_set_cases hf with ⟨rfl, rfl⟩ | ⟨-, hf⟩
    · exact hopened hfopened
    · exact h.fresh j f hf hfopened
  case made =>
    intro x hx
    simp only [List.length_set]
    exact h.made x hx
  case pending =>
    intro j f hf hfphase
    rcases getElem?_set_cases hf with ⟨rfl, rfl⟩ | ⟨-, hf⟩
    · exact hplace
    · exact h.pending j f hf hfphase

theorem Inv.fail (h : Inv maxSize s) (hp : s.pool[i]? = some e) (hcreating : e.phase = .creating) :
    Inv maxSize { s.setEntry i { e with phase := .failed } with entries := s.entries.erase e.key } := by
  have hplace := h.pending i e hp (Or.inl hcreating)
  have hnone : e.owned i = none := by simp [Entry.owned, hcreating]
  have hother {key : κ} {j : ℕ} (hj : s.entries.lookup key = some j) (hji : j ≠ i) : key ≠ e.key := by
    rintro rfl
    rw [hplace, Option.some.injEq] at hj
    exact hji hj.symm
  have hless {key : κ} {j : ℕ} (hj : (s.entries.erase e.key).lookup key = some j) : key ≠ e.key ∧ s.entries.lookup key = some j := by
    rw [Table.lookup_erase] at hj
    split at hj
    · exact absurd hj (by simp)
    · rename_i hne
      exact ⟨hne, hj⟩
  have hkeep {key : κ} {j : ℕ} (hj : s.entries.lookup key = some j) (hji : j ≠ i) : (s.entries.erase e.key).lookup key = some j := by
    rw [Table.lookup_erase, if_neg (hother hj hji), hj]
  unfold Pools.setEntry
  constructor
  case size => exact (Nat.le_of_lt (length_erase_lt hplace)).trans h.size
  case keyed =>
    intro key j hj
    obtain ⟨hne, hj⟩ := hless hj
    obtain ⟨g, hg, hkey⟩ := h.keyed key j hj
    have hji : j ≠ i := by
      rintro rfl
      rw [hp, Option.some.injEq] at hg
      exact hne (by rw [hg, hkey])
    exact ⟨g, by rw [getElem?_set_ne hji, hg], hkey⟩
  case owned =>
    intro j f hf hopened
    have hold : ∃ g, s.pool[j]? = some g ∧ g.opened = true := by
      rcases getElem?_set_cases hf with ⟨rfl, rfl⟩ | ⟨-, hf⟩
      · exact ⟨e, hp, hopened⟩
      · exact ⟨f, hf, hopened⟩
    obtain ⟨g, hg, hgopened⟩ := hold
    obtain ⟨key, k, o, hk, ho, hoj⟩ := h.owned j g hg hgopened
    have hki : k ≠ i := by
      rintro rfl
      rw [hp, Option.some.injEq] at ho
      subst ho
      rw [hnone] at hoj
      exact absurd hoj (by simp)
    exact ⟨key, k, o, hkeep hk hki, by rw [getElem?_set_ne hki, ho], hoj⟩
  case counted =>
    intro j f hf
    rcases getElem?_set_cases hf with ⟨rfl, rfl⟩ | ⟨-, hf⟩
    · exact h.counted j e hp
    · exact h.counted j f hf
  case kept =>
    intro hclosed j f hf hpos hphase
    rcases getElem?_set_cases hf with ⟨rfl, rfl⟩ | ⟨hji, hf⟩
    · exact absurd rfl hphase
    · exact hkeep (h.kept hclosed j f hf hpos hphase) hji
  case working =>
    intro hclosed key j f hj hf hready
    rcases getElem?_set_cases hf with ⟨rfl, rfl⟩ | ⟨-, hf⟩
    · exact absurd hready (by simp)
    · exact h.working hclosed key j f (hless hj).2 hf hready
  case evicted =>
    intro j f k hf hphase
    rcases getElem?_set_cases hf with ⟨rfl, rfl⟩ | ⟨-, hf⟩
    · exact absurd hphase (by simp)
    · obtain ⟨hlt, hnot⟩ := h.evicted j f k hf hphase
      exact ⟨by rwa [List.length_set], fun key hk => hnot key (hless hk).2⟩
  case fresh =>
    intro j f hf hopened
    rcases getElem?_set_cases hf with ⟨rfl, rfl⟩ | ⟨-, hf⟩
    · rw [h.fresh j e hp hopened] at hcreating
      exact absurd hcreating (by decide)
    · exact h.fresh j f hf hopened
  case made =>
    intro x hx
    simp only [List.length_set]
    exact h.made x hx
  case pending =>
    intro j f hf hphase
    rcases getElem?_set_cases hf with ⟨rfl, rfl⟩ | ⟨hji, hf⟩
    · exact absurd hphase (by simp)
    · exact hkeep (h.pending j f hf hphase) hji

theorem countP_fresh (h : ∀ x ∈ s.handles, x.entry < s.pool.length) :
    (s.handles.countP fun x => x.entry = s.pool.length ∧ x.released = false) = 0 := by
  rw [List.countP_eq_zero]
  intro x hx
  have := h x hx
  simp only [decide_eq_true_eq, not_and]
  omega

theorem Inv.make {entries : Dict κ ℕ} {key : κ} {phase : Phase} (h : Inv maxSize s)
    (hsize : entries.rows.length < maxSize) (hnone : s.entries.lookup key = none)
    (hphase : (phase = .creating ∧ entries = s.entries) ∨
      ∃ row ∈ s.entries.rows, ∃ e, s.pool[row.2]? = some e ∧ e.phase = .ready ∧ e.reservations = 0 ∧ phase = .disposing row.2 ∧
        entries = s.entries.erase row.1) :
    Inv maxSize (Pools.make { s with entries } key phase) := by
  have hless {k : κ} {j : ℕ} (hj : entries.lookup k = some j) : s.entries.lookup k = some j := by
    rcases hphase with ⟨-, rfl⟩ | ⟨row, -, e, -, -, -, -, rfl⟩
    · exact hj
    · rw [Table.lookup_erase] at hj
      split at hj
      · exact absurd hj (by simp)
      · exact hj
  have hkeep {k : κ} {j : ℕ} {f : Entry κ} (hj : s.entries.lookup k = some j) (hf : s.pool[j]? = some f)
      (hother : f.phase ≠ .ready ∨ 0 < f.reservations ∨ phase ≠ .disposing j) : entries.lookup k = some j := by
    rcases hphase with ⟨-, rfl⟩ | ⟨row, hrow, e, he, hready, hfree, hdisposing, rfl⟩
    · exact hj
    · rw [Table.lookup_erase, if_neg]
      · exact hj
      rintro rfl
      have hsame := lookup_of_mem hrow
      rw [hj, Option.some.injEq] at hsame
      subst hsame
      rw [he, Option.some.injEq] at hf
      subst hf
      rcases hother with hne | hpos | hne
      · exact hne hready
      · omega
      · exact hne hdisposing
  have hnew : entries.lookup key = none := by
    cases hlookup : entries.lookup key with
    | none => rfl
    | some j =>
      rw [hless hlookup] at hnone
      exact absurd hnone (by simp)
  have hlookup (k : κ) : (entries.put (key, s.pool.length)).lookup k = if k = key then some s.pool.length else entries.lookup k :=
    Table.lookup_put entries key k s.pool.length
  have hold {k : κ} {j : ℕ} (hj : entries.lookup k = some j) : (entries.put (key, s.pool.length)).lookup k = some j := by
    rw [hlookup, if_neg]
    · exact hj
    rintro rfl
    rw [hnew] at hj
    exact absurd hj (by simp)
  have hnotready : phase ≠ .ready := by
    rcases hphase with ⟨rfl, -⟩ | ⟨row, -, e, -, -, -, rfl, -⟩
    · decide
    · simp
  have hin {j : ℕ} {f : Entry κ} (hf : s.pool[j]? = some f) : j < s.pool.length := (List.getElem?_eq_some_iff.mp hf).1
  unfold Pools.make
  constructor
  case size => exact (length_put_le entries _).trans hsize
  case keyed =>
    intro k j hj
    simp only [hlookup] at hj
    split at hj
    · rename_i hk
      rw [Option.some.injEq] at hj
      exact ⟨_, getElem?_snoc.mpr (Or.inr ⟨hj.symm, rfl⟩), hk.symm⟩
    · obtain ⟨f, hf, hkey⟩ := h.keyed k j (hless hj)
      exact ⟨f, getElem?_snoc.mpr (Or.inl hf), hkey⟩
  case owned =>
    intro j f hf hopened
    rcases getElem?_snoc.mp hf with hf | ⟨-, rfl⟩
    · obtain ⟨k, l, o, hl, ho, hoj⟩ := h.owned j f hf hopened
      by_cases htaken : o.phase ≠ .ready ∨ 0 < o.reservations ∨ phase ≠ .disposing l
      · exact ⟨k, l, o, hold (hkeep hl ho htaken), getElem?_snoc.mpr (Or.inl ho), hoj⟩
      · -- the pool whose place the new entry takes
        simp only [not_or, not_not] at htaken
        obtain ⟨hready, -, hdisposing⟩ := htaken
        have hjl : l = j := by simpa [Entry.owned, hready] using hoj
        refine ⟨key, s.pool.length, _, by rw [hlookup, if_pos rfl], getElem?_snoc.mpr (Or.inr ⟨rfl, rfl⟩), ?_⟩
        simp [Entry.owned, hdisposing, hjl]
    · exact absurd hopened (by simp)
  case counted =>
    intro j f hf
    simp only [List.countP_append, List.countP_singleton]
    rcases getElem?_snoc.mp hf with hf | ⟨rfl, rfl⟩
    · rw [h.counted j f hf]
      simp [Nat.ne_of_gt (hin hf)]
    · rw [countP_fresh h.made]
      simp
  case kept =>
    intro hclosed j f hf hpos hfphase
    rcases getElem?_snoc.mp hf with hf | ⟨rfl, rfl⟩
    · exact hold (hkeep (h.kept hclosed j f hf hpos hfphase) hf (Or.inr (Or.inl hpos)))
    · simp only [hlookup, if_true]
  case working =>
    intro hclosed k j f hj hf hready
    simp only [hlookup] at hj
    rcases getElem?_snoc.mp hf with hf | ⟨rfl, rfl⟩
    · split at hj
      · rw [Option.some.injEq] at hj
        exact absurd hj.symm (Nat.ne_of_lt (hin hf))
      · exact h.working hclosed k j f (hless hj) hf hready
    · exact absurd hready hnotready
  case evicted =>
    intro j f k hf hfphase
    have hgone (hlt : k < s.pool.length) (hnot : ∀ key', entries.lookup key' ≠ some k) (key' : κ) :
        (entries.put (key, s.pool.length)).lookup key' ≠ some k := by
      rw [hlookup]
      split
      · intro he
        rw [Option.some.injEq] at he
        omega
      · exact hnot key'
    rcases getElem?_snoc.mp hf with hf | ⟨rfl, rfl⟩
    · obtain ⟨hlt, hnot⟩ := h.evicted j f k hf hfphase
      refine ⟨?_, hgone hlt fun key' hk => hnot key' (hless hk)⟩
      rw [List.length_append, List.length_singleton]
      exact Nat.lt_succ_of_lt hlt
    · rcases hphase with ⟨rfl, -⟩ | ⟨row, hrow, e, he, hready, hfree, rfl, rfl⟩
      · exact absurd hfphase (by simp)
      · simp only [Phase.disposing.injEq] at hfphase
        subst hfphase
        refine ⟨?_, hgone (hin he) fun key' hk => ?_⟩
        · rw [List.length_append, List.length_singleton]
          exact Nat.lt_succ_of_lt (hin he)
        · have hfirst := h.key_of_lookup (hless hk) he
          have hsecond := h.key_of_lookup (lookup_of_mem hrow) he
          rw [Table.lookup_erase, if_pos (hfirst.symm.trans hsecond)] at hk
          exact absurd hk (by simp)
  case fresh =>
    intro j f hf hopened
    rcases getElem?_snoc.mp hf with hf | ⟨-, rfl⟩
    · exact h.fresh j f hf hopened
    · exact absurd hopened (by simp)
  case made =>
    intro x hx
    simp only [List.length_append, List.length_singleton]
    rcases List.mem_append.mp hx with hx | hx
    · exact Nat.lt_succ_of_lt (h.made x hx)
    · rw [List.mem_singleton.mp hx]
      exact Nat.lt_succ_self _
  case pending =>
    intro j f hf hfphase
    rcases getElem?_snoc.mp hf with hf | ⟨rfl, rfl⟩
    · refine hold (hkeep (h.pending j f hf hfphase) hf (Or.inl ?_))
      rcases hfphase with he | ⟨k, he⟩ <;> simp [he]
    · simp only [hlookup, if_true]

/-! ### Steps -/

theorem countP_snoc (handles : List Handle) (i j : ℕ) :
    (handles ++ [(⟨i, false⟩ : Handle)]).countP (fun x : Handle => x.entry = j ∧ x.released = false) =
      handles.countP (fun x : Handle => x.entry = j ∧ x.released = false) + if i = j then 1 else 0 := by
  rw [List.countP_append, List.countP_singleton]
  simp

theorem Inv.reserve (h : Inv maxSize s) {key : κ} {idle : ℕ → Bool} {s' : Pools κ}
    (hs : reserve maxSize s key idle = .ok s') :
    Inv maxSize s' := by
  unfold Transport.reserve at hs
  split at hs
  · exact absurd hs (by simp)
  rename_i hopen
  split at hs
  · rename_i i hlookup
    split at hs
    · rename_i e hp
      obtain rfl := Except.ok.inj hs
      have hsame (k : κ) : ((s.entries.erase key).put (key, i)).lookup k = s.entries.lookup k := by
        rw [Table.lookup_put, Table.lookup_erase]
        split
        · rename_i hk
          rw [hk, hlookup]
        · rfl
      refine h.count hp hsame ?_ ?_ ?_ fun _ _ _ => ?_
      · exact ((length_put_le _ _).trans (length_erase_lt hlookup)).trans h.size
      · intro j f hf
        rw [countP_snoc]
        rcases getElem?_set_cases hf with ⟨rfl, rfl⟩ | ⟨hji, hf⟩
        · rw [if_pos rfl, ← h.counted j e hp]
        · rw [if_neg (Ne.symm hji), h.counted j f hf, Nat.add_zero]
      · intro x hx
        rcases List.mem_append.mp hx with hx | hx
        · exact h.made x hx
        · rw [List.mem_singleton.mp hx]
          exact (List.getElem?_eq_some_iff.mp hp).1
      · rw [h.key_of_lookup hlookup hp, hlookup]
    · obtain rfl := Except.ok.inj hs
      exact h
  · rename_i hnone
    split at hs
    · rename_i hsize
      obtain rfl := Except.ok.inj hs
      exact h.make hsize hnone (Or.inl ⟨rfl, rfl⟩)
    · split at hs
      · exact absurd hs (by simp)
      · rename_i row hfind
        obtain rfl := Except.ok.inj hs
        have hrow := List.mem_of_find?_eq_some hfind
        have hevictable : evictable s idle row = true := List.find?_some hfind
        unfold evictable at hevictable
        split at hevictable
        · rename_i e hp
          simp only [Bool.decide_and, Bool.and_eq_true, decide_eq_true_eq] at hevictable
          refine h.make ((length_erase_lt (lookup_of_mem hrow)).trans_le h.size) hnone ?_
          exact Or.inr ⟨row, hrow, e, hp, hevictable.1, hevictable.2.1, rfl, rfl⟩
        · exact absurd hevictable (by simp)

theorem Inv.release (h : Inv maxSize s) (x : ℕ) : Inv maxSize (release s x) := by
  unfold Transport.release
  split
  · rename_i i hhandle
    split
    · rename_i e hp
      have hcount (j : ℕ) : (s.handles.set x ⟨i, true⟩).countP (fun y => y.entry = j ∧ y.released = false) +
          (if i = j then 1 else 0) = s.handles.countP (fun y => y.entry = j ∧ y.released = false) := by
        have hset : (s.handles.set x ⟨i, true⟩).countP (fun y : Handle => y.entry = j ∧ y.released = false) + _ = _ :=
          countP_set_of_some hhandle
        by_cases hij : i = j <;> simpa [hij] using hset
      refine h.count hp (fun _ => rfl) h.size ?_ ?_ fun hclosed hpos hphase => h.kept hclosed i e hp (by omega) hphase
      · intro j f hf
        have hj := hcount j
        rcases getElem?_set_cases hf with ⟨rfl, rfl⟩ | ⟨hji, hf⟩
        · have := h.counted j e hp
          rw [if_pos rfl] at hj
          simp only
          omega
        · have := h.counted j f hf
          rw [if_neg (Ne.symm hji)] at hj
          omega
      · intro y hy
        rcases List.mem_or_eq_of_mem_set hy with hy | rfl
        · exact h.made y hy
        · exact (List.getElem?_eq_some_iff.mp hp).1
    · exact h
  · exact h

theorem shut_getElem? (s : Pools κ) (i j : ℕ) :
    (s.shut j).pool[i]? = if i = j then s.pool[i]?.map fun e => { e with opened := false } else s.pool[i]? := by
  unfold Pools.shut
  cases hp : s.pool[j]? with
  | none =>
    by_cases hij : i = j
    · rw [if_pos hij, hij, hp]
      rfl
    · rw [if_neg hij]
  | some e =>
    simp only [Pools.setEntry]
    by_cases hij : i = j
    · subst hij
      rw [if_pos rfl, getElem?_set_of_some hp, hp]
      rfl
    · rw [if_neg hij]
      exact getElem?_set_ne hij

theorem shut_entries (s : Pools κ) (j : ℕ) : (s.shut j).entries = s.entries := by
  unfold Pools.shut
  split <;> rfl

theorem Inv.disposeEnds (h : Inv maxSize s) (hp : s.pool[i]? = some e) {previous : ℕ}
    (hphase : e.phase = .disposing previous) (ok : Bool) :
    Inv maxSize (if ok then (s.shut previous).setPhase i .creating else s.setPhase i (.stuck previous)) := by
  have hplace := h.pending i e hp (Or.inr ⟨previous, hphase⟩)
  obtain ⟨-, hgone⟩ := h.evicted i e previous hp hphase
  have howns : e.owned i = some previous := by simp [Entry.owned, hphase]
  have hne : i ≠ previous := by
    rintro rfl
    exact hgone _ hplace
  have hnotopen : e.opened = true → ∀ phase : Phase, phase = .ready := by
    intro hopened
    rw [h.fresh i e hp hopened] at hphase
    exact absurd hphase (by simp)
  cases ok with
  | true =>
    have hshut := h.shut fun _ => hgone
    have hp' : (s.shut previous).pool[i]? = some e := by rw [shut_getElem?, if_neg hne, hp]
    rw [if_pos rfl]
    simp only [Pools.setPhase, hp']
    refine hshut.advance hp' (by rw [shut_entries]; exact hplace) ?_ (fun hopened => hnotopen hopened _) (by simp) (by simp)
    intro j f hj hf hopened
    rw [howns, Option.some.injEq] at hj
    subst hj
    rw [shut_getElem?, if_pos rfl] at hf
    obtain ⟨g, -, rfl⟩ := Option.map_eq_some_iff.mp hf
    exact absurd hopened (by simp)
  | false =>
    rw [if_neg (by simp)]
    simp only [Pools.setPhase, hp]
    refine h.advance hp hplace ?_ (fun hopened => hnotopen hopened _) (by simp) (by simp)
    intro j f hj _ _
    rw [howns] at hj
    exact hj

theorem Inv.poolStep (h : Inv maxSize s) (op : PoolOp κ) : Inv maxSize (poolStep maxSize s op) := by
  cases op with
  | reserve key idle =>
    rw [Transport.poolStep]
    split
    · rename_i s' hs
      exact h.reserve hs
    · exact h
  | release x => exact h.release x
  | disposeEnds i ok =>
    rw [Transport.poolStep]
    split
    · rename_i e hp
      split
      · rename_i previous hphase
        exact h.disposeEnds hp hphase ok
      · exact h
    · exact h
  | createEnds i ok =>
    rw [Transport.poolStep]
    split
    · rename_i e hp
      split
      · rename_i hcreating
        have hplace := h.pending i e hp (Or.inl hcreating)
        split
        · refine h.advance hp hplace ?_ (fun _ => rfl) (fun _ => rfl) (by simp)
          intro j f hj
          simp [Entry.owned, hcreating] at hj
        · exact h.fail hp hcreating
      · exact h
    · exact h
  | close =>
    exact ⟨h.size, h.keyed, h.owned, h.counted, fun hopen => absurd (show true = false from hopen) (by simp),
      fun hopen => absurd (show true = false from hopen) (by simp), h.evicted, h.fresh, h.made, h.pending⟩
  | closeDisposes i =>
    rw [Transport.poolStep]
    split
    · split
      · rename_i hcloses
        split
        · exact h.shut fun hopen => absurd hcloses.1 (by simp [hopen])
        · exact h
      · exact h
    · exact h
  | closeEnds =>
    rw [Transport.poolStep]
    split
    · rename_i hends
      obtain ⟨hclosed, hdisposed⟩ := hends
      unfold allDisposed at hdisposed
      rw [List.all_eq_true] at hdisposed
      have hnolookup (key : κ) : (Table.empty : Dict κ ℕ).lookup key = none := rfl
      have hmem {key : κ} {k : ℕ} (hk : s.entries.lookup key = some k) : (key, k) ∈ s.entries.rows := by
        unfold Table.lookup at hk
        obtain ⟨row, hrow, rfl⟩ := Option.map_eq_some_iff.mp hk
        rw [← Table.get?_key hrow]
        exact Table.get?_mem hrow
      constructor
      case size => exact Nat.zero_le _
      case keyed =>
        intro key k hk
        exact absurd hk (by rw [hnolookup]; simp)
      case owned =>
        intro j f hf hopened
        obtain ⟨key, k, o, hk, ho, hoj⟩ := h.owned j f hf hopened
        have hrow := hdisposed (key, k) (hmem hk)
        simp only [ho, Bool.and_eq_true] at hrow
        rw [hoj] at hrow
        simp [hf, hopened] at hrow
      case counted => exact h.counted
      case kept => exact fun hopen => absurd (hclosed.symm.trans hopen) (by simp)
      case working => exact fun hopen => absurd (hclosed.symm.trans hopen) (by simp)
      case evicted =>
        intro j f k hf hphase
        exact ⟨(h.evicted j f k hf hphase).1, fun key hk => absurd hk (by rw [hnolookup]; simp)⟩
      case fresh => exact h.fresh
      case made => exact h.made
      case pending =>
        intro j f hf hphase
        have hplace := h.pending j f hf hphase
        have hrow := hdisposed (f.key, j) (hmem hplace)
        simp only [hf, Bool.and_eq_true, Entry.settled] at hrow
        rcases hphase with he | ⟨k, he⟩
        · exact absurd hrow.1 (by simp [he])
        · exact absurd hrow.1 (by simp [he])
    · exact h

/-! ### What every run of the cache guarantees -/

def reached (maxSize : ℕ) (ops : List (PoolOp κ)) : Pools κ := run (poolStep maxSize) {} ops

theorem inv_reached (maxSize : ℕ) (ops : List (PoolOp κ)) : Inv maxSize (reached maxSize ops) := by
  apply run_inv (fun s op (h : Inv maxSize s) => h.poolStep op)
  constructor
  case size => exact Nat.zero_le _
  case keyed => exact fun key i hi => absurd hi (by simp [Table.lookup])
  case owned => exact fun j e he => absurd he (by simp)
  case counted => exact fun i e he => absurd he (by simp)
  case kept => exact fun _ i e he => absurd he (by simp)
  case working => exact fun _ key i e hi => absurd hi (by simp [Table.lookup])
  case evicted => exact fun i e j he => absurd he (by simp)
  case fresh => exact fun i e he => absurd he (by simp)
  case made => exact fun x hx => absurd hx (by simp)
  case pending => exact fun i e he => absurd he (by simp)

def openPools (s : Pools κ) : List ℕ := (List.range s.pool.length).filter fun i => (s.pool[i]?).any Entry.opened

/-- However reservations, constructions, disposals and the closing of the cache interleave, whatever
fails of these and whatever is idle when: there are never more entries or open pools than `maxSize`,
and no entry is found under two keys. -/
theorem pools_bounded (maxSize : ℕ) (ops : List (PoolOp κ)) :
    (reached maxSize ops).entries.rows.length ≤ maxSize ∧ (openPools (reached maxSize ops)).length ≤ maxSize ∧
      ∀ key key' i, (reached maxSize ops).entries.lookup key = some i → (reached maxSize ops).entries.lookup key' = some i → key = key' := by
  have h := inv_reached maxSize ops
  generalize reached maxSize ops = s at h
  refine ⟨h.size, ?_, fun key key' i hkey hkey' => ?_⟩
  · have hnodup : (openPools s).Nodup := List.nodup_range.filter _
    -- each open pool is that of an entry with a place
    have hsub : openPools s ⊆ s.entries.rows.filterMap fun row => (s.pool[row.2]?).bind (Entry.owned row.2) := by
      intro j hj
      obtain ⟨-, hopened⟩ := List.mem_filter.mp hj
      cases hp : s.pool[j]? with
      | none =>
        rw [hp] at hopened
        exact absurd hopened (by simp)
      | some e =>
        rw [hp, Option.any_some] at hopened
        obtain ⟨key, i, f, hi, hf, howned⟩ := h.owned j e hp hopened
        unfold Table.lookup at hi
        obtain ⟨row, hrow, rfl⟩ := Option.map_eq_some_iff.mp hi
        rw [List.mem_filterMap]
        exact ⟨row, Table.get?_mem hrow, by rw [hf, Option.bind_some, howned]⟩
    exact ((List.subperm_of_subset hnodup hsub).length_le.trans (List.length_filterMap_le _ _)).trans h.size
  · obtain ⟨e, hp, hkeye⟩ := h.keyed key i hkey
    rw [← hkeye, h.key_of_lookup hkey' hp]

/-- Until the cache is closed, nobody loses a reserved pool: an entry with a handle
that was not released keeps its place, unless its pool could not be made, and once its
pool is made it stays open. -/
theorem reserved_kept (maxSize : ℕ) (ops : List (PoolOp κ)) (i : ℕ) :
    ∀ handle ∈ (reached maxSize ops).handles, handle.entry = i → handle.released = false → (reached maxSize ops).closed = false →
      ∃ e, (reached maxSize ops).pool[i]? = some e ∧
        (e.phase ≠ .failed → (reached maxSize ops).entries.lookup e.key = some i ∧ (e.phase = .ready → e.opened = true)) := by
  have h := inv_reached maxSize ops
  generalize reached maxSize ops = s at h
  intro handle hmem hentry hheld hopen
  subst hentry
  have hlt := h.made handle hmem
  obtain ⟨e, hp⟩ : ∃ e, s.pool[handle.entry]? = some e := ⟨_, List.getElem?_eq_getElem hlt⟩
  have hpos : 0 < e.reservations := by
    rw [h.counted _ e hp, List.countP_pos_iff]
    exact ⟨handle, hmem, by simp [hheld]⟩
  refine ⟨e, hp, fun hphase => ?_⟩
  have hplace := h.kept hopen _ e hp hpos hphase
  exact ⟨hplace, h.working hopen _ _ e hplace hp⟩

/-- A second key finds the only place reserved. -/
theorem reserved_place :
    ∃ e, (reached 1 [.reserve "a" fun _ => true, .createEnds 0 true, .reserve "b" fun _ => true]).pool[0]? = some e ∧
      (e.phase ≠ .failed →
        (reached 1 [.reserve "a" fun _ => true, .createEnds 0 true, .reserve "b" fun _ => true]).entries.lookup e.key = some 0 ∧
          (e.phase = .ready → e.opened = true)) :=
  reserved_kept 1 [.reserve "a" fun _ => true, .createEnds 0 true, .reserve "b" fun _ => true] 0 ⟨0, false⟩ (by decide) rfl rfl (by decide)

end TokenProxy.Transport
