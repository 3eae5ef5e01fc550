import Mathlib.Data.Rat.Floor
import TokenProxy.Lib.Compare
import TokenProxy.Ranking.Scope

/-!
# The quota windows of an account

`normalizeAccountWindows` reads the windows of an account one by one: a window may say nothing about
the model, be unreadable, state that there is no entitlement, or be read. `resolveWindows` then
looks at what was read at an instant. Numbers are rationals, instants are milliseconds.

An account is usable if no window states that there is no entitlement, and none that was read is
empty before its reset (`usable_iff`); neither depends on the order of the windows.
-/

namespace TokenProxy.Ranking

open TokenProxy.Lib

/-- A number in a record: missing (`null`, a boolean, blank text), or what `Number` makes of it. -/
inductive Quantity
  | missing
  | finite (value : ℚ)
  | notFinite
  deriving DecidableEq

/-- The name of something that every object inherits, such as `constructor`, is `inherited`; any
other text counts as `unknown`. -/
inductive Confidence
  | fresh
  | stale
  | unknown
  | inherited
  deriving DecidableEq

/-- A window as it is recorded; `resetAt` is the instant its text names, if any. -/
structure RawWindow where
  scope : String
  remaining : Quantity
  limit : Quantity
  resetAt : Option Int
  confidence : Confidence
  deriving DecidableEq

structure Window where
  scope : String
  horizonMs : WithBot ℚ
  remaining : ℚ
  limit : ℚ
  resetAt : Int
  confidence : Confidence
  isScoped : Bool
  deriving DecidableEq

/-- `finiteNonNegative(v)` -/
def finiteNonNegative : Quantity → Option ℚ
  | .finite value => if 0 ≤ value then some value else none
  | _ => none

/-- What `normalizeAccountWindows` makes of one window. -/
inductive Reading
  | skipped
  | unreadable (reasons : List String)
  | blocked (reason : String)
  | read (w : Window)
  deriving DecidableEq

def Quantity.isCeilingOfZero : Quantity → Bool
  | .finite value => value ≤ 0
  | _ => false

/-- The body of the loop of `normalizeAccountWindows`; a window that is no object is `none`. -/
def readWindow (model : String) : Option RawWindow → Reading
  | none => .unreadable ["malformed-window"]
  | some w =>
    match classifyWindow w.scope with
    | none => .unreadable ["unclassifiable-scope:" ++ w.scope]
    | some kind =>
      if kind = .scoped ∧ scopeAppliesToModel w.scope model = false then .skipped
      else if w.limit.isCeilingOfZero then .blocked ("bad-limit:" ++ w.scope)
      else
        match finiteNonNegative w.remaining, finiteNonNegative w.limit, w.resetAt with
        | some remaining, some limit, some resetAt =>
          if limit ≤ 0 then .unreadable ["bad-limit:" ++ w.scope]
          else
            .read { scope := w.scope, horizonMs := windowHorizonMs w.scope, remaining, limit, resetAt,
                    confidence := w.confidence, isScoped := kind = .scoped }
        | remaining, limit, resetAt =>
          .unreadable ((if remaining = none then ["bad-remaining:" ++ w.scope] else []) ++
            (if limit.all (· ≤ 0) then ["bad-limit:" ++ w.scope] else []) ++
            (if resetAt = none then ["bad-resetAt:" ++ w.scope] else []))

structure Tally where
  general : List Window
  reasons : List String
  unreadable : Nat
  blocked : Bool

def tally (model : String) : List (Option RawWindow) → Tally → Tally
  | [], t => t
  | w :: ws, t =>
    match readWindow model w with
    | .skipped => tally model ws t
    | .unreadable reasons => tally model ws { t with unreadable := t.unreadable + 1, reasons := t.reasons ++ reasons }
    | .blocked reason => tally model ws { t with blocked := true, reasons := t.reasons ++ [reason] }
    | .read window => tally model ws { t with general := t.general ++ [window] }

/-- The collation of the runtime; it only tells in which order windows of one horizon are listed. -/
class Collation where
  localeCompare : String → String → Ordering

export Collation (localeCompare)

section Listing

variable [Collation]

/-- The sign of `x - y` as a sort takes it: `NaN` is a tie. -/
def compareNumbers : WithBot ℚ → WithBot ℚ → Ordering
  | some x, some y => compare x y
  | _, _ => .eq

def compareWindows (a b : Window) : Ordering :=
  (compareNumbers b.horizonMs a.horizonMs).then (localeCompare a.scope b.scope)

/-- What `normalizeAccountWindows` answers. -/
structure Structural where
  ok : Bool
  windows : List Window
  reason : Option String
  unreadable : Nat
  reasons : List String
  blocked : Bool

/-- `normalizeAccountWindows(windows, { model })`; what is no array is empty. -/
def normalizeAccountWindows (windows : List (Option RawWindow)) (model : String) : Structural :=
  if windows.isEmpty then
    { ok := false, windows := [], reason := some "no-windows", unreadable := 0, reasons := [], blocked := false }
  else
    let t := tally model windows ⟨[], [], 0, false⟩
    if t.general.isEmpty then
      { ok := false, windows := [], reason := some (t.reasons.headD "no-general-windows"), unreadable := t.unreadable,
        reasons := t.reasons, blocked := t.blocked }
    else
      { ok := true, windows := sortBy compareWindows t.general, reason := none, unreadable := t.unreadable,
        reasons := t.reasons, blocked := t.blocked }

def MIN_REAL_HORIZON_MS : ℚ := 60000

/-- `effectiveResetAt(resetAt, horizonMs, nowMs)` -/
def effectiveResetAt (resetAt : Int) (horizonMs : WithBot ℚ) (now : Int) : Option ℚ :=
  if now < resetAt then some resetAt
  else
    match horizonMs with
    | none => none
    | some horizonMs =>
      if horizonMs < MIN_REAL_HORIZON_MS then none
      else
        let periods := ⌊((now - resetAt : Int) : ℚ) / horizonMs⌋ + 1
        some (resetAt + periods * horizonMs)

structure ResolvedWindow extends Window where
  effectiveResetAt : ℚ
  effectiveRemaining : ℚ
  replenished : Bool
  deriving DecidableEq

/-- The body of the loop of `resolveWindows`: nothing if the window carries no deadline. -/
def resolveWindow (now : Int) (w : Window) : Option ResolvedWindow :=
  (effectiveResetAt w.resetAt w.horizonMs now).map fun effective =>
    let replenished : Bool := w.resetAt ≤ now
    { w with
      effectiveResetAt := effective, effectiveRemaining := if replenished then w.limit else w.remaining, replenished }

structure Resolved where
  orderable : List ResolvedWindow
  unreadable : Nat
  usable : Bool

/-- `resolveWindows(structural, nowMs)` -/
def resolveWindows (structural : Structural) (now : Int) : Resolved :=
  let orderable := structural.windows.filterMap (resolveWindow now)
  { orderable := sortBy (fun a b => compareWindows a.toWindow b.toWindow) orderable
    unreadable := structural.unreadable + structural.windows.countP fun w => (resolveWindow now w).isNone
    usable := !structural.blocked && orderable.all fun w => 0 < w.effectiveRemaining }

end Listing

/-! ## What the loop gathers -/

variable {model : String} {now : Int}

def Reading.window? : Reading → Option Window
  | .read w => some w
  | _ => none

def Reading.isUnreadable : Reading → Bool
  | .unreadable _ => true
  | _ => false

def Reading.isBlocked : Reading → Bool
  | .blocked _ => true
  | _ => false

theorem tally_eq (ws : List (Option RawWindow)) (t : Tally) :
    (tally model ws t).general = t.general ++ ws.filterMap (fun w => (readWindow model w).window?) ∧
      (tally model ws t).unreadable = t.unreadable + ws.countP (fun w => (readWindow model w).isUnreadable) ∧
      (tally model ws t).blocked = (t.blocked || ws.any fun w => (readWindow model w).isBlocked) := by
  induction ws generalizing t with
  | nil => simp [tally]
  | cons w ws ih =>
    unfold tally
    split
    all_goals
      rename_i hw
      obtain ⟨hgeneral, hunreadable, hblocked⟩ := ih _
      rw [hgeneral, hunreadable, hblocked]
      simp [hw, Reading.window?, Reading.isUnreadable, Reading.isBlocked]
    omega

theorem readWindow_read {w : Option RawWindow} {window : Window}
    (h : readWindow model w = .read window) :
    0 < window.limit ∧ 0 ≤ window.remaining := by
  unfold readWindow at h
  split at h
  · cases h
  split at h
  · cases h
  split at h
  · cases h
  split at h
  · cases h
  split at h
  · rename_i remaining limit resetAt hremaining _ _
    split at h
    · cases h
    · rename_i hlimit
      cases h
      refine ⟨not_le.mp hlimit, ?_⟩
      unfold finiteNonNegative at hremaining
      split at hremaining
      · split at hremaining
        · rename_i hnonneg
          cases hremaining
          exact hnonneg
        · cases hremaining
      · cases hremaining
  · cases h

def readable (model : String) (windows : List (Option RawWindow)) : List Window :=
  windows.filterMap fun w => (readWindow model w).window?

theorem mem_readable {windows : List (Option RawWindow)} {w : Window} :
    w ∈ readable model windows ↔ ∃ raw ∈ windows, readWindow model raw = .read w := by
  have hread : ∀ r : Reading, r.window? = some w ↔ r = .read w := by
    intro r
    cases r <;> simp [Reading.window?]
  simp only [readable, List.mem_filterMap, hread]

def Window.Exhausted (now : Int) (w : Window) : Prop := w.remaining ≤ 0 ∧ now < w.resetAt

instance (w : Window) : Decidable (w.Exhausted now) := inferInstanceAs (Decidable (_ ∧ _))

theorem resolveWindow_remaining {w : Window} (hlimit : 0 < w.limit) :
    (∀ r, resolveWindow now w = some r → 0 < r.effectiveRemaining) ↔ ¬ w.Exhausted now := by
  unfold resolveWindow effectiveResetAt Window.Exhausted
  by_cases hahead : now < w.resetAt
  · simp [hahead, not_le.mpr hahead]
  · have hreset : w.resetAt ≤ now := not_lt.mp hahead
    simp only [if_neg hahead, hreset, decide_true, if_true]
    constructor
    · intro _ h
      exact hahead h.2
    · intro _ r hr
      obtain ⟨_, -, rfl⟩ := Option.map_eq_some_iff.mp hr
      exact hlimit

/-- A window that was read carries a deadline: its reset is ahead, or it
has a period to project it by. -/
def Window.CarriesDeadline (now : Int) (w : Window) : Prop :=
  now < w.resetAt ∨ ((MIN_REAL_HORIZON_MS : ℚ) : WithBot ℚ) ≤ w.horizonMs

theorem resolveWindow_eq_none {w : Window} :
    resolveWindow now w = none ↔ ¬ w.CarriesDeadline now := by
  unfold resolveWindow effectiveResetAt Window.CarriesDeadline
  rw [Option.map_eq_none_iff, not_or]
  by_cases hahead : now < w.resetAt
  · simp [hahead]
  · rw [if_neg hahead]
    cases w.horizonMs with
    | bot => simp [hahead]
    | coe horizon =>
      show (if horizon < MIN_REAL_HORIZON_MS then none else _) = none ↔ _
      by_cases hreal : horizon < MIN_REAL_HORIZON_MS <;> simp [hreal, hahead, WithBot.coe_le_coe]

variable [Collation]

/-- **`normalizeAccountWindows`** lists what is read, and says whether
a window blocks the account. -/
theorem normalizeAccountWindows_spec (windows : List (Option RawWindow)) (model : String) :
    (normalizeAccountWindows windows model).windows.Perm (readable model windows) ∧
      (normalizeAccountWindows windows model).unreadable =
        windows.countP (fun w => (readWindow model w).isUnreadable) ∧
      (normalizeAccountWindows windows model).blocked = windows.any (fun w => (readWindow model w).isBlocked) ∧
      ((normalizeAccountWindows windows model).ok = false → (normalizeAccountWindows windows model).windows = []) := by
  unfold normalizeAccountWindows readable
  obtain ⟨hgeneral, hunreadable, hblocked⟩ := @tally_eq model windows ⟨[], [], 0, false⟩
  split
  · rename_i hempty
    rw [List.isEmpty_iff] at hempty
    subst hempty
    simp
  · simp only
    split
    · rename_i hnone
      rw [List.isEmpty_iff, hgeneral, List.nil_append] at hnone
      rw [hnone]
      exact ⟨List.Perm.refl _, by simpa using hunreadable, by simpa using hblocked, fun _ => rfl⟩
    · refine ⟨?_, by simpa using hunreadable, by simpa using hblocked, fun h => by cases h⟩
      rw [hgeneral]
      exact sortBy_perm _ _

/-! ## What holds an account back -/

/-- **An account is usable** if no window denies it and none that was read is exhausted. -/
theorem usable_iff {windows : List (Option RawWindow)} :
    (resolveWindows (normalizeAccountWindows windows model) now).usable = true ↔
      (normalizeAccountWindows windows model).blocked = false ∧ ∀ w ∈ readable model windows, ¬ w.Exhausted now := by
  obtain ⟨hperm, -, -, -⟩ := normalizeAccountWindows_spec windows model
  unfold resolveWindows
  simp only [Bool.and_eq_true, Bool.not_eq_true', List.all_eq_true, decide_eq_true_eq, List.mem_filterMap]
  refine and_congr_right fun _ => ?_
  constructor
  · intro h w hw
    obtain ⟨raw, -, hraw⟩ := mem_readable.mp hw
    rw [← resolveWindow_remaining (readWindow_read hraw).1]
    exact fun r hr => h r ⟨w, hperm.mem_iff.mpr hw, hr⟩
  · rintro h r ⟨w, hw, hr⟩
    have hw := hperm.mem_iff.mp hw
    obtain ⟨raw, -, hraw⟩ := mem_readable.mp hw
    exact (resolveWindow_remaining (readWindow_read hraw).1).mpr (h w hw) r hr

/-- The windows that are listed are those that were read and carry a deadline. -/
theorem mem_orderable {windows : List (Option RawWindow)} {r : ResolvedWindow} :
    r ∈ (resolveWindows (normalizeAccountWindows windows model) now).orderable ↔
      ∃ w ∈ readable model windows, resolveWindow now w = some r := by
  simp only [resolveWindows, mem_sortBy, List.mem_filterMap,
    (normalizeAccountWindows_spec windows model).1.mem_iff]

/-! ## The order of the windows -/

theorem resolveWindows_perm {windows windows' : List (Option RawWindow)}
    (h : windows.Perm windows') :
    let r := resolveWindows (normalizeAccountWindows windows model) now
    let r' := resolveWindows (normalizeAccountWindows windows' model) now
    r.orderable.Perm r'.orderable ∧ r.unreadable = r'.unreadable ∧ r.usable = r'.usable ∧
      (normalizeAccountWindows windows model).blocked = (normalizeAccountWindows windows' model).blocked := by
  obtain ⟨hperm, hunreadable, hblocked, -⟩ := normalizeAccountWindows_spec windows model
  obtain ⟨hperm', hunreadable', hblocked', -⟩ := normalizeAccountWindows_spec windows' model
  have hwindows : (normalizeAccountWindows windows model).windows.Perm (normalizeAccountWindows windows' model).windows :=
    hperm.trans ((h.filterMap _).trans hperm'.symm)
  have hsame : (normalizeAccountWindows windows model).blocked = (normalizeAccountWindows windows' model).blocked := by
    rw [hblocked, hblocked', h.any_eq]
  refine ⟨?_, ?_, ?_, hsame⟩
  · exact (sortBy_perm _ _).trans ((hwindows.filterMap _).trans (sortBy_perm _ _).symm)
  · simp only [resolveWindows, hunreadable, hunreadable', h.countP_eq, hwindows.countP_eq]
  · simp only [resolveWindows, hsame, (hwindows.filterMap _).all_eq]

end TokenProxy.Ranking
