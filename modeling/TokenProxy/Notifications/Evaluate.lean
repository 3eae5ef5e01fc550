import Mathlib.Algebra.Order.Field.Rat
import Mathlib.Data.List.Sort
import TokenProxy.Lib.Greedy
import TokenProxy.Lib.Runs

/-!
# The rule evaluator

`evaluate.mjs`: pure functions over rows that were fetched. A sample is of one scope key; its
instant is what `Date.parse` makes of its time, none where that is no time. Instants are in
milliseconds.
-/

/-! ### The method of the quota trend

The constants of `QUOTA_TREND_METHOD` that say from when on a series is silent, and the median that
goes with them. -/

namespace TokenProxy.Trend

def minute : ℤ := 60000

def hour : ℤ := 60 * minute

def staleCadenceMultiplier : ℤ := 2

def minimumStaleMs : ℤ := 5 * minute

def maximumStaleMs : ℤ := hour

/-- The middle of the sorted values, or the mean of the two in the middle. -/
def median (values : List ℚ) : ℚ :=
  let sorted := values.insertionSort (· ≤ ·)
  let middle := sorted.length / 2
  if sorted.length % 2 = 1 then sorted[middle]?.getD 0 else (sorted[middle - 1]?.getD 0 + sorted[middle]?.getD 0) / 2

end TokenProxy.Trend

namespace TokenProxy.Notifications

inductive ConditionKind where
  | compatibilityRegression
  | compressionSaverFailure
  | quotaRisk
  | repeatedFallback
  | staleTelemetry
  | operationFailure
  deriving DecidableEq

inductive Direction where
  | below
  | atLeast
  deriving DecidableEq

def ConditionKind.direction : ConditionKind → Direction
  | .quotaRisk => .below
  | _ => .atLeast

def minCooldownSeconds : ℕ := 60

def maxSeconds : ℕ := 90 * 86400

structure Rule where
  conditionKind : ConditionKind
  threshold : ℚ
  durationSeconds : ℕ
  cooldownSeconds : ℕ
  duration_pos : 0 < durationSeconds
  duration_le : durationSeconds ≤ maxSeconds
  cooldown_ge : minCooldownSeconds ≤ cooldownSeconds
  cooldown_le : cooldownSeconds ≤ maxSeconds

namespace Rule

def durationMs (rule : Rule) : ℤ := rule.durationSeconds * 1000

def cooldownMs (rule : Rule) : ℤ := rule.cooldownSeconds * 1000

theorem cooldownMs_pos (rule : Rule) : 0 < rule.cooldownMs := by
  have := rule.cooldown_ge
  unfold minCooldownSeconds at this
  unfold cooldownMs
  omega

end Rule

/-- A sample or a record. A value that is no finite number is none. -/
structure Sample where
  instant : Option ℤ
  value : Option ℚ := none
  ref : Option String := none

structure Timed where
  sample : Sample
  time : ℤ

structure Firing where
  firedAt : ℤ
  breachStartedAt : ℤ
  observedValue : Option ℚ
  refs : List String
  sampleCount : ℕ
  deriving DecidableEq

def sortByTime (timed : List Timed) : List Timed := timed.insertionSort fun a b => a.time ≤ b.time

def timed (samples : List Sample) : List Timed := samples.filterMap fun sample => sample.instant.map fun time => { sample, time }

def ordered (samples : List Sample) : List Timed := sortByTime (timed samples)

/-- `refs.filter(Boolean)` -/
def refsOf (run : List Timed) : List String := run.filterMap fun entry => entry.sample.ref.filter (· ≠ "")

def intervals : List ℤ → List ℤ
  | a :: b :: times => (b - a) :: intervals (b :: times)
  | _ => []

def sustainGapAllowanceMs (times : List ℤ) : ℚ :=
  if times.length < 2 then Trend.maximumStaleMs
  else
    min (Trend.maximumStaleMs : ℚ)
      (max (Trend.minimumStaleMs : ℚ) (Trend.median ((intervals times).map fun n : ℤ => (n : ℚ)) * Trend.staleCadenceMultiplier))

def breaches (kind : ConditionKind) (value : Option ℚ) (threshold : ℚ) : Bool :=
  match value with
  | none => false
  | some value => match kind.direction with
    | .below => value ≤ threshold
    | .atLeast => threshold ≤ value

/-- The loops: what has fired, the end of the cooldown, and what the loop remembers
of the samples it has read. -/
structure Walk where
  firings : List Firing := []
  cooldownUntil : Option ℤ
  kept : List Timed := []

def Walk.coolingDown (w : Walk) (time : ℤ) : Bool := w.cooldownUntil.any (time < ·)

/-- One turn of the loop of `evaluateSustained`; it keeps the run that goes on. -/
def sustainedTurn (rule : Rule) (allowance : ℚ) (w : Walk) (sample : Timed) : Walk :=
  let run := if w.kept.getLast?.any fun previous => allowance < (sample.time - previous.time : ℤ) then [] else w.kept
  if !breaches rule.conditionKind sample.sample.value rule.threshold then { w with kept := [] }
  else
    let start := run.head?.getD sample
    let kept := run ++ [sample]
    if sample.time - start.time < rule.durationMs then { w with kept }
    else if w.coolingDown sample.time then { w with kept }
    else
      { firings := w.firings ++ [{
          firedAt := sample.time, breachStartedAt := start.time, observedValue := sample.sample.value, refs := refsOf kept
          sampleCount := kept.length }]
        cooldownUntil := some (sample.time + rule.cooldownMs), kept }

def evaluateSustained (rule : Rule) (samples : List Sample)
    (lastFiredAt : Option ℤ) : List Firing :=
  let ordered := ordered samples
  let allowance := sustainGapAllowanceMs (ordered.map Timed.time)
  (ordered.foldl (sustainedTurn rule allowance) { cooldownUntil := lastFiredAt.map (· + rule.cooldownMs) }).firings

/-- One turn of the loop of `evaluateWindow`; it keeps all records that it has read. -/
def windowTurn (rule : Rule) (w : Walk) (record : Timed) : Walk :=
  let kept := w.kept ++ [record]
  let inWindow := (kept.reverse.takeWhile fun r => record.time - r.time < rule.durationMs).reverse
  if (inWindow.length : ℚ) < rule.threshold then { w with kept }
  else if w.coolingDown record.time then { w with kept }
  else
    { firings := w.firings ++ [{
        firedAt := record.time, breachStartedAt := (inWindow.head?.getD record).time, observedValue := some inWindow.length
        refs := refsOf inWindow, sampleCount := inWindow.length }]
      cooldownUntil := some (record.time + rule.cooldownMs), kept }

def evaluateWindow (rule : Rule) (records : List Sample) (lastFiredAt : Option ℤ) : List Firing :=
  ((ordered records).foldl (windowTurn rule) { cooldownUntil := lastFiredAt.map (· + rule.cooldownMs) }).firings

end TokenProxy.Notifications
