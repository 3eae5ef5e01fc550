import TokenProxy.Lib.Buckets
import Mathlib.Algebra.Order.BigOperators.Group.List
import Mathlib.Algebra.Order.Field.Rat
import Mathlib.Data.List.Nodup

/-!
# Statistics of requests

`getStatsSummary` adds up the stored rows that a filter lets through, and `getStatsSeries` puts them
into buckets over the time that they span. Both read the rows behind the backfill from the usage
history.

* `getStatsSeries_row`: where a row is counted.
* `series_conserves_iff`: when the series adds up to the summary.
-/

namespace TokenProxy.Statistics

open Lib

/-! ### Stored rows -/

/-- A row of `requestStats`; a count may be NULL. -/
structure StatsRow where
  id : String
  timestamp : String
  provider : Option String
  model : Option String
  connectionId : Option String
  promptTokens : Option ℤ
  completionTokens : Option ℤ
  cachedTokens : Option ℤ
  cacheCreationTokens : Option ℤ
  deriving DecidableEq

/-- A row of `usageHistory`, with what `json_extract` finds in its tokens. -/
structure UsageRow where
  id : ℕ
  timestamp : String
  provider : Option String
  model : Option String
  connectionId : Option String
  promptTokens : Option ℤ
  completionTokens : Option ℤ
  cached_tokens : Option ℤ
  cache_read_input_tokens : Option ℤ
  cache_creation_input_tokens : Option ℤ
  deriving DecidableEq

/-- The tables, and the two marks of the backfill: in the process and in `_meta`. -/
structure StatsDb where
  requestStats : List StatsRow
  usageHistory : List UsageRow
  backfillStarted : Bool
  statsBackfilled : Bool
  deriving DecidableEq

def UsageRow.backfilled (row : UsageRow) : StatsRow where
  id := "bh-" ++ toString row.id
  timestamp := row.timestamp
  provider := row.provider
  model := row.model
  connectionId := row.connectionId
  promptTokens := row.promptTokens
  completionTokens := row.completionTokens
  cachedTokens := some ((row.cached_tokens.or row.cache_read_input_tokens).getD 0)
  cacheCreationTokens := some (row.cache_creation_input_tokens.getD 0)

def ensureStatsBackfilled (db : StatsDb) : StatsDb :=
  if db.backfillStarted then db
  else if db.requestStats ≠ [] ∨ db.statsBackfilled then { db with backfillStarted := true }
  else { db with requestStats := db.usageHistory.map UsageRow.backfilled, backfillStarted := true, statsBackfilled := true }

/-- A dimension without values lets every row through; dates are ISO texts. -/
structure StatsFilter where
  provider : List String := []
  model : List String := []
  connectionId : List String := []
  startDate : Option String := none
  endDate : Option String := none
  deriving DecidableEq

def colIn (values : List String) (column : Option String) : Bool :=
  let list := values.filter (· ≠ "")
  list.isEmpty || column.any list.contains

/-- The condition of a filter; `telemetry` is the part that leaves out quarantined rows. -/
def buildStatsWhere (telemetry : StatsRow → Bool) (filter : StatsFilter) (row : StatsRow) : Bool :=
  telemetry row && colIn filter.provider row.provider && colIn filter.model row.model && colIn filter.connectionId row.connectionId &&
    (filter.startDate.all fun date => !decide (row.timestamp < date)) && filter.endDate.all fun date => !decide (date < row.timestamp)

def selected (telemetry : StatsRow → Bool) (filter : StatsFilter) (db : StatsDb) : List StatsRow :=
  (ensureStatsBackfilled db).requestStats.filter (buildStatsWhere telemetry filter)

/-! ### The summary -/

structure Counts where
  requests : ℤ
  totalTokens : ℤ
  inputTokens : ℤ
  outputTokens : ℤ
  cacheReadTokens : ℤ
  cacheCreationTokens : ℤ
  cacheHitRate : Option ℚ
  deriving DecidableEq

def hitRate (inputTokens cacheReadTokens : ℤ) : Option ℚ :=
  if 0 < inputTokens + cacheReadTokens then some (cacheReadTokens / (inputTokens + cacheReadTokens : ℤ)) else none

/-- `COALESCE(SUM(column), 0)`: NULLs are passed over. -/
def sumOf (column : StatsRow → Option ℤ) (rows : List StatsRow) : ℤ := (rows.filterMap column).sum

def summaryOf (rows : List StatsRow) : Counts :=
  let prompt := sumOf StatsRow.promptTokens rows
  let completion := sumOf StatsRow.completionTokens rows
  let cached := sumOf StatsRow.cachedTokens rows
  let created := sumOf StatsRow.cacheCreationTokens rows
  let inputOnly := max 0 (prompt - cached - created)
  { requests := rows.length
    totalTokens := prompt + completion
    inputTokens := inputOnly
    outputTokens := completion
    cacheReadTokens := cached
    cacheCreationTokens := created
    cacheHitRate := hitRate inputOnly cached }

def getStatsSummary (telemetry : StatsRow → Bool) (filter : StatsFilter)
    (db : StatsDb) : Counts := summaryOf (selected telemetry filter db)

/-! ### The series -/

def minMs : ℤ := 60000

def hourMs : ℤ := 3600000

def dayMs : ℤ := 86400000

def seriesBucketMs : List ℤ := [dayMs, 12 * hourMs, 6 * hourMs, 3 * hourMs, hourMs, 30 * minMs, 15 * minMs, 5 * minMs, minMs]

def minSeriesPoints : ℤ := 30

def bucketMsFor (span : ℤ) : ℤ := (seriesBucketMs.find? fun w => w ≤ span / minSeriesPoints).getD minMs

theorem bucketMsFor_pos (span : ℤ) : 0 < bucketMsFor span := by
  have hall : ∀ w ∈ seriesBucketMs, 0 < w := by decide
  unfold bucketMsFor
  cases h : seriesBucketMs.find? fun w => w ≤ span / minSeriesPoints with
  | none => decide
  | some w => exact hall w (List.mem_of_find?_eq_some h)

def emptyBucket : Counts := ⟨0, 0, 0, 0, 0, 0, none⟩

def inputOf (row : StatsRow) : ℤ := row.promptTokens.getD 0 - row.cachedTokens.getD 0 - row.cacheCreationTokens.getD 0

def addRow (row : StatsRow) (b : Counts) : Counts :=
  { b with
    requests := b.requests + 1
    totalTokens := b.totalTokens + (row.promptTokens.getD 0 + row.completionTokens.getD 0)
    inputTokens := b.inputTokens + max 0 (inputOf row)
    outputTokens := b.outputTokens + row.completionTokens.getD 0
    cacheReadTokens := b.cacheReadTokens + row.cachedTokens.getD 0
    cacheCreationTokens := b.cacheCreationTokens + row.cacheCreationTokens.getD 0 }

def withRate (b : Counts) : Counts := { b with cacheHitRate := hitRate b.inputTokens b.cacheReadTokens }

def timesOf (getTime : String → Option ℤ) (rows : List StatsRow) : List ℤ := rows.filterMap fun row => getTime row.timestamp

/-- `{ min, max }` of the finite times. -/
def seriesBounds : List ℤ → Option (ℤ × ℤ)
  | [] => none
  | time :: times => some (times.foldl (fun bounds t => (min bounds.1 t, max bounds.2 t)) (time, time))

/-- The buckets by their first instants. `getTime` is `new Date(timestamp).getTime()`. -/
def seriesOf (getTime : String → Option ℤ) (rows : List StatsRow) : List (ℤ × Counts) :=
  match seriesBounds (timesOf getTime rows) with
  | none => []
  | some (lo, hi) =>
    let bucketMs := bucketMsFor (max (hi - lo) minMs)
    let start := Buckets.floorTo bucketMs lo
    let stop := max hi (start + bucketMs)
    let buckets := (Buckets.steps bucketMs (bucketMsFor_pos _) start stop).map fun t => (t, emptyBucket)
    let filled := rows.foldl (fun buckets row =>
      match getTime row.timestamp with
      | some t => Buckets.deposit (Buckets.floorTo bucketMs t) (addRow row) buckets
      | none => buckets) buckets
    filled.map fun bucket => (bucket.1, withRate bucket.2)

def getStatsSeries (getTime : String → Option ℤ) (telemetry : StatsRow → Bool)
    (filter : StatsFilter) (db : StatsDb) : List (ℤ × Counts) :=
  seriesOf getTime (selected telemetry filter db)

/-! ### Clamping -/

theorem sum_clamp_nonneg (ds : List ℤ) : 0 ≤ (ds.map (max 0)).sum := by
  induction ds with
  | nil => exact le_rfl
  | cons d ds ih =>
    rw [List.map_cons, List.sum_cons]
    omega

theorem sum_clamp_eq_zero {ds : List ℤ} : (ds.map (max 0)).sum = 0 ↔ ∀ d ∈ ds, d ≤ 0 := by
  induction ds with
  | nil => simp
  | cons d ds ih =>
    have hnonneg := sum_clamp_nonneg ds
    rw [List.map_cons, List.sum_cons, List.forall_mem_cons, ← ih]
    omega

theorem sum_eq_clamp_sub (ds : List ℤ) :
    ds.sum = (ds.map (max 0)).sum - ((ds.map Neg.neg).map (max 0)).sum := by
  induction ds with
  | nil => rfl
  | cons d ds ih =>
    simp only [List.map_cons, List.sum_cons]
    omega

theorem sum_clamp_eq_iff {ds : List ℤ} :
    (ds.map (max 0)).sum = max 0 ds.sum ↔ (∀ d ∈ ds, 0 ≤ d) ∨ ∀ d ∈ ds, d ≤ 0 := by
  have hneg : (∀ d ∈ ds, 0 ≤ d) ↔ ((ds.map Neg.neg).map (max 0)).sum = 0 := by
    rw [sum_clamp_eq_zero, List.forall_mem_map]
    exact forall₂_congr fun d _ => by omega
  have hpos := sum_clamp_nonneg ds
  have hpos' := sum_clamp_nonneg (ds.map Neg.neg)
  have hsum := sum_eq_clamp_sub ds
  rw [hneg, ← sum_clamp_eq_zero]
  omega

/-! ### The two against each other -/

theorem sumOf_eq (column : StatsRow → Option ℤ)
    (rows : List StatsRow) : sumOf column rows = (rows.map fun row => (column row).getD 0).sum := by
  induction rows with
  | nil => rfl
  | cons row rows ih =>
    rw [sumOf] at ih ⊢
    cases hrow : column row with
    | none => simp [hrow, ih]
    | some n => simp [hrow, ih]

theorem sum_inputOf (rows : List StatsRow) :
    sumOf StatsRow.promptTokens rows - sumOf StatsRow.cachedTokens rows - sumOf StatsRow.cacheCreationTokens rows = (rows.map inputOf).sum := by
  simp only [sumOf_eq]
  induction rows with
  | nil => rfl
  | cons row rows ih =>
    simp only [List.map_cons, List.sum_cons, ← ih, inputOf]
    omega

theorem seriesBounds_spec {times : List ℤ} {lo hi : ℤ}
    (h : seriesBounds times = some (lo, hi)) : lo ≤ hi ∧ ∀ t ∈ times, lo ≤ t ∧ t ≤ hi := by
  have hfold : ∀ (times : List ℤ) (bounds : ℤ × ℤ), bounds.1 ≤ bounds.2 →
      let out := times.foldl (fun bounds t => (min bounds.1 t, max bounds.2 t)) bounds
      out.1 ≤ bounds.1 ∧ bounds.2 ≤ out.2 ∧ ∀ t ∈ times, out.1 ≤ t ∧ t ≤ out.2 := by
    intro times
    induction times with
    | nil => simp
    | cons t times ih =>
      intro bounds hbounds
      have hstep : min bounds.1 t ≤ max bounds.2 t := by omega
      obtain ⟨hlo, hhi, hall⟩ := ih (min bounds.1 t, max bounds.2 t) hstep
      dsimp only at hlo hhi
      dsimp only
      rw [List.foldl_cons, List.forall_mem_cons]
      exact ⟨by omega, by omega, ⟨by omega, by omega⟩, hall⟩
  cases times with
  | nil => simp [seriesBounds] at h
  | cons time times =>
    obtain ⟨hlo, hhi, hall⟩ := hfold times (time, time) le_rfl
    rw [seriesBounds, Option.some.injEq] at h
    rw [h] at hlo hhi hall
    dsimp only at hlo hhi
    rw [List.forall_mem_cons]
    exact ⟨by omega, ⟨hlo, hhi⟩, hall⟩

structure Conserves (series : List (ℤ × Counts)) (summary : Counts) : Prop where
  requests : Buckets.total Counts.requests series = summary.requests
  totalTokens : Buckets.total Counts.totalTokens series = summary.totalTokens
  inputTokens : Buckets.total Counts.inputTokens series = summary.inputTokens
  outputTokens : Buckets.total Counts.outputTokens series = summary.outputTokens
  cacheReadTokens : Buckets.total Counts.cacheReadTokens series = summary.cacheReadTokens
  cacheCreationTokens : Buckets.total Counts.cacheCreationTokens series = summary.cacheCreationTokens

/-- Each row falls into one bucket, and a bucket counts the rows that fall into it. -/
def Partitions (getTime : String → Option ℤ) (rows : List StatsRow)
    (series : List (ℤ × Counts)) : Prop :=
  ∃ width, 0 < width ∧
    (∀ row ∈ rows, ∀ t, getTime row.timestamp = some t → ∃! bucket, bucket ∈ series ∧ bucket.1 ≤ t ∧ t < bucket.1 + width) ∧
    ∀ bucket ∈ series, bucket.2.requests =
      (rows.filter fun row => (getTime row.timestamp).any fun t => bucket.1 ≤ t && t < bucket.1 + width).length

section Filled

variable {getTime : String → Option ℤ} {rows : List StatsRow}

theorem exists_deposits (hvalid : ∀ row ∈ rows, (getTime row.timestamp).isSome)
    (hrows : rows ≠ []) :
    ∃ (width start stop : ℤ) (hwidth : 0 < width) (keyOf : StatsRow → ℤ),
      (∀ row ∈ rows, ∀ t, getTime row.timestamp = some t → keyOf row = Buckets.floorTo width t) ∧
      width ∣ start ∧ (∀ row ∈ rows, keyOf row ∈ Buckets.steps width hwidth start stop) ∧
      seriesOf getTime rows = (rows.foldl (fun buckets row => Buckets.deposit (keyOf row) (addRow row) buckets)
        ((Buckets.steps width hwidth start stop).map fun t => (t, emptyBucket))).map fun bucket => (bucket.1, withRate bucket.2) := by
  obtain ⟨row₀, rest, rfl⟩ := List.exists_cons_of_ne_nil hrows
  obtain ⟨t₀, ht₀⟩ := Option.isSome_iff_exists.1 (hvalid row₀ List.mem_cons_self)
  have hbounds : ∃ lo hi, seriesBounds (timesOf getTime (row₀ :: rest)) = some (lo, hi) := by
    have htimes : timesOf getTime (row₀ :: rest) = t₀ :: timesOf getTime rest := by simp [timesOf, ht₀]
    rw [htimes]
    exact ⟨_, _, rfl⟩
  obtain ⟨lo, hi, hbounds⟩ := hbounds
  obtain ⟨-, hall⟩ := seriesBounds_spec hbounds
  have hwidth := bucketMsFor_pos (max (hi - lo) minMs)
  refine ⟨bucketMsFor (max (hi - lo) minMs), Buckets.floorTo (bucketMsFor (max (hi - lo) minMs)) lo,
    max hi (Buckets.floorTo (bucketMsFor (max (hi - lo) minMs)) lo + bucketMsFor (max (hi - lo) minMs)), hwidth,
    fun row => Buckets.floorTo (bucketMsFor (max (hi - lo) minMs)) ((getTime row.timestamp).getD 0), ?_, Buckets.width_dvd_floorTo _ _, ?_, ?_⟩
  · intro row _ t ht
    dsimp only
    rw [ht, Option.getD_some]
  · intro row hrow
    dsimp only
    obtain ⟨t, ht⟩ := Option.isSome_iff_exists.1 (hvalid row hrow)
    obtain ⟨hlo, hhi⟩ := hall t (List.mem_filterMap.2 ⟨row, hrow, ht⟩)
    rw [ht, Option.getD_some, Buckets.mem_steps]
    refine ⟨Buckets.floorTo_mono hwidth hlo, ?_, dvd_sub (Buckets.width_dvd_floorTo _ _) (Buckets.width_dvd_floorTo _ _)⟩
    exact (Buckets.floorTo_spec hwidth t).1.trans (hhi.trans (le_max_left _ _))
  · rw [seriesOf, hbounds]
    dsimp only
    congr 1
    refine List.foldl_ext _ _ _ fun buckets row hrow => ?_
    obtain ⟨t, ht⟩ := Option.isSome_iff_exists.1 (hvalid row hrow)
    rw [ht]
    rfl

theorem foldl_addRow_requests (rows : List StatsRow)
    (b : Counts) : (rows.foldl (fun b row => addRow row b) b).requests = b.requests + rows.length := by
  induction rows generalizing b with
  | nil => simp
  | cons row rows ih =>
    rw [List.foldl_cons, ih]
    simp only [addRow, List.length_cons]
    omega

theorem total_seriesOf (hvalid : ∀ row ∈ rows, (getTime row.timestamp).isSome)
    {measure : Counts → ℤ} {amount : StatsRow → ℤ}
    (hrate : ∀ b, measure (withRate b) = measure b) (hempty : measure emptyBucket = 0)
    (hadd : ∀ row b, measure (addRow row b) = measure b + amount row) :
    Buckets.total measure (seriesOf getTime rows) = (rows.map amount).sum := by
  by_cases hrows : rows = []
  · subst hrows
    rfl
  · obtain ⟨width, start, stop, hwidth, keyOf, -, -, hmem, hseries⟩ := exists_deposits hvalid hrows
    have hkeys : ((Buckets.steps width hwidth start stop).map fun t => (t, emptyBucket)).map Prod.fst = Buckets.steps width hwidth start stop := by
      rw [List.map_map]
      exact List.map_id _
    have hzero : Buckets.total measure ((Buckets.steps width hwidth start stop).map fun t => (t, emptyBucket)) = 0 := by
      simp [Buckets.total, Function.comp_def, hempty]
    have hstrip : ∀ buckets : List (ℤ × Counts),
        Buckets.total measure (buckets.map fun bucket => (bucket.1, withRate bucket.2)) = Buckets.total measure buckets := by
      intro buckets
      rw [Buckets.total, List.map_map, Buckets.total]
      exact congrArg List.sum (List.map_congr_left fun bucket _ => hrate bucket.2)
    rw [hseries, hstrip, Buckets.total_deposits hadd (by rw [hkeys]; exact Buckets.steps_nodup hwidth start stop) (by rwa [hkeys]), hzero, zero_add]

/-- **Where a row is counted.** -/
theorem seriesOf_partitions (hvalid : ∀ row ∈ rows, (getTime row.timestamp).isSome) :
    Partitions getTime rows (seriesOf getTime rows) := by
  by_cases hrows : rows = []
  · subst hrows
    exact ⟨1, one_pos, by simp, by simp [seriesOf, timesOf, seriesBounds]⟩
  · obtain ⟨width, start, stop, hwidth, keyOf, hkeyOf, hdvd, hmem, hseries⟩ := exists_deposits hvalid hrows
    have hnames : (seriesOf getTime rows).map Prod.fst = Buckets.steps width hwidth start stop := by
      rw [hseries, List.map_map]
      show (List.map Prod.fst _) = _
      rw [Buckets.keys_deposits, List.map_map]
      exact List.map_id _
    have hstep : ∀ s ∈ Buckets.steps width hwidth start stop, width ∣ s := by
      intro s hs
      have := dvd_add ((Buckets.mem_steps hwidth).1 hs).2.2 hdvd
      rwa [sub_add_cancel] at this
    have hnodup : ((seriesOf getTime rows).map Prod.fst).Nodup := by
      rw [hnames]
      exact Buckets.steps_nodup hwidth start stop
    have hfalls : ∀ row ∈ rows, ∀ t, getTime row.timestamp = some t → ∀ s ∈ Buckets.steps width hwidth start stop,
        (s ≤ t ∧ t < s + width ↔ keyOf row = s) := by
      intro row hrow t ht s hs
      rw [hkeyOf row hrow t ht]
      constructor
      · rintro ⟨hle, hlt⟩
        exact (Buckets.floorTo_unique hwidth (hstep s hs) hle hlt).symm
      · rintro rfl
        exact Buckets.floorTo_spec hwidth t
    refine ⟨width, hwidth, ?_, ?_⟩
    · intro row hrow t ht
      have hname := hmem row hrow
      rw [← hnames] at hname
      obtain ⟨bucket, hbucket, hkey⟩ := List.mem_map.1 hname
      have hs : bucket.1 ∈ Buckets.steps width hwidth start stop := by
        rw [hkey]
        exact hmem row hrow
      refine ⟨bucket, ⟨hbucket, (hfalls row hrow t ht bucket.1 hs).2 hkey.symm⟩, ?_⟩
      rintro other ⟨hother, hin⟩
      have ho : other.1 ∈ Buckets.steps width hwidth start stop := by
        rw [← hnames]
        exact List.mem_map_of_mem hother
      have hsame : other.1 = bucket.1 := ((hfalls row hrow t ht other.1 ho).1 hin).symm.trans hkey.symm
      exact List.inj_on_of_nodup_map hnodup hother hbucket hsame
    · intro bucket hbucket
      have hs : bucket.1 ∈ Buckets.steps width hwidth start stop := by
        rw [← hnames]
        exact List.mem_map_of_mem hbucket
      rw [hseries] at hbucket
      obtain ⟨filled, hfilled, rfl⟩ := List.mem_map.1 hbucket
      obtain ⟨b₀, hb₀, hb⟩ := Buckets.mem_deposits (show (filled.1, filled.2) ∈ _ from hfilled)
      obtain ⟨s, -, hempty⟩ := List.mem_map.1 hb₀
      obtain ⟨-, rfl⟩ := Prod.mk.inj hempty
      show (withRate filled.2).requests = _
      rw [hb]
      show ((rows.filter _).foldl _ emptyBucket).requests = _
      rw [foldl_addRow_requests]
      have hcount : (rows.filter fun row => decide (keyOf row = filled.1)) =
          rows.filter fun row => (getTime row.timestamp).any fun t => filled.1 ≤ t && t < filled.1 + width := by
        refine List.filter_congr fun row hrow => ?_
        obtain ⟨t, ht⟩ := Option.isSome_iff_exists.1 (hvalid row hrow)
        rw [ht, Option.any_some, Bool.eq_iff_iff]
        simp only [decide_eq_true_eq, Bool.and_eq_true]
        exact (hfalls row hrow t ht filled.1 hs).symm
      rw [hcount]
      exact zero_add _

end Filled

/-- **When the series conserves the summary**: just where no row is clamped that the sum of the
others would make up for. -/
theorem series_conserves_iff (getTime : String → Option ℤ) (telemetry : StatsRow → Bool)
    (filter : StatsFilter) (db : StatsDb)
    (hvalid : ∀ row ∈ (ensureStatsBackfilled db).requestStats, (getTime row.timestamp).isSome) :
    (Conserves (getStatsSeries getTime telemetry filter db) (getStatsSummary telemetry filter db) ∧
        Partitions getTime (selected telemetry filter db) (getStatsSeries getTime telemetry filter db)) ↔
      (∀ row ∈ selected telemetry filter db, 0 ≤ inputOf row) ∨ ∀ row ∈ selected telemetry filter db, inputOf row ≤ 0 := by
  have hselected : ∀ row ∈ selected telemetry filter db, (getTime row.timestamp).isSome :=
    fun row hrow => hvalid row (List.mem_filter.1 hrow).1
  rw [getStatsSeries, getStatsSummary]
  generalize selected telemetry filter db = rows at hselected
  have hinput : Buckets.total Counts.inputTokens (seriesOf getTime rows) = (summaryOf rows).inputTokens ↔
      (∀ row ∈ rows, 0 ≤ inputOf row) ∨ ∀ row ∈ rows, inputOf row ≤ 0 := by
    have htotal : Buckets.total Counts.inputTokens (seriesOf getTime rows) = ((rows.map inputOf).map (max 0)).sum := by
      rw [total_seriesOf hselected (fun _ => rfl) rfl fun row b => show _ = _ + max 0 (inputOf row) from rfl, List.map_map]
      rfl
    rw [htotal, show (summaryOf rows).inputTokens = max 0 (rows.map inputOf).sum by rw [← sum_inputOf]; rfl, sum_clamp_eq_iff]
    simp only [List.forall_mem_map]
  constructor
  · rintro ⟨hconserves, -⟩
    exact hinput.1 hconserves.inputTokens
  · intro h
    refine ⟨⟨?_, ?_, hinput.2 h, ?_, ?_, ?_⟩, seriesOf_partitions hselected⟩
    · rw [total_seriesOf hselected (fun _ => rfl) rfl fun row b => show _ = _ + 1 from rfl]
      simp [summaryOf]
    · rw [total_seriesOf hselected (fun _ => rfl) rfl
        fun row b => show _ = _ + (row.promptTokens.getD 0 + row.completionTokens.getD 0) from rfl, List.sum_map_add, ← sumOf_eq, ← sumOf_eq]
      rfl
    · rw [total_seriesOf hselected (fun _ => rfl) rfl fun row b => show _ = _ + row.completionTokens.getD 0 from rfl, ← sumOf_eq]
      rfl
    · rw [total_seriesOf hselected (fun _ => rfl) rfl fun row b => show _ = _ + row.cachedTokens.getD 0 from rfl, ← sumOf_eq]
      rfl
    · rw [total_seriesOf hselected (fun _ => rfl) rfl fun row b => show _ = _ + row.cacheCreationTokens.getD 0 from rfl, ← sumOf_eq]
      rfl

/-- A live row as a provider may report it, with more cached tokens than
prompt tokens, and a plain one. -/
def overCached : StatsDb where
  requestStats :=
    [⟨"r1", "2026-03-01T10:00:00.000Z", some "openai", none, none, some 10, some 5, some 100, some 0⟩,
      ⟨"r2", "2026-03-01T10:10:00.000Z", some "openai", none, none, some 200, some 7, some 0, some 0⟩]
  usageHistory := []
  backfillStarted := true
  statsBackfilled := true

def overCachedTime (timestamp : String) : Option ℤ :=
  if timestamp = "2026-03-01T10:00:00.000Z" then some 1772359200000
  else if timestamp = "2026-03-01T10:10:00.000Z" then some 1772359800000
  else none

/-- The series has 200 input tokens and the summary 110. -/
theorem overCached_differs : ¬ Conserves (getStatsSeries overCachedTime (fun _ => true) {} overCached)
    (getStatsSummary (fun _ => true) {} overCached) := by
  intro h
  exact absurd h.inputTokens (by decide +kernel)

/-- Rows that are all within their prompts, some of them from the usage history. -/
def backfilled : StatsDb where
  requestStats := []
  usageHistory :=
    [⟨1, "2026-03-01T10:00:00.000Z", some "openai", none, none, some 120, some 5, none, some 100, some 10⟩,
      ⟨2, "2026-03-01T10:10:00.000Z", some "openai", none, none, some 200, none, none, none, none⟩]
  backfillStarted := false
  statsBackfilled := false

theorem series_conserves_backfilled :
    Conserves (getStatsSeries overCachedTime (fun _ => true) {} backfilled) (getStatsSummary (fun _ => true) {} backfilled) :=
  ((series_conserves_iff overCachedTime (fun _ => true) {} backfilled (by decide +kernel)).2 (.inl (by decide +kernel))).1

end TokenProxy.Statistics
