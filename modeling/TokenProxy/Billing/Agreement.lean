import Mathlib.Algebra.Ring.Nat
import Mathlib.Data.List.Induction
import TokenProxy.Billing.Streams
import TokenProxy.Lib.AppendCons

/-!
# What is billed does not depend on the client, where the counts are reported

Both accumulators are computed from the reports of the stream: the merged usage holds the greatest
of each count (`passthrough_usage`), the translator's the latest ones, with the output of the last
report only (`translate_usage`). The two agree exactly under `SameBilling`.
-/

namespace TokenProxy.Billing

/-! ### Streams and their reports -/

namespace StreamEvent

def isStart : StreamEvent → Bool
  | messageStart _ => true
  | _ => false

def isContent : StreamEvent → Bool
  | content _ _ => true
  | _ => false

/-- A `message_delta` with a stop reason. -/
def stops : StreamEvent → Bool
  | messageDelta _ stopReason => stopReason
  | _ => false

def deltaReport : StreamEvent → Option Report
  | messageDelta usage _ => usage
  | _ => none

def report : StreamEvent → Option Report
  | messageStart usage => usage
  | messageDelta usage _ => usage
  | _ => none

end StreamEvent

/-- A stream from its only `message_start` to its `message_stop`, without
content after a stop reason. -/
structure CompleteStream where
  start : Option Report
  body : List StreamEvent
  oneStart : ∀ e ∈ body, e.isStart = false
  stopped : body.getLast? = some .messageStop
  settled : body.Pairwise fun e later => e.stops = true → later.isContent = false

namespace CompleteStream

def events (stream : CompleteStream) : List StreamEvent := .messageStart stream.start :: stream.body

/-- The reports of the `message_delta` events. -/
def deltas (stream : CompleteStream) : List Report := stream.body.filterMap (·.deltaReport)

def reports (stream : CompleteStream) : List Report := stream.start.toList ++ stream.deltas

end CompleteStream

def counters : List (Report → Option Nat) :=
  [Report.inputTokens, Report.outputTokens, Report.cacheReadInputTokens, Report.cacheCreationInputTokens,
    Report.thinkingTokens]

def NeverDecreases (reports : List Report) : Prop := ∀ count ∈ counters, (reports.filterMap count).Pairwise (· ≤ ·)

instance (reports : List Report) : Decidable (NeverDecreases reports) :=
  inferInstanceAs (Decidable (∀ count ∈ counters, (reports.filterMap count).Pairwise (· ≤ ·)))

def highest (count : Report → Option Nat) (reports : List Report) : Nat := (reports.filterMap count).foldl max 0

def Report.clamped (u : Report) : Option Nat := some (clampReasoningTokens u.thinkingTokens u.outputTokens)

@[simp] theorem highest_nil (count : Report → Option Nat) : highest count [] = 0 := rfl

theorem highest_snoc (count : Report → Option Nat) (reports : List Report) (u : Report) :
    highest count (reports ++ [u]) = max (highest count reports) ((count u).getD 0) := by
  unfold highest
  rw [List.filterMap_append, List.foldl_append]
  cases hu : count u <;> simp [hu]

theorem foldl_max_le {values : List Nat} {start v : Nat} (hstart : start ≤ v)
    (h : ∀ x ∈ values, x ≤ v) :
    values.foldl max start ≤ v := by
  induction values generalizing start with
  | nil => exact hstart
  | cons x values ih =>
    apply ih
    · exact Nat.max_le.mpr ⟨hstart, h x List.mem_cons_self⟩
    · exact fun y hy => h y (List.mem_cons_of_mem x hy)

theorem NeverDecreases.init {reports : List Report} {u : Report}
    (h : NeverDecreases (reports ++ [u])) :
    NeverDecreases reports := by
  intro count hcount
  have hsorted := h count hcount
  rw [List.filterMap_append, List.pairwise_append] at hsorted
  exact hsorted.1

theorem NeverDecreases.highest_le {reports : List Report} {u : Report}
    (h : NeverDecreases (reports ++ [u]))
    {count : Report → Option Nat} (hcount : count ∈ counters) {v : Nat} (hv : count u = some v) :
    highest count reports ≤ v := by
  have hsorted := h count hcount
  rw [List.filterMap_append, List.pairwise_append] at hsorted
  apply foldl_max_le (Nat.zero_le v)
  intro x hx
  exact hsorted.2.2 x hx v (by simp [hv])

theorem NeverDecreases.getD_highest {reports : List Report} {u : Report}
    (h : NeverDecreases (reports ++ [u]))
    {count : Report → Option Nat} (hcount : count ∈ counters) :
    (count u).getD (highest count reports) = highest count (reports ++ [u]) := by
  rw [highest_snoc]
  cases hu : count u with
  | none => simp
  | some v =>
    have hle := h.highest_le hcount hu
    simp only [Option.getD_some]
    omega

/-! ### The merged usage -/

def StreamEvent.reported : StreamEvent → Usage
  | messageStart (some u) =>
    { promptTokens := u.inputTokens, completionTokens := u.outputTokens,
      cacheReadInputTokens := u.cacheReadInputTokens, cacheCreationInputTokens := u.cacheCreationInputTokens }
  | messageDelta (some u) _ =>
    { promptTokens := u.inputTokens, completionTokens := u.outputTokens,
      cacheReadInputTokens := u.cacheReadInputTokens, cacheCreationInputTokens := u.cacheCreationInputTokens,
      reasoningTokens := u.clamped }
  | _ => {}

theorem StreamEvent.report_cases {P : StreamEvent → Prop} (start : ∀ u, P (messageStart (some u)))
    (delta : ∀ u stopReason, P (messageDelta (some u) stopReason))
    (other : ∀ e : StreamEvent, e.report = none → e.deltaReport = none → e.reported = {} → P e) (e : StreamEvent) : P e := by
  cases e with
  | messageStart usage =>
    cases usage with
    | none => exact other _ rfl rfl rfl
    | some u => exact start u
  | content text tool => exact other _ rfl rfl rfl
  | messageDelta usage stopReason =>
    cases usage with
    | none => exact other _ rfl rfl rfl
    | some u => exact delta u stopReason
  | messageStop => exact other _ rfl rfl rfl

theorem extractUsage_eq (e : StreamEvent) : extractUsage e = normalizeUsage e.reported := by
  cases e with
  | messageStart usage => cases usage <;> rfl
  | content text tool => rfl
  | messageDelta usage stopReason => cases usage <;> rfl
  | messageStop => rfl

theorem mergeNumber_none (count : Option Nat) : mergeNumber count none = count := rfl

theorem none_mergeNumber (count : Option Nat) : mergeNumber none count = count := by
  cases count <;> simp [mergeNumber]

theorem getD_mergeNumber (prev next : Option Nat) :
    (mergeNumber prev next).getD 0 = max (prev.getD 0) (next.getD 0) := by
  cases next <;> simp [mergeNumber]

theorem mergeNumber_eq_none {prev next : Option Nat} :
    mergeNumber prev next = none ↔ prev = none ∧ next = none := by
  cases next <;> simp [mergeNumber]

theorem merge_eq_empty {a b : Usage} (hb : b.estimated = false) :
    a.merge b = {} ↔ a = {} ∧ b = {} := by
  cases a
  cases b
  simp only at hb
  simp only [Usage.merge, Usage.mk.injEq, mergeNumber_eq_none, hb]
  constructor
  · intro h
    simp_all
  · rintro ⟨h, h'⟩
    simp_all

theorem merge_empty (a : Usage) : a.merge {} = a := rfl

theorem empty_merge {b : Usage} (hb : b.estimated = false) : ({} : Usage).merge b = b := by
  cases b
  simp only at hb
  simp [Usage.merge, none_mergeNumber, hb]

theorem mergeUsage_normalizeUsage (a : Usage) {b : Usage} (hb : b.estimated = false) :
    mergeUsage (normalizeUsage a) (normalizeUsage b) = normalizeUsage (a.merge b) := by
  have hmerged : a.merge b = {} ↔ a = {} ∧ b = {} := merge_eq_empty hb
  unfold normalizeUsage
  by_cases ha : a = {}
  · by_cases hb' : b = {}
    · simp [ha, hb', mergeUsage, merge_empty]
    · simp [ha, hb', mergeUsage, empty_merge hb]
  · by_cases hb' : b = {}
    · simp [ha, hb', mergeUsage, merge_empty]
    · simp [ha, hb', mergeUsage, hmerged]

theorem reported_estimated (e : StreamEvent) : e.reported.estimated = false := by
  cases e with
  | messageStart usage => cases usage <;> rfl
  | content text tool => rfl
  | messageDelta usage stopReason => cases usage <;> rfl
  | messageStop => rfl

def merged (events : List StreamEvent) : Usage := events.foldl (fun usage e => usage.merge e.reported) {}

theorem merged_snoc (events : List StreamEvent) (e : StreamEvent) :
    merged (events ++ [e]) = (merged events).merge e.reported := by
  simp [merged]

def toolLength (events : List StreamEvent) : Nat := (events.map (·.toolCallOutputLength)).sum

def contentLength (events : List StreamEvent) : Nat := (events.map fun e => e.textLength + e.toolCallOutputLength).sum

theorem passthroughStep_eq (s : Passthrough) (e : StreamEvent) :
    passthroughStep s e =
      { usage := mergeUsage s.usage (extractUsage e), totalContentLength := s.totalContentLength + e.toolCallOutputLength } := by
  unfold passthroughStep
  cases extractUsage e with
  | some extracted => rfl
  | none => cases hs : s.usage <;> simp [mergeUsage]

/-- **The merged usage of a stream** is what its events report, merged. -/
theorem passthrough_run (events : List StreamEvent) :
    events.foldl passthroughStep {} =
      { usage := normalizeUsage (merged events), totalContentLength := toolLength events } := by
  induction events using List.reverseRecOn with
  | nil => rfl
  | append_singleton events e ih =>
    rw [List.foldl_append, ih, List.foldl_cons, List.foldl_nil, passthroughStep_eq, extractUsage_eq,
      mergeUsage_normalizeUsage _ (reported_estimated e), merged_snoc]
    simp [toolLength]

theorem getD_merged {field : Usage → Option Nat} {count : Report → Option Nat}
    {report : StreamEvent → Option Report}
    (hmerge : ∀ a b, field (a.merge b) = mergeNumber (field a) (field b)) (hempty : field {} = none)
    (hreported : ∀ e : StreamEvent, field e.reported = (report e).bind count) (events : List StreamEvent) :
    (field (merged events)).getD 0 = highest count (events.filterMap report) := by
  induction events using List.reverseRecOn with
  | nil => simp [merged, hempty]
  | append_singleton events e ih =>
    rw [merged_snoc, hmerge, getD_mergeNumber, ih, hreported, List.filterMap_append]
    cases he : report e with
    | none => simp [he]
    | some u => simp [he, highest_snoc]

theorem merged_none {field : Usage → Option Nat}
    (hmerge : ∀ a b, field b = none → field (a.merge b) = field a)
    (hempty : field {} = none) (hreported : ∀ e : StreamEvent, field e.reported = none) (events : List StreamEvent) :
    field (merged events) = none := by
  induction events using List.reverseRecOn with
  | nil => exact hempty
  | append_singleton events e ih => rw [merged_snoc, hmerge _ _ (hreported e), ih]

theorem merged_eq_empty (events : List StreamEvent) :
    merged events = {} ↔ ∀ e ∈ events, e.reported = {} := by
  induction events using List.reverseRecOn with
  | nil => simp [merged]
  | append_singleton events e ih =>
    rw [merged_snoc, merge_eq_empty (reported_estimated e), ih]
    simp [or_imp, forall_and]

theorem billed_exclusive {usage : Usage} (hinput : usage.inputTokens = none)
    (houtput : usage.outputTokens = none)
    (hcached : usage.cachedTokens = none) (hdetails : usage.completionTokensDetails = none) :
    (canonicalizeUsage usage).billed =
      { promptTokens := usage.promptTokens.getD 0 + usage.cacheReadInputTokens.getD 0 +
          usage.cacheCreationInputTokens.getD 0
        cachedTokens := usage.cacheReadInputTokens.getD 0
        cacheCreationInputTokens := usage.cacheCreationInputTokens.getD 0
        completionTokens := usage.completionTokens.getD 0
        reasoningTokens := usage.reasoningTokens.getD 0 } := by
  cases hread : usage.cacheReadInputTokens <;> cases hwrite : usage.cacheCreationInputTokens <;>
    simp [canonicalizeUsage, Canonical.billed, resolveCacheTokens, hinput, houtput, hcached, hdetails, hread, hwrite]

theorem billed_folded (input output cacheRead cacheCreation thinking : Nat) :
    (canonicalizeUsage (foldedUsage input output cacheRead cacheCreation thinking)).billed =
      { promptTokens := input + cacheRead + cacheCreation, cachedTokens := cacheRead,
        cacheCreationInputTokens := cacheCreation, completionTokens := output, reasoningTokens := thinking } := by
  rcases Nat.eq_zero_or_pos cacheRead with hread | hread <;>
    rcases Nat.eq_zero_or_pos cacheCreation with hwrite | hwrite <;>
    rcases Nat.eq_zero_or_pos thinking with hthinking | hthinking <;>
    simp [canonicalizeUsage, Canonical.billed, resolveCacheTokens, foldedUsage, hread, hwrite, hthinking]

/-! ### The translator's usage -/

def latestOutput (deltas : List Report) : Nat := (deltas.getLast?.bind (·.outputTokens)).getD 0

/-- The thinking that the translator knows: a report without it keeps what was known,
inside the report's own output. -/
def latestThinking (deltas : List Report) : Nat :=
  deltas.foldl (fun known u => clampReasoningTokens (some (u.thinkingTokens.getD known)) (some (u.outputTokens.getD 0))) 0

@[simp] theorem latestOutput_snoc (deltas : List Report) (u : Report) :
    latestOutput (deltas ++ [u]) = u.outputTokens.getD 0 := by
  simp [latestOutput]

theorem latestThinking_snoc (deltas : List Report) (u : Report) :
    latestThinking (deltas ++ [u]) = min (u.thinkingTokens.getD (latestThinking deltas)) (u.outputTokens.getD 0) := by
  simp [latestThinking, clampReasoningTokens]

theorem latestThinking_le (deltas : List Report) : latestThinking deltas ≤ latestOutput deltas := by
  induction deltas using List.reverseRecOn with
  | nil => exact Nat.le_refl 0
  | append_singleton deltas u =>
    rw [latestThinking_snoc, latestOutput_snoc]
    exact Nat.min_le_right _ _

def latest (start : Option Report) (deltas : List Report) : Usage :=
  let reports := start.toList ++ deltas
  foldedUsage (highest (·.inputTokens) reports) (latestOutput deltas) (highest (·.cacheReadInputTokens) reports)
    (highest (·.cacheCreationInputTokens) reports) (latestThinking deltas)

def Uncounted (start : Option Report) (deltas : List Report) : Prop :=
  highest (·.inputTokens) (start.toList ++ deltas) = 0 ∧ highest (·.cacheReadInputTokens) (start.toList ++ deltas) = 0 ∧
    highest (·.cacheCreationInputTokens) (start.toList ++ deltas) = 0 ∧ latestOutput deltas = 0

theorem Uncounted.latestThinking {start : Option Report} {deltas : List Report}
    (h : Uncounted start deltas) :
    latestThinking deltas = 0 := by
  have hle := latestThinking_le deltas
  rw [h.2.2.2] at hle
  omega

structure Reads (usage : Usage) (input cacheRead cacheCreation thinking : Nat) : Prop where
  input : usage.inputTokens.getD 0 = input
  cacheRead : usage.cacheReadInputTokens.getD 0 = cacheRead
  cacheCreation : usage.cacheCreationInputTokens.getD 0 = cacheCreation
  thinking : usage.completionTokensDetails.getD 0 = thinking

theorem reads_foldedUsage (input output cacheRead cacheCreation thinking : Nat) :
    Reads (foldedUsage input output cacheRead cacheCreation thinking) input cacheRead cacheCreation thinking := by
  rcases Nat.eq_zero_or_pos cacheRead with hread | hread <;>
    rcases Nat.eq_zero_or_pos cacheCreation with hwrite | hwrite <;>
    rcases Nat.eq_zero_or_pos thinking with hthinking | hthinking <;>
    constructor <;> simp [foldedUsage, hread, hwrite, hthinking]

theorem getD_getD_mergeNumber (prev next : Option Nat) :
    next.getD ((mergeNumber prev next).getD 0) = next.getD (prev.getD 0) := by
  cases next <;> rfl

theorem deltaUsage_merged (usage : Option Usage) (u : Report) (stopReason : Bool)
    {input cacheRead cacheCreation thinking : Nat}
    (h : Reads (usage.getD {}) input cacheRead cacheCreation thinking) :
    deltaUsage ((mergeUsage usage (extractUsage (.messageDelta (some u) stopReason))).getD {}) u =
      foldedUsage (u.inputTokens.getD input) (u.outputTokens.getD 0) (u.cacheReadInputTokens.getD cacheRead)
        (u.cacheCreationInputTokens.getD cacheCreation) (min (u.thinkingTokens.getD thinking) (u.outputTokens.getD 0)) := by
  obtain ⟨hinput, hread, hwrite, hthinking⟩ := h
  have hextracted : extractUsage (.messageDelta (some u) stopReason) =
      some (StreamEvent.messageDelta (some u) stopReason).reported := by
    rw [extractUsage_eq]
    simp [normalizeUsage, StreamEvent.reported, Report.clamped]
  rw [hextracted]
  cases usage with
  | none =>
    simp only [Option.getD_none] at hinput hread hwrite hthinking
    subst hinput hread hwrite hthinking
    simp only [mergeUsage, Option.getD_some, deltaUsage, StreamEvent.reported, clampReasoningTokens]
    congr 1
    · cases u.cacheReadInputTokens <;> rfl
    · cases u.cacheCreationInputTokens <;> rfl
  | some prev =>
    simp only [Option.getD_some] at hinput hread hwrite hthinking
    simp only [mergeUsage, Option.getD_some, deltaUsage, Usage.merge, StreamEvent.reported, clampReasoningTokens,
      getD_getD_mergeNumber, mergeNumber_none, hinput, hread, hwrite]
    congr 2
    rw [← hthinking]
    rfl

/-- What the translator has in its usage: nothing, what was reported, or an estimate of a
stream that was not counted. -/
inductive Kept (b : Body) (start : Option Report) (deltas : List Report) (s : Translate) : Prop where
  | unknown (husage : s.usage = none) (hreports : start.toList ++ deltas = [])
  | reported (husage : s.usage = some (latest start deltas)) (hreports : start.toList ++ deltas ≠ [])
  | estimated (husage : s.usage = some (estimateUsage b s.totalContentLength)) (hlength : 0 < s.totalContentLength)
      (hstopped : s.finishReason = true) (huncounted : Uncounted start deltas)

theorem uncounted_nil {start : Option Report} {deltas : List Report}
    (h : start.toList ++ deltas = []) :
    Uncounted start deltas := by
  have hdeltas := (List.append_eq_nil_iff.mp h).2
  unfold Uncounted
  rw [h, hdeltas]
  exact ⟨rfl, rfl, rfl, rfl⟩

theorem Uncounted.reads {start : Option Report} {deltas : List Report} (h : Uncounted start deltas)
    {usage : Usage} (husage : Reads usage 0 0 0 0) :
    Reads usage (highest (·.inputTokens) (start.toList ++ deltas))
      (highest (·.cacheReadInputTokens) (start.toList ++ deltas))
      (highest (·.cacheCreationInputTokens) (start.toList ++ deltas)) (Billing.latestThinking deltas) := by
  have hthinking := h.latestThinking
  obtain ⟨hinput, hread, hwrite, -⟩ := h
  rw [hinput, hread, hwrite, hthinking]
  exact husage

theorem Kept.reads {b : Body} {start : Option Report} {deltas : List Report} {s : Translate}
    (h : Kept b start deltas s) :
    Reads (s.usage.getD {}) (highest (·.inputTokens) (start.toList ++ deltas))
      (highest (·.cacheReadInputTokens) (start.toList ++ deltas))
      (highest (·.cacheCreationInputTokens) (start.toList ++ deltas)) (latestThinking deltas) := by
  cases h with
  | unknown husage hreports =>
    rw [husage]
    exact (uncounted_nil hreports).reads ⟨rfl, rfl, rfl, rfl⟩
  | reported husage hreports =>
    rw [husage]
    exact reads_foldedUsage _ _ _ _ _
  | estimated husage hlength hstopped huncounted =>
    rw [husage]
    exact huncounted.reads ⟨rfl, rfl, rfl, rfl⟩

/-- **A report makes the latest counts of the counts before it.** -/
theorem Kept.deltaUsage {b : Body} {start : Option Report} {deltas : List Report} {s : Translate}
    (h : Kept b start deltas s)
    {u : Report} (hgrows : NeverDecreases (start.toList ++ (deltas ++ [u]))) (stopReason : Bool) :
    deltaUsage ((mergeUsage s.usage (extractUsage (.messageDelta (some u) stopReason))).getD {}) u =
      latest start (deltas ++ [u]) := by
  rw [deltaUsage_merged s.usage u stopReason h.reads]
  rw [← List.append_assoc] at hgrows
  unfold latest
  rw [hgrows.getD_highest (by simp [counters]), hgrows.getD_highest (by simp [counters]),
    hgrows.getD_highest (by simp [counters]), latestOutput_snoc, latestThinking_snoc, List.append_assoc]

theorem hasValidUsage_latest (start : Option Report) (deltas : List Report) :
    hasValidUsage (some (latest start deltas)) = false ↔ Uncounted start deltas := by
  simp only [hasValidUsage, latest, foldedUsage, Uncounted, List.any_cons, List.any_nil, Option.getD_some, Bool.or_false,
    Bool.or_eq_false_iff, decide_eq_false_iff_not]
  omega

theorem hasValidUsage_finish_latest (start : Option Report) (deltas : List Report) :
    hasValidUsage ((some (latest start deltas)).map finishUsage) = false ↔ Uncounted start deltas := by
  have hreads := reads_foldedUsage (highest (·.inputTokens) (start.toList ++ deltas)) (latestOutput deltas)
    (highest (·.cacheReadInputTokens) (start.toList ++ deltas))
    (highest (·.cacheCreationInputTokens) (start.toList ++ deltas)) (latestThinking deltas)
  obtain ⟨hinput, hread, hwrite, -⟩ := hreads
  simp only [Option.map_some, hasValidUsage, finishUsage, latest, Uncounted, List.any_cons, List.any_nil, Option.getD_some,
    Option.getD_none, Bool.or_false, Bool.or_eq_false_iff, decide_eq_false_iff_not, hinput, hread, hwrite]
  simp only [foldedUsage, Option.getD_some]
  omega

theorem Kept.finish {b : Body} {start : Option Report} {deltas : List Report} {s : Translate}
    (h : Kept b start deltas s) :
    Kept b start deltas
      (if !hasValidUsage (s.usage.map finishUsage) && 0 < s.totalContentLength then
        { s with usage := some (estimateUsage b s.totalContentLength), finishReason := true, finishReasonSent := true }
      else { s with finishReason := true, finishReasonSent := true }) := by
  split
  · rename_i hestimate
    simp only [Bool.and_eq_true, Bool.not_eq_true', decide_eq_true_eq] at hestimate
    obtain ⟨hinvalid, hlength⟩ := hestimate
    cases h with
    | unknown husage hreports => exact .estimated rfl hlength rfl (uncounted_nil hreports)
    | reported husage hreports =>
      rw [husage] at hinvalid
      exact .estimated rfl hlength rfl ((hasValidUsage_finish_latest start deltas).mp hinvalid)
    | estimated husage _ hstopped huncounted => exact .estimated rfl hlength rfl huncounted
  · cases h with
    | unknown husage hreports => exact .unknown husage hreports
    | reported husage hreports => exact .reported husage hreports
    | estimated husage hlength hstopped huncounted => exact .estimated husage hlength rfl huncounted

structure Translated (b : Body) (start : Option Report) (body : List StreamEvent)
    (s : Translate) : Prop where
  kept : Kept b start (body.filterMap (·.deltaReport)) s
  length : s.totalContentLength = contentLength body
  finished : s.finishReason = true → s.finishReasonSent = true
  stopped : s.finishReason = true → ∃ e ∈ body, e.stops = true

theorem translated_start (b : Body) (start : Option Report) :
    Translated b start [] (translateStep b {} (.messageStart start)) := by
  cases start with
  | none =>
    have hstep : translateStep b {} (.messageStart none) = {} := rfl
    rw [hstep]
    exact ⟨.unknown rfl rfl, rfl, fun h => absurd h (by decide), fun h => absurd h (by decide)⟩
  | some u =>
    have hlatest : foldedUsage (u.inputTokens.getD 0) 0 (u.cacheReadInputTokens.getD 0) (u.cacheCreationInputTokens.getD 0) 0 =
        latest (some u) [] := by
      have hone (count : Report → Option Nat) : highest count [u] = (count u).getD 0 := by
        have hsnoc := highest_snoc count [] u
        simpa using hsnoc
      simp [latest, hone, latestOutput, latestThinking]
    have hstep : translateStep b {} (.messageStart (some u)) =
        { usage := some (latest (some u) []), totalContentLength := 0, finishReason := false, finishReasonSent := false } := by
      rw [← hlatest]
      unfold translateStep
      cases extractUsage (.messageStart (some u)) <;> rfl
    rw [hstep]
    refine ⟨.reported rfl (by simp), rfl, ?_, ?_⟩
    · exact fun h => absurd h (by simp)
    · exact fun h => absurd h (by simp)

/-- What a `message_delta` leaves in the usage, before its stop reason is looked at. -/
def reportedUsage (s : Translate) (usage : Option Report) (stopReason : Bool) : Option Usage :=
  match usage with
  | some u => some (deltaUsage ((mergeUsage s.usage (extractUsage (.messageDelta (some u) stopReason))).getD {}) u)
  | none => s.usage

theorem translateStep_delta (b : Body) (s : Translate) (usage : Option Report) (stopReason : Bool) :
    translateStep b s (.messageDelta usage stopReason) =
      if stopReason then
        if !hasValidUsage ((reportedUsage s usage stopReason).map finishUsage) && 0 < s.totalContentLength then
          { s with usage := some (estimateUsage b s.totalContentLength), finishReason := true, finishReasonSent := true }
        else { s with usage := reportedUsage s usage stopReason, finishReason := true, finishReasonSent := true }
      else { s with usage := reportedUsage s usage stopReason } := by
  cases usage with
  | none => cases stopReason <;> rfl
  | some u =>
    have hextracted : extractUsage (.messageDelta (some u) stopReason) =
        some (StreamEvent.messageDelta (some u) stopReason).reported := by
      rw [extractUsage_eq]
      simp [normalizeUsage, StreamEvent.reported, Report.clamped]
    unfold translateStep reportedUsage
    cases stopReason <;>
      simp [hextracted, claudeToOpenAIResponse, StreamEvent.textLength, StreamEvent.toolCallOutputLength]

theorem Kept.delta {b : Body} {start : Option Report} {deltas : List Report} {s : Translate}
    (h : Kept b start deltas s)
    (usage : Option Report) (stopReason : Bool) (hgrows : NeverDecreases (start.toList ++ (deltas ++ usage.toList))) :
    Kept b start (deltas ++ usage.toList) { s with usage := reportedUsage s usage stopReason } := by
  cases usage with
  | none =>
    rw [Option.toList_none, List.append_nil]
    exact h
  | some u =>
    refine .reported ?_ (by simp)
    exact congrArg some (h.deltaUsage hgrows stopReason)

theorem filterMap_snoc {β : Type*} (f : StreamEvent → Option β) (body : List StreamEvent)
    (e : StreamEvent) :
    (body ++ [e]).filterMap f = body.filterMap f ++ (f e).toList := by
  cases he : f e <;> simp [he]

/-- **One event of the stream.** -/
theorem Translated.step {b : Body} {start : Option Report} {body : List StreamEvent} {s : Translate}
    (h : Translated b start body s) {e : StreamEvent} (hstart : e.isStart = false)
    (hsettled : ∀ e' ∈ body, e'.stops = true → e.isContent = false)
    (hgrows : NeverDecreases (start.toList ++ (body ++ [e]).filterMap (·.deltaReport))) :
    Translated b start (body ++ [e]) (translateStep b s e) := by
  obtain ⟨hkept, hlength, hfinished, hstopped⟩ := h
  have hlength' : contentLength (body ++ [e]) = contentLength body + (e.textLength + e.toolCallOutputLength) := by
    simp [contentLength]
  have hstays (hfinish : s.finishReason = true) : ∃ e' ∈ body ++ [e], e'.stops = true := by
    obtain ⟨e', he', hstop⟩ := hstopped hfinish
    exact ⟨e', List.mem_append_left [e] he', hstop⟩
  rw [filterMap_snoc] at hgrows
  cases e with
  | messageStart usage => exact absurd hstart (by simp [StreamEvent.isStart])
  | content text tool =>
    have hstep : translateStep b s (.content text tool) =
        { s with totalContentLength := s.totalContentLength + text + tool } := rfl
    rw [hstep]
    refine ⟨?_, ?_, hfinished, hstays⟩
    · rw [filterMap_snoc]
      simp only [StreamEvent.deltaReport, Option.toList_none, List.append_nil]
      cases hkept with
      | unknown husage hreports => exact .unknown husage hreports
      | reported husage hreports => exact .reported husage hreports
      | estimated _ _ hfinish _ =>
        obtain ⟨e', he', hstop⟩ := hstopped hfinish
        exact absurd (hsettled e' he' hstop) (by simp [StreamEvent.isContent])
    · rw [hlength', ← hlength]
      simp only [StreamEvent.textLength, StreamEvent.toolCallOutputLength]
      omega
  | messageDelta usage stopReason =>
    have hdelta := hkept.delta usage stopReason hgrows
    rw [translateStep_delta]
    cases stopReason with
    | false =>
      refine ⟨?_, ?_, hfinished, hstays⟩
      · rw [filterMap_snoc]
        exact hdelta
      · rw [hlength', ← hlength]
        simp [StreamEvent.textLength, StreamEvent.toolCallOutputLength]
    | true =>
      have hlast : ∃ e' ∈ body ++ [.messageDelta usage true], e'.stops = true :=
        ⟨.messageDelta usage true, by simp, rfl⟩
      have hcount : s.totalContentLength = contentLength (body ++ [.messageDelta usage true]) := by
        rw [hlength', ← hlength]
        simp [StreamEvent.textLength, StreamEvent.toolCallOutputLength]
      have hfinish := hdelta.finish
      rw [if_pos rfl]
      refine ⟨?_, ?_, ?_, fun _ => hlast⟩
      · rw [filterMap_snoc]
        exact hfinish
      · split <;> exact hcount
      · split <;> exact fun _ => rfl
  | messageStop =>
    have hstep : translateStep b s .messageStop = { s with finishReasonSent := true } := by
      cases hsent : s.finishReasonSent with
      | true =>
        unfold translateStep
        simp [extractUsage, claudeToOpenAIResponse, StreamEvent.textLength, StreamEvent.toolCallOutputLength, hsent]
      | false =>
        have hno : s.finishReason = false := by
          by_contra hfinish
          rw [Bool.not_eq_false] at hfinish
          rw [hfinished hfinish] at hsent
          exact absurd hsent (by decide)
        unfold translateStep
        simp [extractUsage, claudeToOpenAIResponse, StreamEvent.textLength, StreamEvent.toolCallOutputLength, hsent, hno]
    rw [hstep]
    refine ⟨?_, ?_, fun _ => rfl, hstays⟩
    · rw [filterMap_snoc]
      simp only [StreamEvent.deltaReport, Option.toList_none, List.append_nil]
      cases hkept with
      | unknown husage hreports => exact .unknown husage hreports
      | reported husage hreports => exact .reported husage hreports
      | estimated husage hpos hfinish huncounted => exact .estimated husage hpos hfinish huncounted
    · rw [hlength', ← hlength]
      simp [StreamEvent.textLength, StreamEvent.toolCallOutputLength]

/-- **The translator over a stream.** -/
theorem translated_run (b : Body) (start : Option Report) {body : List StreamEvent}
    (hstart : ∀ e ∈ body, e.isStart = false)
    (hsettled : body.Pairwise fun e later => e.stops = true → later.isContent = false)
    (hgrows : NeverDecreases (start.toList ++ body.filterMap (·.deltaReport))) :
    Translated b start body (body.foldl (translateStep b) (translateStep b {} (.messageStart start))) := by
  induction body using List.reverseRecOn with
  | nil => exact translated_start b start
  | append_singleton body e ih =>
    rw [List.pairwise_append] at hsettled
    have hbefore : NeverDecreases (start.toList ++ body.filterMap (·.deltaReport)) := by
      rw [filterMap_snoc] at hgrows
      cases he : e.deltaReport with
      | none => simpa [he] using hgrows
      | some u =>
        rw [he, Option.toList_some, ← List.append_assoc] at hgrows
        exact hgrows.init
    have hrun := ih (fun e' he' => hstart e' (List.mem_append_left [e] he')) hsettled.1 hbefore
    rw [List.foldl_append]
    exact hrun.step (hstart e (by simp)) (fun e' he' => hsettled.2.2 e' he' e (by simp)) hgrows

theorem hasValidUsage_estimate (b : Body) (length : Nat) :
    hasValidUsage (some (estimateUsage b length)) = true := by
  have hinput : 0 < estimateInputTokens b := by
    have hbraces := b.braces
    unfold estimateInputTokens
    omega
  simp [hasValidUsage, estimateUsage, hinput]

/-- **What the translator hands over.** -/
theorem translate_usage (b : Body) (stream : CompleteStream)
    (hgrows : NeverDecreases stream.reports) :
    (¬ Uncounted stream.start stream.deltas → translateUsage b stream.events = some (latest stream.start stream.deltas)) ∧
    (Uncounted stream.start stream.deltas → 0 < contentLength stream.body →
      translateUsage b stream.events = some (estimateUsage b (contentLength stream.body))) ∧
    (contentLength stream.body = 0 → stream.reports = [] → translateUsage b stream.events = none) ∧
    (contentLength stream.body = 0 → stream.reports ≠ [] →
      translateUsage b stream.events = some (latest stream.start stream.deltas)) := by
  obtain ⟨hkept, hlength, -, -⟩ := translated_run b stream.start stream.oneStart stream.settled hgrows
  have husage : translateUsage b stream.events = translateFlush b
      (stream.body.foldl (translateStep b) (translateStep b {} (.messageStart stream.start))) := rfl
  rw [husage]
  generalize stream.body.foldl (translateStep b) (translateStep b {} (.messageStart stream.start)) = s at hkept hlength ⊢
  rw [← hlength]
  unfold translateFlush
  cases hkept with
  | unknown hs hreports =>
    rw [hs]
    refine ⟨fun hcounted => absurd (uncounted_nil hreports) hcounted, fun _ hpos => ?_, fun hzero _ => ?_,
      fun _ hne => absurd hreports hne⟩
    · simp [hasValidUsage, hpos]
    · simp [hzero]
  | reported hs hreports =>
    rw [hs]
    refine ⟨fun hcounted => ?_, fun huncounted hpos => ?_, fun _ hnil => absurd hnil hreports, fun hzero _ => ?_⟩
    · have hvalid : hasValidUsage (some (latest stream.start stream.deltas)) = true := by
        rw [← Bool.not_eq_false, hasValidUsage_latest]
        exact hcounted
      rw [CompleteStream.deltas] at hvalid
      simp [hvalid, CompleteStream.deltas]
    · have hinvalid := (hasValidUsage_latest _ _).mpr huncounted
      rw [CompleteStream.deltas] at hinvalid
      simp [hinvalid, hpos]
    · simp [hzero, CompleteStream.deltas]
  | estimated hs hpos hstopped huncounted =>
    rw [hs, hasValidUsage_estimate]
    refine ⟨fun hcounted => absurd huncounted hcounted, fun _ _ => rfl, fun hzero => ?_, fun hzero => ?_⟩
    · omega
    · omega

/-! ### Where the two agree -/

def Counted (stream : CompleteStream) : Prop :=
  0 < highest (·.inputTokens) stream.reports ∨ 0 < highest (·.outputTokens) stream.reports

instance (stream : CompleteStream) : Decidable (Counted stream) := inferInstanceAs (Decidable (_ ∨ _))

/-- The last report of a `message_delta` holds the output count, if output was counted at all. -/
def OutputKept (stream : CompleteStream) : Prop :=
  highest (·.outputTokens) stream.reports = 0 ∨ ∃ u, stream.deltas.getLast? = some u ∧ u.outputTokens.isSome

/-- A report that leaves the output count out is followed by one with the thinking count. -/
def Followed (deltas : List Report) : Prop :=
  ∀ (before : List Report) (u : Report) (after : List Report), deltas = before ++ u :: after → u.outputTokens = none →
    ∃ later ∈ after, later.thinkingTokens.isSome

/-- No report counts thinking inside its output, or none loses what was counted. -/
def ThinkingKept (stream : CompleteStream) : Prop :=
  (∀ u ∈ stream.deltas, clampReasoningTokens u.thinkingTokens u.outputTokens = 0) ∨ Followed stream.deltas

theorem followed_snoc (deltas : List Report) (u : Report) :
    Followed (deltas ++ [u]) ↔ u.outputTokens.isSome ∧ (u.thinkingTokens.isSome ∨ Followed deltas) := by
  constructor
  · intro h
    refine ⟨?_, ?_⟩
    · by_contra hnone
      rw [Option.not_isSome_iff_eq_none] at hnone
      obtain ⟨later, hlater, -⟩ := h deltas u [] rfl hnone
      exact absurd hlater List.not_mem_nil
    · by_cases hthinking : u.thinkingTokens.isSome
      · exact .inl hthinking
      · refine .inr ?_
        rintro before v after rfl hv
        obtain ⟨later, hlater, hsome⟩ := h before v (after ++ [u]) (by simp) hv
        rcases List.mem_append.mp hlater with hafter | hlast
        · exact ⟨later, hafter, hsome⟩
        · rw [List.mem_singleton.mp hlast] at hsome
          exact absurd hsome hthinking
  · rintro ⟨houtput, hlater⟩ before v after hsplit hv
    rcases Lib.snoc_eq_append_cons_iff.1 hsplit with ⟨-, -, rfl⟩ | ⟨rest, rfl, hdeltas⟩
    · rw [hv] at houtput
      exact absurd houtput (by decide)
    · rcases hlater with hthinking | hfollowed
      · exact ⟨u, by simp, hthinking⟩
      · obtain ⟨later, hmem, hsome⟩ := hfollowed before v rest hdeltas hv
        exact ⟨later, List.mem_append_left [u] hmem, hsome⟩

theorem highest_clamped_le (deltas : List Report) :
    highest Report.clamped deltas ≤ highest (·.thinkingTokens) deltas ∧
      highest Report.clamped deltas ≤ highest (·.outputTokens) deltas := by
  induction deltas using List.reverseRecOn with
  | nil => exact ⟨Nat.le_refl 0, Nat.le_refl 0⟩
  | append_singleton deltas u ih =>
    simp only [highest_snoc, Report.clamped, Option.getD_some, clampReasoningTokens]
    omega

theorem highest_clamped_eq_zero (deltas : List Report) :
    highest Report.clamped deltas = 0 ↔ ∀ u ∈ deltas, clampReasoningTokens u.thinkingTokens u.outputTokens = 0 := by
  induction deltas using List.reverseRecOn with
  | nil => simp
  | append_singleton deltas u ih =>
    have hmax : highest Report.clamped (deltas ++ [u]) = 0 ↔ highest Report.clamped deltas = 0 ∧
        clampReasoningTokens u.thinkingTokens u.outputTokens = 0 := by
      rw [highest_snoc, Report.clamped, Option.getD_some]
      omega
    rw [hmax, ih]
    simp [or_imp, forall_and]

/-- **The thinking that is known in the end** is the most that a report
counted, if no report lost it. -/
theorem latestThinking_eq {deltas : List Report} (hgrows : NeverDecreases deltas) :
    latestThinking deltas ≤ highest Report.clamped deltas ∧
      (latestThinking deltas = highest Report.clamped deltas ↔ highest Report.clamped deltas = 0 ∨ Followed deltas) := by
  induction deltas using List.reverseRecOn with
  | nil => exact ⟨Nat.le_refl 0, fun _ => .inl rfl, fun _ => rfl⟩
  | append_singleton deltas u ih =>
    obtain ⟨hle, hiff⟩ := ih hgrows.init
    obtain ⟨hthinking, houtput⟩ := highest_clamped_le deltas
    have hmax := highest_snoc Report.clamped deltas u
    rw [Report.clamped, Option.getD_some, clampReasoningTokens] at hmax
    rw [latestThinking_snoc, followed_snoc, hmax]
    cases ho : u.outputTokens with
    | none =>
      simp only [Option.getD_none, Nat.min_zero, Nat.max_zero, Option.isSome_none, Bool.false_eq_true, false_and, or_false]
      exact ⟨Nat.zero_le _, eq_comm⟩
    | some v =>
      have hv : highest (·.outputTokens) deltas ≤ v := hgrows.highest_le (by simp [counters]) ho
      cases ht : u.thinkingTokens with
      | some t =>
        have htle : highest (·.thinkingTokens) deltas ≤ t := hgrows.highest_le (by simp [counters]) ht
        simp only [Option.getD_some, Option.isSome_some, true_or, and_true, or_true, iff_true]
        omega
      | none =>
        simp only [Option.getD_none, Option.getD_some, Nat.zero_min, Nat.max_zero, Option.isSome_some, Option.isSome_none,
          Bool.false_eq_true, false_or, true_and]
        have hmin : min (latestThinking deltas) v = latestThinking deltas := by omega
        rw [hmin]
        exact ⟨hle, hiff⟩

theorem NeverDecreases.deltas {stream : CompleteStream} (h : NeverDecreases stream.reports) :
    NeverDecreases stream.deltas := by
  intro count hcount
  have hsorted := h count hcount
  rw [CompleteStream.reports, List.filterMap_append, List.pairwise_append] at hsorted
  exact hsorted.2.1

theorem thinkingKept_iff {stream : CompleteStream} (h : NeverDecreases stream.reports) :
    latestThinking stream.deltas = highest Report.clamped stream.deltas ↔ ThinkingKept stream := by
  rw [(latestThinking_eq h.deltas).2, highest_clamped_eq_zero]
  rfl

theorem highest_append_le (count : Report → Option Nat)
    (xs ys : List Report) : highest count ys ≤ highest count (xs ++ ys) := by
  induction ys using List.reverseRecOn with
  | nil => exact Nat.zero_le _
  | append_singleton ys u ih =>
    rw [← List.append_assoc, highest_snoc, highest_snoc]
    omega

theorem outputKept_iff {stream : CompleteStream} (h : NeverDecreases stream.reports) :
    latestOutput stream.deltas ≤ highest (·.outputTokens) stream.reports ∧
      (latestOutput stream.deltas = highest (·.outputTokens) stream.reports ↔ OutputKept stream) := by
  unfold OutputKept
  rw [CompleteStream.reports] at h ⊢
  rcases List.eq_nil_or_concat stream.deltas with hnil | ⟨deltas, u, hsnoc⟩
  · rw [hnil]
    refine ⟨Nat.zero_le _, fun hzero => .inl hzero.symm, ?_⟩
    rintro (hzero | ⟨u, hlast, -⟩)
    · exact hzero.symm
    · exact absurd hlast (by simp)
  · rw [hsnoc, List.concat_eq_append] at h ⊢
    rw [← List.append_assoc] at h ⊢
    have hlast : u.outputTokens.getD (highest (·.outputTokens) (stream.start.toList ++ deltas)) =
        highest (·.outputTokens) (stream.start.toList ++ deltas ++ [u]) := h.getD_highest (by simp [counters])
    rw [latestOutput_snoc]
    cases ho : u.outputTokens with
    | none =>
      refine ⟨Nat.zero_le _, fun hzero => .inl hzero.symm, ?_⟩
      rintro (hzero | ⟨u', hlast', hsome⟩)
      · exact hzero.symm
      · rw [List.getLast?_append_cons, List.getLast?_singleton, Option.some.injEq] at hlast'
        rw [← hlast', ho] at hsome
        exact absurd hsome (by decide)
    | some v =>
      rw [ho, Option.getD_some] at hlast
      rw [Option.getD_some, hlast]
      exact ⟨Nat.le_refl _, fun _ => .inr ⟨u, by simp, by simp [ho]⟩, fun _ => rfl⟩

def CacheCounted (stream : CompleteStream) : Prop :=
  0 < highest (·.cacheReadInputTokens) stream.reports + highest (·.cacheCreationInputTokens) stream.reports

def Report.counts (u : Report) : Bool :=
  u.inputTokens.isSome || u.outputTokens.isSome || u.cacheReadInputTokens.isSome || u.cacheCreationInputTokens.isSome

def HasCount (stream : CompleteStream) : Prop := stream.deltas ≠ [] ∨ stream.start.any Report.counts = true

instance (stream : CompleteStream) : Decidable (HasCount stream) := inferInstanceAs (Decidable (_ ∨ _))

/-- Where the same is billed: for what is counted, if the last report holds the output and no report
loses thinking; for what is not, if neither side or both sides estimate, and then the same. -/
def SameBilling (claudeBody openAIBody : Body) (stream : CompleteStream) : Prop :=
  (Counted stream ∧ OutputKept stream ∧ ThinkingKept stream) ∨
  (¬ Counted stream ∧ CacheCounted stream ∧ toolLength stream.body = 0) ∨
  (¬ Counted stream ∧ ¬ CacheCounted stream ∧ contentLength stream.body = 0 ∧
    (stream.reports = [] ∨ HasCount stream)) ∨
  (¬ Counted stream ∧ ¬ CacheCounted stream ∧ 0 < toolLength stream.body ∧
    estimateInputTokens claudeBody = estimateInputTokens openAIBody ∧
    estimateOutputTokens (toolLength stream.body) = estimateOutputTokens (contentLength stream.body))

theorem toolLength_le (body : List StreamEvent) : toolLength body ≤ contentLength body := by
  unfold toolLength contentLength
  induction body with
  | nil => exact Nat.le_refl 0
  | cons e body ih =>
    simp only [List.map_cons, List.sum_cons]
    omega

theorem reports_eq (stream : CompleteStream) :
    stream.events.filterMap (·.report) = stream.reports := by
  have hbody : stream.body.filterMap (·.report) = stream.deltas := by
    apply List.filterMap_congr
    intro e he
    have hstart := stream.oneStart e he
    cases e with
    | messageStart usage => exact absurd hstart (by simp [StreamEvent.isStart])
    | content text tool => rfl
    | messageDelta usage stopReason => rfl
    | messageStop => rfl
  rw [CompleteStream.events, CompleteStream.reports, ← hbody]
  cases hs : stream.start <;> simp [StreamEvent.report]

theorem merged_eq_empty_iff (stream : CompleteStream) :
    merged stream.events = {} ↔ ¬ HasCount stream := by
  have hdelta (e : StreamEvent) (he : e.isStart = false) : e.reported = {} ↔ e.deltaReport = none := by
    cases e with
    | messageStart usage => exact absurd he (by simp [StreamEvent.isStart])
    | content text tool => simp [StreamEvent.reported, StreamEvent.deltaReport]
    | messageDelta usage stopReason =>
      cases usage <;> simp [StreamEvent.reported, StreamEvent.deltaReport, Report.clamped]
    | messageStop => simp [StreamEvent.reported, StreamEvent.deltaReport]
  have hbody : (∀ e ∈ stream.body, e.reported = {}) ↔ stream.deltas = [] := by
    rw [CompleteStream.deltas, List.filterMap_eq_nil_iff]
    constructor
    · exact fun h e he => (hdelta e (stream.oneStart e he)).mp (h e he)
    · exact fun h e he => (hdelta e (stream.oneStart e he)).mpr (h e he)
  rw [merged_eq_empty, CompleteStream.events, List.forall_mem_cons, hbody, HasCount]
  cases hstart : stream.start with
  | none => simp [StreamEvent.reported]
  | some u =>
    simp only [StreamEvent.reported, Usage.mk.injEq, and_true, Option.any_some, Report.counts, Bool.or_eq_true, not_or,
      not_not, Option.not_isSome_iff_eq_none]
    tauto

structure MergedFields (usage : Usage) (stream : CompleteStream) : Prop where
  input : usage.promptTokens.getD 0 = highest (·.inputTokens) stream.reports
  output : usage.completionTokens.getD 0 = highest (·.outputTokens) stream.reports
  cacheRead : usage.cacheReadInputTokens.getD 0 = highest (·.cacheReadInputTokens) stream.reports
  cacheCreation : usage.cacheCreationInputTokens.getD 0 = highest (·.cacheCreationInputTokens) stream.reports
  thinking : usage.reasoningTokens.getD 0 = highest Report.clamped stream.deltas
  noTotal : usage.totalTokens = none
  noInput : usage.inputTokens = none
  noOutput : usage.outputTokens = none
  noCached : usage.cachedTokens = none
  noDetails : usage.completionTokensDetails = none

/-- **The merged usage of a stream**, field by field. -/
theorem merged_fields (stream : CompleteStream) : MergedFields (merged stream.events) stream := by
  have hhighest {field : Usage → Option Nat} {count : Report → Option Nat}
      (hmerge : ∀ a b, field (a.merge b) = mergeNumber (field a) (field b)) (hempty : field {} = none)
      (hstart : ∀ u, field (StreamEvent.messageStart (some u)).reported = count u)
      (hdelta : ∀ u stopReason, field (StreamEvent.messageDelta (some u) stopReason).reported = count u) :
      (field (merged stream.events)).getD 0 = highest count stream.reports := by
    rw [← reports_eq]
    apply getD_merged hmerge hempty
    exact StreamEvent.report_cases hstart hdelta fun e hreport _ he => by rw [hreport, he, hempty, Option.bind_none]
  have hnone {field : Usage → Option Nat} (hmerge : ∀ a b, field b = none → field (a.merge b) = field a)
      (hempty : field {} = none) (hstart : ∀ u, field (StreamEvent.messageStart (some u)).reported = none)
      (hdelta : ∀ u stopReason, field (StreamEvent.messageDelta (some u) stopReason).reported = none) :
      field (merged stream.events) = none := by
    apply merged_none hmerge hempty
    exact StreamEvent.report_cases hstart hdelta fun e _ _ he => by rw [he, hempty]
  have hkeeps (prev : Option Nat) {next : Option Nat} (h : next = none) : mergeNumber prev next = prev := by
    rw [h]
    exact mergeNumber_none prev
  have hdeltas : stream.events.filterMap (·.deltaReport) = stream.deltas := rfl
  exact {
    input := @hhighest (·.promptTokens) (·.inputTokens) (fun _ _ => rfl) rfl (fun _ => rfl) (fun _ _ => rfl)
    output := @hhighest (·.completionTokens) (·.outputTokens) (fun _ _ => rfl) rfl (fun _ => rfl) (fun _ _ => rfl)
    cacheRead := @hhighest (·.cacheReadInputTokens) (·.cacheReadInputTokens) (fun _ _ => rfl) rfl (fun _ => rfl)
      (fun _ _ => rfl)
    cacheCreation := @hhighest (·.cacheCreationInputTokens) (·.cacheCreationInputTokens) (fun _ _ => rfl) rfl
      (fun _ => rfl) (fun _ _ => rfl)
    thinking := by
      rw [← hdeltas]
      apply getD_merged (fun _ _ => rfl) rfl
      exact StreamEvent.report_cases (fun _ => rfl) (fun _ _ => rfl) fun e _ hreport he => by
        rw [hreport, he, Option.bind_none]
    noTotal := @hnone (·.totalTokens) (fun _ _ h => hkeeps _ h) rfl (fun _ => rfl) (fun _ _ => rfl)
    noInput := @hnone (·.inputTokens) (fun _ _ h => hkeeps _ h) rfl (fun _ => rfl) (fun _ _ => rfl)
    noOutput := @hnone (·.outputTokens) (fun _ _ h => hkeeps _ h) rfl (fun _ => rfl) (fun _ _ => rfl)
    noCached := @hnone (·.cachedTokens) (fun _ _ h => hkeeps _ h) rfl (fun _ => rfl) (fun _ _ => rfl)
    noDetails := @hnone (·.completionTokensDetails) (fun a b h => by simp [Usage.merge, h]) rfl (fun _ => rfl)
      (fun _ _ => rfl) }

/-- What the client that speaks Claude is billed, where nothing is estimated. -/
def mergedBill (stream : CompleteStream) : Billed where
  promptTokens := highest (·.inputTokens) stream.reports + highest (·.cacheReadInputTokens) stream.reports +
    highest (·.cacheCreationInputTokens) stream.reports
  cachedTokens := highest (·.cacheReadInputTokens) stream.reports
  cacheCreationInputTokens := highest (·.cacheCreationInputTokens) stream.reports
  completionTokens := highest (·.outputTokens) stream.reports
  reasoningTokens := highest Report.clamped stream.deltas

def estimateBill (b : Body) (length : Nat) : Billed where
  promptTokens := estimateInputTokens b
  cachedTokens := 0
  cacheCreationInputTokens := 0
  completionTokens := estimateOutputTokens length
  reasoningTokens := 0

theorem billed_merged (stream : CompleteStream) :
    (canonicalizeUsage (merged stream.events)).billed = mergedBill stream := by
  have h := merged_fields stream
  rw [billed_exclusive h.noInput h.noOutput h.noCached h.noDetails, h.input, h.output, h.cacheRead, h.cacheCreation,
    h.thinking]
  rfl

theorem hasValidUsage_merged (stream : CompleteStream) :
    hasValidUsage (normalizeUsage (merged stream.events)) = true ↔ Counted stream := by
  have h := merged_fields stream
  have hsame : hasValidUsage (normalizeUsage (merged stream.events)) = hasValidUsage (some (merged stream.events)) := by
    unfold normalizeUsage
    split
    · rename_i hempty
      rw [hempty]
      rfl
    · rfl
  rw [hsame]
  simp [hasValidUsage, h.input, h.output, h.noTotal, h.noInput, h.noOutput, Counted]

/-- **What the client that speaks Claude is billed.** -/
theorem passthrough_billed (b : Body) (stream : CompleteStream) :
    billedUsage (passthroughUsage b stream.events) =
      if Counted stream then some (mergedBill stream)
      else if 0 < toolLength stream.body then some (estimateBill b (toolLength stream.body))
      else if HasCount stream then some (mergedBill stream) else none := by
  have hvalid := hasValidUsage_merged stream
  have hempty := merged_eq_empty_iff stream
  have htool : toolLength stream.events = toolLength stream.body := by
    simp [toolLength, CompleteStream.events, StreamEvent.toolCallOutputLength]
  unfold passthroughUsage passthroughFlush
  rw [passthrough_run, htool]
  simp only [Bool.and_eq_true, Bool.not_eq_true', decide_eq_true_eq]
  by_cases hcounted : Counted stream
  · have hkeep : ¬ (hasValidUsage (normalizeUsage (merged stream.events)) = false ∧ 0 < toolLength stream.body) := by
      rw [hvalid.mpr hcounted]
      simp
    have hsome : merged stream.events ≠ {} := by
      rintro hnone
      rw [← hvalid, hnone] at hcounted
      exact absurd hcounted (by decide)
    rw [if_neg hkeep, if_pos hcounted, normalizeUsage, if_neg hsome, billedUsage, Option.map_some, billed_merged]
  · have hinvalid : hasValidUsage (normalizeUsage (merged stream.events)) = false := by
      rw [← Bool.not_eq_true, hvalid]
      exact hcounted
    rw [if_neg hcounted]
    by_cases hpos : 0 < toolLength stream.body
    · rw [if_pos ⟨hinvalid, hpos⟩, if_pos hpos]
      rfl
    · rw [if_neg fun h => hpos h.2, if_neg hpos]
      by_cases hhas : HasCount stream
      · have hsome : merged stream.events ≠ {} := fun hnone => hempty.mp hnone hhas
        rw [if_pos hhas, normalizeUsage, if_neg hsome, billedUsage, Option.map_some, billed_merged]
      · rw [if_neg hhas, normalizeUsage, if_pos (hempty.mpr hhas)]
        rfl

/-- What the client that speaks OpenAI is billed, where nothing is estimated. -/
def latestBill (stream : CompleteStream) : Billed where
  promptTokens := highest (·.inputTokens) stream.reports + highest (·.cacheReadInputTokens) stream.reports +
    highest (·.cacheCreationInputTokens) stream.reports
  cachedTokens := highest (·.cacheReadInputTokens) stream.reports
  cacheCreationInputTokens := highest (·.cacheCreationInputTokens) stream.reports
  completionTokens := latestOutput stream.deltas
  reasoningTokens := latestThinking stream.deltas

/-- **What the client that speaks OpenAI is billed.** -/
theorem translate_billed (b : Body) (stream : CompleteStream)
    (hgrows : NeverDecreases stream.reports) :
    (¬ Uncounted stream.start stream.deltas →
      billedUsage (translateUsage b stream.events) = some (latestBill stream)) ∧
    (Uncounted stream.start stream.deltas → 0 < contentLength stream.body →
      billedUsage (translateUsage b stream.events) = some (estimateBill b (contentLength stream.body))) ∧
    (contentLength stream.body = 0 → stream.reports = [] → billedUsage (translateUsage b stream.events) = none) ∧
    (contentLength stream.body = 0 → stream.reports ≠ [] →
      billedUsage (translateUsage b stream.events) = some (latestBill stream)) := by
  obtain ⟨hcounted, hestimate, hnone, hlatest⟩ := translate_usage b stream hgrows
  have hbill : billedUsage (some (latest stream.start stream.deltas)) = some (latestBill stream) :=
    congrArg some (billed_folded _ _ _ _ _)
  refine ⟨fun h => ?_, fun h hpos => ?_, fun hzero hnil => ?_, fun hzero hne => ?_⟩
  · rw [hcounted h, hbill]
  · rw [hestimate h hpos]
    rfl
  · rw [hnone hzero hnil]
    rfl
  · rw [hlatest hzero hne, hbill]

theorem estimateOutputTokens_pos {length : Nat}
    (h : 0 < length) : 0 < estimateOutputTokens length := by
  unfold estimateOutputTokens
  rw [if_neg (by omega)]
  omega

theorem estimateInputTokens_pos (b : Body) : 0 < estimateInputTokens b := by
  have hbraces := b.braces
  unfold estimateInputTokens
  omega

theorem mergedBill_eq_latestBill {stream : CompleteStream}
    (hgrows : NeverDecreases stream.reports) :
    mergedBill stream = latestBill stream ↔ OutputKept stream ∧ ThinkingKept stream := by
  rw [← (outputKept_iff hgrows).2, ← thinkingKept_iff hgrows]
  simp [mergedBill, latestBill, eq_comm]

theorem agrees_counted (claudeBody openAIBody : Body) {stream : CompleteStream}
    (hgrows : NeverDecreases stream.reports) (hcounted : Counted stream) :
    billedUsage (passthroughUsage claudeBody stream.events) = billedUsage (translateUsage openAIBody stream.events) ↔
      OutputKept stream ∧ ThinkingKept stream := by
  obtain ⟨hlatest, hestimate, hnone, hzero⟩ := translate_billed openAIBody stream hgrows
  rw [passthrough_billed, if_pos hcounted]
  by_cases huncounted : Uncounted stream.start stream.deltas
  · -- The translator has lost the only thing that was counted, the output.
    obtain ⟨hinput, hread, hwrite, houtput⟩ := huncounted
    have hpos : 0 < highest (·.outputTokens) stream.reports := by
      rcases hcounted with h | h
      · rw [CompleteStream.reports, hinput] at h
        exact absurd h (by decide)
      · exact h
    have hlost : ¬ (OutputKept stream ∧ ThinkingKept stream) := by
      rintro ⟨hkept, -⟩
      rw [← (outputKept_iff hgrows).2, houtput] at hkept
      omega
    refine iff_of_false ?_ hlost
    by_cases hlength : 0 < contentLength stream.body
    · rw [hestimate ⟨hinput, hread, hwrite, houtput⟩ hlength, Option.some.injEq]
      intro hsame
      have hprompt := congrArg Billed.promptTokens hsame
      have hestimated := estimateInputTokens_pos openAIBody
      simp only [mergedBill, estimateBill, CompleteStream.reports, hinput, hread, hwrite] at hprompt
      omega
    · have hreports : stream.reports ≠ [] := by
        intro hnil
        rw [hnil] at hpos
        exact absurd hpos (by decide)
      rw [hzero (by omega) hreports, Option.some.injEq]
      intro hsame
      have hcompletion := congrArg Billed.completionTokens hsame
      simp only [mergedBill, latestBill, houtput] at hcompletion
      omega
  · rw [hlatest huncounted, Option.some.injEq, mergedBill_eq_latestBill hgrows]

theorem agrees_uncounted (claudeBody openAIBody : Body) {stream : CompleteStream}
    (hgrows : NeverDecreases stream.reports) (hcounted : ¬ Counted stream) :
    billedUsage (passthroughUsage claudeBody stream.events) = billedUsage (translateUsage openAIBody stream.events) ↔
      (CacheCounted stream ∧ toolLength stream.body = 0) ∨
      (¬ CacheCounted stream ∧ contentLength stream.body = 0 ∧ (stream.reports = [] ∨ HasCount stream)) ∨
      (¬ CacheCounted stream ∧ 0 < toolLength stream.body ∧
        estimateInputTokens claudeBody = estimateInputTokens openAIBody ∧
        estimateOutputTokens (toolLength stream.body) = estimateOutputTokens (contentLength stream.body)) := by
  obtain ⟨hlatest, hestimate, hnone, hzero⟩ := translate_billed openAIBody stream hgrows
  have htool := toolLength_le stream.body
  unfold Counted at hcounted
  rw [not_or] at hcounted
  obtain ⟨hinput, houtput⟩ := hcounted
  have hinput0 : highest (·.inputTokens) stream.reports = 0 := by omega
  have houtput0 : latestOutput stream.deltas = 0 := by
    have hle := (outputKept_iff hgrows).1
    omega
  have hkept : OutputKept stream ∧ ThinkingKept stream := by
    have hsame : latestOutput stream.deltas = highest (·.outputTokens) stream.reports := by omega
    refine ⟨(outputKept_iff hgrows).2.mp hsame, (thinkingKept_iff hgrows).mp ?_⟩
    have hle := (highest_clamped_le stream.deltas).2
    have hup := highest_append_le (·.outputTokens) stream.start.toList stream.deltas
    have hthinking := (latestThinking_eq hgrows.deltas).1
    rw [CompleteStream.reports] at houtput
    omega
  have hbill := (mergedBill_eq_latestBill hgrows).mpr hkept
  rw [passthrough_billed, if_neg (by rw [Counted, not_or]; exact ⟨hinput, houtput⟩)]
  by_cases hcache : CacheCounted stream
  · -- The prompt of the one side counts the cache, that of the other does not.
    have hvalid : ¬ Uncounted stream.start stream.deltas := by
      rintro ⟨-, hread, hwrite, -⟩
      unfold CacheCounted at hcache
      rw [CompleteStream.reports, hread, hwrite] at hcache
      exact absurd hcache (by decide)
    rw [hlatest hvalid, ← hbill]
    by_cases hpos : 0 < toolLength stream.body
    · rw [if_pos hpos]
      refine iff_of_false ?_ ?_
      · rw [Option.some.injEq]
        intro hsame
        have hcompletion := congrArg Billed.completionTokens hsame
        have hestimated := estimateOutputTokens_pos hpos
        simp only [mergedBill, estimateBill] at hcompletion
        omega
      · simp only [hcache, not_true_eq_false, false_and, or_false, true_and]
        omega
    · have hhas : HasCount stream := by
        by_contra hno
        have hfields := merged_fields stream
        have hread := hfields.cacheRead
        have hwrite := hfields.cacheCreation
        rw [(merged_eq_empty_iff stream).mpr hno] at hread hwrite
        unfold CacheCounted at hcache
        rw [← hread, ← hwrite] at hcache
        exact absurd hcache (by decide)
      rw [if_neg hpos, if_pos hhas]
      refine iff_of_true rfl (.inl ⟨hcache, by omega⟩)
  · have hnothing : Uncounted stream.start stream.deltas := by
      unfold CacheCounted at hcache
      rw [CompleteStream.reports] at hcache hinput0
      exact ⟨hinput0, by omega, by omega, houtput0⟩
    have hmerged : mergedBill stream ≠ estimateBill openAIBody (contentLength stream.body) := by
      intro hsame
      have hprompt := congrArg Billed.promptTokens hsame
      have hestimated := estimateInputTokens_pos openAIBody
      unfold CacheCounted at hcache
      simp only [mergedBill, estimateBill] at hprompt
      omega
    simp only [hcache, false_and, not_false_eq_true, true_and, false_or]
    by_cases hpos : 0 < toolLength stream.body
    · have hlength : contentLength stream.body ≠ 0 := by omega
      rw [if_pos hpos, hestimate hnothing (by omega), Option.some.injEq]
      simp [estimateBill, hpos, hlength]
    · rw [if_neg hpos]
      simp only [hpos, false_and, or_false]
      by_cases hlength : 0 < contentLength stream.body
      · rw [hestimate hnothing hlength]
        refine iff_of_false ?_ fun h => absurd h.1 (by omega)
        split
        · rw [Option.some.injEq]
          exact hmerged
        · simp
      · have hlength0 : contentLength stream.body = 0 := by omega
        by_cases hreports : stream.reports = []
        · have hno : ¬ HasCount stream := by
            rw [CompleteStream.reports, List.append_eq_nil_iff, Option.toList_eq_nil_iff] at hreports
            simp [HasCount, hreports]
          rw [hnone hlength0 hreports, if_neg hno]
          exact iff_of_true rfl ⟨hlength0, .inl hreports⟩
        · rw [hzero hlength0 hreports]
          by_cases hhas : HasCount stream
          · rw [if_pos hhas, hbill]
            exact iff_of_true rfl ⟨hlength0, .inr hhas⟩
          · rw [if_neg hhas]
            simp [hreports, hhas]

/-- **The same is billed to both clients** exactly under `SameBilling`. -/
theorem billing_agrees_iff (claudeBody openAIBody : Body) (stream : CompleteStream)
    (hgrows : NeverDecreases stream.reports) :
    billedUsage (passthroughUsage claudeBody stream.events) = billedUsage (translateUsage openAIBody stream.events) ↔
      SameBilling claudeBody openAIBody stream := by
  by_cases hcounted : Counted stream
  · rw [agrees_counted claudeBody openAIBody hgrows hcounted]
    simp [SameBilling, hcounted]
  · rw [agrees_uncounted claudeBody openAIBody hgrows hcounted]
    simp [SameBilling, hcounted]

def cachedStream : CompleteStream where
  start := some {
    inputTokens := some 12
    outputTokens := some 1
    cacheReadInputTokens := some 900
    cacheCreationInputTokens := some 40 }
  body := [.content 30 0, .messageDelta (some { outputTokens := some 25, thinkingTokens := some 7 }) true, .messageStop]
  oneStart := by decide
  stopped := by decide
  settled := by decide

theorem billing_agrees_iff_cached :
    billedUsage (passthroughUsage ⟨2, by decide⟩ cachedStream.events) =
        billedUsage (translateUsage ⟨2, by decide⟩ cachedStream.events) ↔
      SameBilling ⟨2, by decide⟩ ⟨2, by decide⟩ cachedStream :=
  billing_agrees_iff ⟨2, by decide⟩ ⟨2, by decide⟩ cachedStream (by decide)

/-- A stream whose last report leaves the output count to the report before it. -/
def splitStream : CompleteStream where
  start := some { inputTokens := some 12, outputTokens := some 1 }
  body := [.content 30 0, .messageDelta (some { outputTokens := some 25 }) false,
    .messageDelta (some { cacheReadInputTokens := some 900 }) true, .messageStop]
  oneStart := by decide
  stopped := by decide
  settled := by decide

/-- The client that speaks OpenAI is not billed for the output. -/
theorem splitStream_output_lost :
    ¬ ∀ (claudeBody openAIBody : Body) (stream : CompleteStream), NeverDecreases stream.reports →
      billedUsage (passthroughUsage claudeBody stream.events) = billedUsage (translateUsage openAIBody stream.events) := by
  intro h
  have hsame := h ⟨2, by decide⟩ ⟨2, by decide⟩ splitStream (by decide)
  exact absurd hsame (by decide)

end TokenProxy.Billing
