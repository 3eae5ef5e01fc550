import TokenProxy.Billing.Usage
import Mathlib.Algebra.Order.Field.Rat
import Mathlib.Data.NNRat.Defs
import Mathlib.Tactic.Ring

/-!
# The two conventions of usage

A provider counts the cache inside its prompt, or beside it. Which of the two it is, is read off the
spellings that a usage object has, and one object may be given in any of four: as Claude reports it,
for chat clients, for Responses clients, and for Claude clients again.

* `canonicalizeUsage_idem`: the stored form is stored as it is.
* `conversions_agree`: what the four routes store of one usage.
-/

namespace TokenProxy.UsageConventions

/-! ### Usage objects -/

/-- What a field holds that is neither missing nor null. Of what is not a number, only what `Number`
makes of it is read (`none`: not a finite one), and of a text whether it is blank. -/
inductive Value where
  | number (q : ℚ)
  | blank
  | other (converted : Option ℚ)
  deriving DecidableEq

/-- `Number(value)`, or 0. -/
def Value.toNumber : Value → ℚ
  | .number q => q
  | .blank => 0
  | .other converted => converted.getD 0

/-- `num(value)` -/
def num (value : Option Value) : ℚ := (value.map Value.toNumber).getD 0

/-- `n(value)` -/
def ifNumber : Option Value → ℚ
  | some (.number q) => q
  | _ => 0

structure PromptDetails where
  cachedTokens : Option Value := none
  cacheCreationTokens : Option Value := none
  cacheWriteTokens : Option Value := none
  deriving DecidableEq

structure OutputDetails where
  reasoningTokens : Option Value := none
  thinkingTokens : Option Value := none
  deriving DecidableEq

structure Costs where
  costUsd : Option Value := none
  costInUsd : Option Value := none
  costInUsdTicks : Option Value := none
  deriving DecidableEq

/-- A usage object by the fields that are read; a missing breakdown is an empty one. -/
structure Usage where
  promptTokens : Option Value := none
  completionTokens : Option Value := none
  totalTokens : Option Value := none
  inputTokens : Option Value := none
  outputTokens : Option Value := none
  cachedTokens : Option Value := none
  cacheReadInputTokens : Option Value := none
  cacheReadTokens : Option Value := none
  cacheCreationInputTokens : Option Value := none
  cacheWriteTokens : Option Value := none
  cacheWriteInputTokens : Option Value := none
  cacheCreationTokens : Option Value := none
  reasoningTokens : Option Value := none
  promptTokensDetails : PromptDetails := {}
  inputTokensDetails : PromptDetails := {}
  completionTokensDetails : OutputDetails := {}
  outputTokensDetails : OutputDetails := {}
  estimated : Bool := false
  costs : Costs := {}
  deriving DecidableEq

/-! ### The stored form -/

def firstPresent (values : List (Option Value)) : Option Value := values.findSome? id

structure CacheTokens where
  read : Option Value
  write : Option Value
  inclusive : Bool

def resolveCacheTokens (usage : Usage) : CacheTokens :=
  let inclusiveRead := firstPresent [usage.cachedTokens, usage.inputTokensDetails.cachedTokens, usage.promptTokensDetails.cachedTokens]
  let exclusiveRead := firstPresent [usage.cacheReadInputTokens, usage.cacheReadTokens]
  let flatWrite :=
    firstPresent [usage.cacheCreationInputTokens, usage.cacheWriteTokens, usage.cacheWriteInputTokens, usage.cacheCreationTokens]
  let nestedWrite :=
    firstPresent [usage.promptTokensDetails.cacheCreationTokens, usage.inputTokensDetails.cacheCreationTokens,
      usage.inputTokensDetails.cacheWriteTokens, usage.promptTokensDetails.cacheWriteTokens]
  { read := inclusiveRead <|> exclusiveRead
    write := flatWrite <|> nestedWrite
    inclusive := inclusiveRead.isSome || exclusiveRead = none && nestedWrite.isSome }

/-- A cost is kept as a number, if it is one that is not negative. -/
def exactCost (value : Option Value) : Option Value :=
  match value with
  | some (.number q) => if q < 0 then none else some (.number q)
  | some (.other (some q)) => if q < 0 then none else some (.number q)
  | _ => none

def copyNonnegativeExactCosts (costs : Costs) : Costs := ⟨exactCost costs.costUsd, exactCost costs.costInUsd, exactCost costs.costInUsdTicks⟩

def positive (q : ℚ) : Option Value := if 0 < q then some (.number q) else none

def storedUsage (prompt completion cached cacheCreation reasoning : ℚ) (estimated : Bool)
    (costs : Costs) : Usage where
  promptTokens := some (.number prompt)
  completionTokens := some (.number completion)
  totalTokens := some (.number (prompt + completion))
  cachedTokens := some (.number cached)
  cacheCreationInputTokens := some (.number cacheCreation)
  reasoningTokens := positive reasoning
  estimated := estimated
  costs := copyNonnegativeExactCosts costs

def canonicalizeUsage (usage : Usage) : Usage :=
  let completion := num (usage.completionTokens <|> usage.outputTokens)
  let reasoning := num (usage.reasoningTokens <|> usage.outputTokensDetails.reasoningTokens <|> usage.completionTokensDetails.reasoningTokens)
  let cache := resolveCacheTokens usage
  let cacheCreation := num cache.write
  let cached := num cache.read
  let prompt := num (usage.promptTokens <|> usage.inputTokens)
  let prompt :=
    if cache.inclusive = false ∧ (cache.read.isSome ∨ cache.write.isSome) then prompt + cached + cacheCreation else prompt
  storedUsage prompt completion cached cacheCreation reasoning usage.estimated usage.costs

theorem exactCost_idem (value : Option Value) : exactCost (exactCost value) = exactCost value := by
  cases value with
  | none => rfl
  | some value =>
    cases value with
    | number q => by_cases h : q < 0 <;> simp [exactCost, h]
    | blank => rfl
    | other converted =>
      cases converted with
      | none => rfl
      | some q => by_cases h : q < 0 <;> simp [exactCost, h]

theorem copyNonnegativeExactCosts_idem (costs : Costs) :
    copyNonnegativeExactCosts (copyNonnegativeExactCosts costs) = copyNonnegativeExactCosts costs := by
  simp only [copyNonnegativeExactCosts, exactCost_idem]

theorem num_positive {q : ℚ} (h : 0 ≤ q) : num (positive q) = q := by
  unfold positive
  split
  · rfl
  · rename_i hq
    exact le_antisymm h (not_lt.1 hq)

theorem positive_num_positive (q : ℚ) : positive (num (positive q)) = positive q := by
  by_cases h : 0 < q
  · rw [num_positive h.le]
  · simp [positive, h, num]

theorem canonicalizeUsage_storedUsage (prompt completion cached cacheCreation reasoning : ℚ)
    (estimated : Bool) (costs : Costs) :
    canonicalizeUsage (storedUsage prompt completion cached cacheCreation reasoning estimated costs)
      = storedUsage prompt completion cached cacheCreation reasoning estimated costs := by
  have hagain : canonicalizeUsage (storedUsage prompt completion cached cacheCreation reasoning estimated costs)
      = storedUsage prompt completion cached cacheCreation (num (positive reasoning)) estimated (copyNonnegativeExactCosts costs) := by
    have hnone : (positive reasoning <|> (none : Option Value) <|> none) = positive reasoning := by
      cases positive reasoning <;> rfl
    rw [← hnone]
    rfl
  rw [hagain]
  simp only [storedUsage, positive_num_positive, copyNonnegativeExactCosts_idem]

/-- **The stored form is stored as it is.** -/
theorem canonicalizeUsage_idem (usage : Usage) :
    canonicalizeUsage (canonicalizeUsage usage) = canonicalizeUsage usage :=
  canonicalizeUsage_storedUsage _ _ _ _ _ _ _

/-! ### Whole counts -/

def whole (count : Option ℕ) : Option Value := count.map fun n => .number n

/-! ### Conversions -/

/-- The arguments of `buildUsage`. -/
structure Counts where
  promptTokens : ℚ
  completionTokens : ℚ
  totalTokens : ℚ
  cachedTokens : ℚ
  cacheCreationTokens : ℚ
  reasoningTokens : ℚ

def buildUsage (counts : Counts) : Usage where
  promptTokens := some (.number counts.promptTokens)
  completionTokens := some (.number counts.completionTokens)
  totalTokens := some (.number counts.totalTokens)
  promptTokensDetails := { cachedTokens := positive counts.cachedTokens, cacheCreationTokens := positive counts.cacheCreationTokens }
  completionTokensDetails := { reasoningTokens := positive counts.reasoningTokens }

def clampReasoningTokens (reasoning completion : Option Value) : ℚ := min (max 0 (ifNumber reasoning)) (max 0 (ifNumber completion))

/-- `USAGE_EXTRACTORS.claude` -/
def extractClaude (raw : Usage) : Counts :=
  let input := ifNumber raw.inputTokens
  let output := ifNumber raw.outputTokens
  let cacheRead := ifNumber raw.cacheReadInputTokens
  let cacheCreate := ifNumber raw.cacheCreationInputTokens
  let prompt := input + cacheRead + cacheCreate
  ⟨prompt, output, prompt + output, cacheRead, cacheCreate, clampReasoningTokens raw.outputTokensDetails.thinkingTokens (some (.number output))⟩

/-- `toOpenAIUsage(raw, "claude")` -/
def toOpenAIUsage (raw : Usage) : Usage := buildUsage (extractClaude raw)

/-- `a || b` on numbers. -/
def orElse (a b : ℚ) : ℚ := if a = 0 then b else a

def toResponsesUsage (raw : Usage) : Option Usage :=
  let inputTokens := orElse (ifNumber raw.inputTokens) (ifNumber raw.promptTokens)
  let outputTokens := orElse (ifNumber raw.outputTokens) (ifNumber raw.completionTokens)
  if inputTokens = 0 ∧ outputTokens = 0 then none
  else
    let cache := resolveCacheTokens raw
    some
      { inputTokens := some (.number inputTokens)
        outputTokens := some (.number outputTokens)
        totalTokens := some (.number (orElse (ifNumber raw.totalTokens) (inputTokens + outputTokens)))
        inputTokensDetails := { cachedTokens := positive (ifNumber cache.read), cacheCreationTokens := positive (ifNumber cache.write) }
        outputTokensDetails :=
          { reasoningTokens :=
              positive (orElse (ifNumber raw.outputTokensDetails.reasoningTokens)
                (orElse (ifNumber raw.completionTokensDetails.reasoningTokens) (ifNumber raw.reasoningTokens))) } }

/-- The `state.usage` of `openaiToClaudeResponse`, from the usage of a chunk. -/
def claudeUsageOf (usage : Usage) : Usage :=
  let promptTokens := ifNumber usage.promptTokens
  let cacheReadTokens := ifNumber (usage.promptTokensDetails.cachedTokens <|> usage.cachedTokens <|> usage.cacheReadInputTokens)
  let cacheCreateTokens := ifNumber (usage.promptTokensDetails.cacheCreationTokens <|> usage.cacheCreationInputTokens)
  { inputTokens := some (.number (promptTokens - cacheReadTokens - cacheCreateTokens))
    outputTokens := some (.number (ifNumber usage.completionTokens))
    cacheReadInputTokens := positive cacheReadTokens
    cacheCreationInputTokens := positive cacheCreateTokens }

/-! ### Four routes -/

/-- A usage as Claude reports it: counters that are not negative, each of which may be missing. -/
structure ClaudeUsage where
  input : Option ℚ≥0 := none
  output : Option ℚ≥0 := none
  cacheRead : Option ℚ≥0 := none
  cacheCreation : Option ℚ≥0 := none
  thinking : Option ℚ≥0 := none
  deriving DecidableEq

def counter (count : Option ℚ≥0) : Option Value := count.map fun q => .number q

def count (count : Option ℚ≥0) : ℚ := (count.getD 0 : ℚ≥0)

namespace ClaudeUsage

def usage (u : ClaudeUsage) : Usage where
  inputTokens := counter u.input
  outputTokens := counter u.output
  cacheReadInputTokens := counter u.cacheRead
  cacheCreationInputTokens := counter u.cacheCreation
  outputTokensDetails := { thinkingTokens := counter u.thinking }

def prompt (u : ClaudeUsage) : ℚ := count u.input + count u.cacheRead + count u.cacheCreation

def reasoning (u : ClaudeUsage) : ℚ := min (count u.thinking) (count u.output)

def stored (u : ClaudeUsage) (reasoning : ℚ) : Usage :=
  storedUsage u.prompt (count u.output) (count u.cacheRead) (count u.cacheCreation) reasoning false {}

end ClaudeUsage

theorem count_nonneg (c : Option ℚ≥0) : 0 ≤ count c := (c.getD 0).2

theorem ifNumber_counter (c : Option ℚ≥0) : ifNumber (counter c) = count c := by
  cases c <;> rfl

theorem ifNumber_positive {q : ℚ} (h : 0 ≤ q) : ifNumber (positive q) = q := by
  unfold positive
  split
  · rfl
  · rename_i hq
    exact le_antisymm h (not_lt.1 hq)

theorem positive_eq {q : ℚ} (h : 0 ≤ q) :
    positive q = none ∧ q = 0 ∨ positive q = some (.number q) := by
  unfold positive
  split
  · exact .inr rfl
  · rename_i hq
    exact .inl ⟨rfl, le_antisymm (not_lt.1 hq) h⟩

theorem canonicalizeUsage_beside (input output read creation : Option ℚ≥0) (details : OutputDetails)
    (h : details.reasoningTokens = none) :
    canonicalizeUsage
        { inputTokens := counter input, outputTokens := counter output, cacheReadInputTokens := counter read,
          cacheCreationInputTokens := counter creation, outputTokensDetails := details }
      = storedUsage (count input + count read + count creation) (count output) (count read) (count creation) 0 false {} := by
  obtain ⟨reasoning, thinking⟩ := details
  obtain rfl : reasoning = none := h
  cases input <;> cases output <;> cases read <;> cases creation <;>
    simp [canonicalizeUsage, resolveCacheTokens, firstPresent, counter, count, num, Value.toNumber]

theorem canonicalizeUsage_chat {prompt output total read creation reasoning : ℚ} (hread : 0 ≤ read)
    (hcreation : 0 ≤ creation) (hreasoning : 0 ≤ reasoning) :
    canonicalizeUsage (buildUsage ⟨prompt, output, total, read, creation, reasoning⟩) = storedUsage prompt output read creation reasoning false {} := by
  rcases positive_eq hread with ⟨hr, rfl⟩ | hr <;> rcases positive_eq hcreation with ⟨hc, rfl⟩ | hc <;>
    rcases positive_eq hreasoning with ⟨hk, rfl⟩ | hk <;>
      simp [canonicalizeUsage, buildUsage, resolveCacheTokens, firstPresent, hr, hc, hk, num, Value.toNumber]

theorem toResponsesUsage_chat {prompt output total read creation reasoning : ℚ} (hread : 0 ≤ read)
    (hcreation : 0 ≤ creation) (hreasoning : 0 ≤ reasoning) :
    (toResponsesUsage (buildUsage ⟨prompt, output, total, read, creation, reasoning⟩)).map canonicalizeUsage
      = if prompt = 0 ∧ output = 0 then none else some (storedUsage prompt output read creation reasoning false {}) := by
  have hcache : resolveCacheTokens (buildUsage ⟨prompt, output, total, read, creation, reasoning⟩)
      = ⟨positive read, positive creation, (positive read).isSome || (positive creation).isSome⟩ := by
    rcases positive_eq hread with ⟨hr, rfl⟩ | hr <;> rcases positive_eq hcreation with ⟨hc, rfl⟩ | hc <;>
      simp [buildUsage, resolveCacheTokens, firstPresent, hr, hc]
  have hreason : orElse (ifNumber none) (orElse (ifNumber (positive reasoning)) (ifNumber none)) = reasoning := by
    rw [ifNumber_positive hreasoning]
    by_cases h : reasoning = 0 <;> simp [orElse, ifNumber, h]
  have hcount : ∀ q : ℚ, orElse (ifNumber none) (ifNumber (some (.number q))) = q := by
    intro q
    simp [orElse, ifNumber]
  unfold toResponsesUsage
  simp only [hcache]
  simp only [buildUsage, hcount, hreason, ifNumber_positive hread, ifNumber_positive hcreation]
  split
  · rfl
  · rw [Option.map_some, Option.some.injEq]
    rcases positive_eq hread with ⟨hr, rfl⟩ | hr <;> rcases positive_eq hcreation with ⟨hc, rfl⟩ | hc <;>
      rcases positive_eq hreasoning with ⟨hk, rfl⟩ | hk <;>
        simp [canonicalizeUsage, resolveCacheTokens, firstPresent, hr, hc, hk, num, Value.toNumber]

theorem claudeUsageOf_chat {prompt output total read creation reasoning : ℚ} (hread : 0 ≤ read)
    (hcreation : 0 ≤ creation) :
    claudeUsageOf (buildUsage ⟨prompt, output, total, read, creation, reasoning⟩)
      = { inputTokens := some (.number (prompt - read - creation)), outputTokens := some (.number output), cacheReadInputTokens := positive read,
          cacheCreationInputTokens := positive creation } := by
  have hor : ∀ value : Option Value, (value <|> (none : Option Value)) = value := by
    intro value
    cases value <;> rfl
  have hnum : ∀ q : ℚ, ifNumber (some (.number q)) = q := fun _ => rfl
  simp only [claudeUsageOf, buildUsage, hor, hnum, ifNumber_positive hread, ifNumber_positive hcreation]

theorem canonicalizeUsage_claude {input output read creation : ℚ} (hread : 0 ≤ read)
    (hcreation : 0 ≤ creation) :
    canonicalizeUsage
        { inputTokens := some (.number input), outputTokens := some (.number output), cacheReadInputTokens := positive read,
          cacheCreationInputTokens := positive creation }
      = storedUsage (input + read + creation) output read creation 0 false {} := by
  rcases positive_eq hread with ⟨hr, rfl⟩ | hr <;> rcases positive_eq hcreation with ⟨hc, rfl⟩ | hc <;>
    simp [canonicalizeUsage, resolveCacheTokens, firstPresent, hr, hc, num, Value.toNumber]

theorem extractClaude_usage (u : ClaudeUsage) :
    extractClaude u.usage = ⟨u.prompt, count u.output, u.prompt + count u.output, count u.cacheRead, count u.cacheCreation, u.reasoning⟩ := by
  have hclamp : clampReasoningTokens (counter u.thinking) (some (.number (count u.output))) = u.reasoning := by
    rw [clampReasoningTokens, ifNumber_counter, max_eq_right (count_nonneg _)]
    exact congrArg (min (count u.thinking)) (max_eq_right (count_nonneg u.output))
  simp only [extractClaude, ClaudeUsage.usage, ifNumber_counter, hclamp, ClaudeUsage.prompt]

/-- **Every route stores a cache token once.** A usage as Claude reports it, its form for chat
clients, the Claude usage that is made of that and its form for Responses clients are stored with
the same prompt, output, cache reads and cache writes; only the second and the last carry the
thinking, and there is none of the last when nothing was used. -/
theorem conversions_agree :
    (∀ usage, canonicalizeUsage (canonicalizeUsage usage) = canonicalizeUsage usage) ∧
      ∀ u : ClaudeUsage,
        canonicalizeUsage u.usage = u.stored 0 ∧
          canonicalizeUsage (toOpenAIUsage u.usage) = u.stored u.reasoning ∧
          canonicalizeUsage (claudeUsageOf (toOpenAIUsage u.usage)) = u.stored 0 ∧
          (toResponsesUsage (toOpenAIUsage u.usage)).map canonicalizeUsage
            = if u.prompt = 0 ∧ count u.output = 0 then none else some (u.stored u.reasoning) := by
  refine ⟨canonicalizeUsage_idem, fun u => ?_⟩
  have hread := count_nonneg u.cacheRead
  have hcreation := count_nonneg u.cacheCreation
  have hreasoning : 0 ≤ u.reasoning := le_min (count_nonneg _) (count_nonneg _)
  have hback : u.prompt - count u.cacheRead - count u.cacheCreation + count u.cacheRead + count u.cacheCreation = u.prompt := by
    ring
  refine ⟨canonicalizeUsage_beside _ _ _ _ _ rfl, ?_, ?_, ?_⟩
  · rw [toOpenAIUsage, extractClaude_usage]
    exact canonicalizeUsage_chat hread hcreation hreasoning
  · rw [toOpenAIUsage, extractClaude_usage, claudeUsageOf_chat hread hcreation, canonicalizeUsage_claude hread hcreation, hback]
    rfl
  · rw [toOpenAIUsage, extractClaude_usage]
    exact toResponsesUsage_chat hread hcreation hreasoning

/-- **Thinking is not counted on every route.** -/
theorem thinking_uncounted :
    (canonicalizeUsage (ClaudeUsage.usage { output := some 10, thinking := some 4 })).reasoningTokens = none ∧
      (canonicalizeUsage (toOpenAIUsage (ClaudeUsage.usage { output := some 10, thinking := some 4 }))).reasoningTokens = some (.number 4) := by
  decide +kernel

end TokenProxy.UsageConventions
