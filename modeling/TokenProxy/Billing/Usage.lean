import Mathlib.Data.List.Basic

/-!
# Usage as streams report it

The record that usage is accumulated in, with the keys that a Claude stream writes on either way to
the client, and the one convention in which requests are stored and billed (`canonicalizeUsage`).
Counts are natural numbers.
-/

namespace TokenProxy.Billing

/-- A usage object; `completionTokensDetails` is its
`completion_tokens_details.reasoning_tokens`. -/
structure Usage where
  promptTokens : Option Nat := none
  completionTokens : Option Nat := none
  totalTokens : Option Nat := none
  inputTokens : Option Nat := none
  outputTokens : Option Nat := none
  cacheReadInputTokens : Option Nat := none
  cacheCreationInputTokens : Option Nat := none
  cachedTokens : Option Nat := none
  reasoningTokens : Option Nat := none
  completionTokensDetails : Option Nat := none
  estimated : Bool := false
  deriving DecidableEq

def clampReasoningTokens (reasoning completion : Option Nat) : Nat := min (reasoning.getD 0) (completion.getD 0)

def normalizeUsage (usage : Usage) : Option Usage := if usage = {} then none else some usage

def mergeNumber (prev next : Option Nat) : Option Nat :=
  match next with
  | some v => some (max (prev.getD 0) v)
  | none => prev

/-- The greater of two counts, field by field; of nested details the later ones. -/
def Usage.merge (prev next : Usage) : Usage where
  promptTokens := mergeNumber prev.promptTokens next.promptTokens
  completionTokens := mergeNumber prev.completionTokens next.completionTokens
  totalTokens := mergeNumber prev.totalTokens next.totalTokens
  inputTokens := mergeNumber prev.inputTokens next.inputTokens
  outputTokens := mergeNumber prev.outputTokens next.outputTokens
  cacheReadInputTokens := mergeNumber prev.cacheReadInputTokens next.cacheReadInputTokens
  cacheCreationInputTokens := mergeNumber prev.cacheCreationInputTokens next.cacheCreationInputTokens
  cachedTokens := mergeNumber prev.cachedTokens next.cachedTokens
  reasoningTokens := mergeNumber prev.reasoningTokens next.reasoningTokens
  completionTokensDetails := next.completionTokensDetails <|> prev.completionTokensDetails
  estimated := prev.estimated

def mergeUsage (prev next : Option Usage) : Option Usage :=
  match prev, next with
  | none, next => next
  | some prev, none => some prev
  | some prev, some next => some (prev.merge next)

def hasValidUsage : Option Usage → Bool
  | none => false
  | some usage =>
    [usage.promptTokens, usage.completionTokens, usage.totalTokens, usage.inputTokens, usage.outputTokens].any
      fun count => 0 < count.getD 0

/-! ### Estimates -/

/-- The request body, as far as an estimate reads it: the length of its JSON,
which has at least its braces. -/
structure Body where
  chars : Nat
  braces : 2 ≤ chars

def estimateInputTokens (body : Body) : Nat := (body.chars + 3) / 4

def estimateOutputTokens (contentLength : Nat) : Nat :=
  if contentLength = 0 then 0 else max 1 (contentLength / 4)

/-- `estimateUsage(body, contentLength, FORMATS.OPENAI)` -/
def estimateUsage (body : Body) (contentLength : Nat) : Usage where
  promptTokens := some (estimateInputTokens body)
  completionTokens := some (estimateOutputTokens contentLength)
  totalTokens := some (estimateInputTokens body + estimateOutputTokens contentLength)
  estimated := true

/-! ### The stored form -/

/-- What the cache is counted as: `inclusive` says that the prompt counts it already. -/
structure CacheTokens where
  read : Option Nat
  write : Option Nat
  inclusive : Bool

def resolveCacheTokens (usage : Usage) : CacheTokens where
  read := usage.cachedTokens <|> usage.cacheReadInputTokens
  write := usage.cacheCreationInputTokens
  inclusive := usage.cachedTokens.isSome

/-- The usage that is stored; a `reasoningTokens` of zero is left out of it. -/
structure Canonical where
  promptTokens : Nat
  completionTokens : Nat
  totalTokens : Nat
  cachedTokens : Nat
  cacheCreationInputTokens : Nat
  reasoningTokens : Nat
  estimated : Bool
  deriving DecidableEq

def canonicalizeUsage (usage : Usage) : Canonical :=
  let completion := (usage.completionTokens <|> usage.outputTokens).getD 0
  let cache := resolveCacheTokens usage
  let cacheCreation := cache.write.getD 0
  let cached := cache.read.getD 0
  let prompt := (usage.promptTokens <|> usage.inputTokens).getD 0
  let prompt :=
    if cache.inclusive = false ∧ (cache.read.isSome ∨ cache.write.isSome) then prompt + cached + cacheCreation else prompt
  { promptTokens := prompt
    completionTokens := completion
    totalTokens := prompt + completion
    cachedTokens := cached
    cacheCreationInputTokens := cacheCreation
    reasoningTokens := (usage.reasoningTokens <|> usage.completionTokensDetails).getD 0
    estimated := usage.estimated }

structure Billed where
  promptTokens : Nat
  cachedTokens : Nat
  cacheCreationInputTokens : Nat
  completionTokens : Nat
  reasoningTokens : Nat
  deriving DecidableEq

def Canonical.billed (c : Canonical) : Billed where
  promptTokens := c.promptTokens
  cachedTokens := c.cachedTokens
  cacheCreationInputTokens := c.cacheCreationInputTokens
  completionTokens := c.completionTokens
  reasoningTokens := c.reasoningTokens

end TokenProxy.Billing
