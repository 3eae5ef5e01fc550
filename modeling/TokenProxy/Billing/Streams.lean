import TokenProxy.Billing.Usage

/-!
# Two ways of a Claude stream to its client

A client that speaks Claude gets the stream as it is, and its usage is merged from what the events
report; for a client that speaks OpenAI the translator rewrites the usage at every report. The
events are records of the stream that carry a count or content; the cost fields of a report are left
out.
-/

namespace TokenProxy.Billing

structure Report where
  inputTokens : Option Nat := none
  outputTokens : Option Nat := none
  cacheReadInputTokens : Option Nat := none
  cacheCreationInputTokens : Option Nat := none
  thinkingTokens : Option Nat := none
  deriving DecidableEq

/-- A record of the stream; of a `message_delta` also whether it carries a stop reason, of content
the characters of its text and thinking, and those of a tool call. -/
inductive StreamEvent where
  | messageStart (usage : Option Report)
  | content (text tool : Nat)
  | messageDelta (usage : Option Report) (stopReason : Bool)
  | messageStop
  deriving DecidableEq

namespace StreamEvent

def textLength : StreamEvent → Nat
  | content text _ => text
  | _ => 0

def toolCallOutputLength : StreamEvent → Nat
  | content _ tool => tool
  | _ => 0

end StreamEvent

def extractUsage : StreamEvent → Option Usage
  | .messageStart (some u) =>
    normalizeUsage {
      promptTokens := u.inputTokens
      completionTokens := u.outputTokens
      cacheReadInputTokens := u.cacheReadInputTokens
      cacheCreationInputTokens := u.cacheCreationInputTokens }
  | .messageDelta (some u) _ =>
    normalizeUsage {
      promptTokens := u.inputTokens
      completionTokens := u.outputTokens
      cacheReadInputTokens := u.cacheReadInputTokens
      cacheCreationInputTokens := u.cacheCreationInputTokens
      reasoningTokens := some (clampReasoningTokens u.thinkingTokens u.outputTokens) }
  | _ => none

/-! ### A client that speaks Claude -/

structure Passthrough where
  usage : Option Usage := none
  totalContentLength : Nat := 0
  deriving DecidableEq

/-- The content of a chat-completion delta is counted here, and every tool call. -/
def passthroughStep (s : Passthrough) (e : StreamEvent) : Passthrough :=
  let totalContentLength := s.totalContentLength + e.toolCallOutputLength
  match extractUsage e with
  | some extracted => { usage := mergeUsage s.usage (some extracted), totalContentLength }
  | none => { s with totalContentLength }

def passthroughFlush (body : Body) (s : Passthrough) : Option Usage :=
  if !hasValidUsage s.usage && 0 < s.totalContentLength then some (estimateUsage body s.totalContentLength) else s.usage

/-- What the stream hands to `onStreamComplete`. -/
def passthroughUsage (body : Body) (events : List StreamEvent) : Option Usage :=
  passthroughFlush body (events.foldl passthroughStep {})

/-! ### A client that speaks OpenAI -/

structure Translate where
  usage : Option Usage := none
  totalContentLength : Nat := 0
  finishReason : Bool := false
  finishReasonSent : Bool := false
  deriving DecidableEq

/-- The usage that the translator keeps: the prompt counts the cache, and `cachedTokens` says so. -/
def foldedUsage (input output cacheRead cacheCreation thinking : Nat) : Usage where
  promptTokens := some (input + cacheRead + cacheCreation)
  completionTokens := some output
  totalTokens := some (input + cacheRead + cacheCreation + output)
  inputTokens := some input
  outputTokens := some output
  cacheReadInputTokens := if 0 < cacheRead then some cacheRead else none
  cacheCreationInputTokens := if 0 < cacheCreation then some cacheCreation else none
  cachedTokens := if 0 < cacheRead ∨ 0 < cacheCreation then some cacheRead else none
  completionTokensDetails := if 0 < thinking then some thinking else none

/-- A report of a `message_delta` over what was known; the output is not taken over. -/
def deltaUsage (prev : Usage) (u : Report) : Usage :=
  let output := u.outputTokens.getD 0
  foldedUsage (u.inputTokens.getD (prev.inputTokens.getD 0)) output
    (u.cacheReadInputTokens.getD (prev.cacheReadInputTokens.getD 0))
    (u.cacheCreationInputTokens.getD (prev.cacheCreationInputTokens.getD 0))
    (clampReasoningTokens (some (u.thinkingTokens.getD (prev.completionTokensDetails.getD 0))) (some output))

/-- `toOpenAIUsage` of what the translator keeps, for the chunk that finishes the stream. -/
def finishUsage (usage : Usage) : Usage :=
  let input := usage.inputTokens.getD 0 + usage.cacheReadInputTokens.getD 0 + usage.cacheCreationInputTokens.getD 0
  let output := usage.outputTokens.getD 0
  { promptTokens := some input, completionTokens := some output, totalTokens := some (input + output) }

/-- The translator's part: the state it leaves, and the usage of the
finish chunk if it sends one. -/
def claudeToOpenAIResponse (s : Translate) : StreamEvent → Translate × Option (Option Usage)
  | .messageStart (some u) =>
    ({ s with
        usage := some (foldedUsage (u.inputTokens.getD 0) 0 (u.cacheReadInputTokens.getD 0)
          (u.cacheCreationInputTokens.getD 0) 0) }, none)
  | .messageStart none => (s, none)
  | .content _ _ => (s, none)
  | .messageDelta u stopReason =>
    let usage := match u with
      | some u => some (deltaUsage (s.usage.getD {}) u)
      | none => s.usage
    if stopReason then
      ({ s with usage, finishReason := true, finishReasonSent := true }, some (usage.map finishUsage))
    else ({ s with usage }, none)
  | .messageStop =>
    if s.finishReasonSent then (s, none) else ({ s with finishReasonSent := true }, some (s.usage.map finishUsage))

def translateStep (body : Body) (s : Translate) (e : StreamEvent) : Translate :=
  let s := { s with totalContentLength := s.totalContentLength + e.textLength + e.toolCallOutputLength }
  let s := match extractUsage e with
    | some extracted => { s with usage := mergeUsage s.usage (some extracted) }
    | none => s
  let (s, finish) := claudeToOpenAIResponse s e
  match finish with
  | some itemUsage =>
    -- A finish chunk without usage gets an estimate, which is kept as well.
    if s.finishReason && !hasValidUsage itemUsage && 0 < s.totalContentLength then
      { s with usage := some (estimateUsage body s.totalContentLength) }
    else s
  | none => s

def translateFlush (body : Body) (s : Translate) : Option Usage :=
  if !hasValidUsage s.usage && 0 < s.totalContentLength then some (estimateUsage body s.totalContentLength) else s.usage

/-- What the stream hands to `onStreamComplete`. -/
def translateUsage (body : Body) (events : List StreamEvent) : Option Usage :=
  translateFlush body (events.foldl (translateStep body) {})

def billedUsage (usage : Option Usage) : Option Billed := usage.map fun u => (canonicalizeUsage u).billed

end TokenProxy.Billing
