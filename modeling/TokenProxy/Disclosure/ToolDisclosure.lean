import TokenProxy.Lib.Compare
import TokenProxy.Lib.Table
import TokenProxy.Lib.Text

/-!
# Progressive tool disclosure

`toolDisclosure.js`: of a large catalogue of tools a turn of a session is shown a selection. What a
session has been shown is kept in a cache, as the list `disclosed`; a catalogue within the limit is
passed through as it is.

The relevance scores (`bm25Scores` over `buildIndex`) are floating-point numbers, so rationals; how
they come about is a parameter. The ring buffer of recent stats is left out.
-/

namespace TokenProxy.Disclosure

open TokenProxy.Lib

/-- A tool of a catalogue: `getToolName(tool)`, and the tool itself. -/
structure Tool where
  name : String
  definition : String := ""
  deriving DecidableEq

structure Block where
  type : String
  text : Option String := none
  name : String := ""
  deriving DecidableEq

inductive Content
  | text (text : String)
  | blocks (blocks : List Block)
  | other
  deriving DecidableEq

/-- A message; `toolCalls` are the names of its calls, empty where a call has none. -/
structure Message where
  role : String
  content : Content := .other
  toolCalls : List String := []
  deriving DecidableEq

/-- A request, as far as the disclosure reads it; `toolChoice` is the
name that `tool_choice` forces. -/
structure Body where
  messages : List Message := []
  toolChoice : Option String := none
  deriving DecidableEq

structure Config where
  maxTools : Option Int := none
  minScore : Option ℚ := none
  alwaysInclude : List String := []
  deriving DecidableEq

/-- `bm25Scores(buildIndex(tools), queryTokens)`: a score for each of
the tools that were indexed. -/
abbrev Scorer := List Tool → List (List Char) → List ℚ

/-! ## What a request names -/

/-- `STOP_WORDS` -/
def stopWords : List String :=
  ["a", "an", "the", "is", "it", "in", "on", "at", "to", "for", "of", "and",
    "or", "but", "with", "from", "by", "as", "this", "that", "can", "will",
    "be", "are", "was", "were", "has", "have", "had", "do", "does", "did",
    "not", "no", "if", "its", "your", "my", "get", "set", "use", "via"]

/-- `[a-z0-9_]`; any other character separates tokens. -/
def isTokenChar (c : Char) : Bool := c.isLower || c.isDigit || c == '_'

/-- `tokenize(text)` -/
def tokenize (text : String) : List (List Char) :=
  ((text.toList.flatMap lowerCase).splitOnP fun c => !isTokenChar c).filter fun t =>
    1 < t.length && t ∉ stopWords.map String.toList

def Message.userText (msg : Message) : Option String :=
  if msg.role ≠ "user" then none
  else
    match msg.content with
    | .text text => some text
    | .blocks blocks => some (" ".intercalate ((blocks.filter fun b => b.type = "text" || b.text.isSome).map fun b => b.text.getD ""))
    | .other => none

/-- `extractLastUserMessage(body)` -/
def extractLastUserMessage (body : Body) : String := (body.messages.reverse.findSome? Message.userText).getD ""

def addName (names : List String) (n : String) : List String := if n ∈ names then names else names ++ [n]

def Message.calledNames (msg : Message) : List String :=
  msg.toolCalls.filter (· ≠ "") ++
    match msg.content with
    | .blocks blocks => (blocks.filter fun b => b.type = "tool_use" && b.name ≠ "").map Block.name
    | _ => []

/-- `extractPinnedNames(body, alwaysInclude, tools)`, in the order of the set. -/
def extractPinnedNames (body : Body) (alwaysInclude : List String)
    (tools : List Tool) : List String :=
  let nativeNames := (tools.map Tool.name).filter fun n => n ≠ "" && !n.startsWith "mcp__"
  let forced := body.toolChoice.toList.filter (· ≠ "")
  (alwaysInclude ++ ["ToolSearch"] ++ nativeNames ++ body.messages.flatMap Message.calledNames ++ forced).foldl addName []

/-! ## The session cache -/

/-- What is kept of a session; `index` is the catalogue that was indexed. -/
structure Entry where
  toolSetId : String
  index : List Tool
  lastSeen : Int
  disclosed : List String
  selected : Bool
  deriving DecidableEq

abbrev Cache := Dict String Entry

/-- `MAX_CACHE_SIZE` -/
def maxCacheSize : Nat := 500

/-- `CACHE_TTL_MS` -/
def cacheTtlMs : Int := 2 * 60 * 60 * 1000

/-- `getToolSetId(tools)` -/
def getToolSetId (tools : List Tool) : String := "|".intercalate ((tools.map Tool.name).insertionSort (· ≤ ·))

/-- `pruneCache()`: the stale entries, and then the older half if there still are too many. -/
def pruneCache (cache : Cache) (now : Int) : Cache :=
  if cache.rows.length < maxCacheSize then cache
  else
    let fresh := cache.filter fun e => !decide (e.2.lastSeen < now - cacheTtlMs)
    if fresh.rows.length < maxCacheSize then fresh
    else
      let oldest := (fresh.rows.take (fresh.rows.length / 2)).map Prod.fst
      fresh.filter fun e => e.1 ∉ oldest

/-- `getOrBuildEntry(sessionKey, tools)` -/
def getOrBuildEntry (cache : Cache) (sessionKey : String) (tools : List Tool)
    (now : Int) : Cache × Entry :=
  let toolSetId := getToolSetId tools
  let cached := (cache.get? sessionKey).map Prod.snd
  match cached.filter fun e => e.toolSetId = toolSetId with
  | some e =>
    let entry := { e with lastSeen := now }
    (cache.put (sessionKey, entry), entry)
  | none =>
    let entry : Entry :=
      { toolSetId, index := tools, lastSeen := now
        disclosed := (cached.map Entry.disclosed).getD [], selected := (cached.map Entry.selected).getD false }
    ((pruneCache cache now).put (sessionKey, entry), entry)

/-! ## The selection of a turn -/

/-- One turn: a request, and the clock; the empty session key is none. -/
structure Turn where
  tools : List Tool
  body : Body
  sessionKey : String
  config : Config
  now : Int

def Turn.maxTools (turn : Turn) : Int := turn.config.maxTools.getD 20

def Turn.minScore (turn : Turn) : ℚ := turn.config.minScore.getD 0

/-- `Array.prototype.slice(0, end)` -/
def sliceTo {α : Type} (l : List α) (last : Int) : List α :=
  l.take (if last < 0 then (l.length + last).toNat else last.toNat)

/-- The one-time relevance pick, for what is left of the limit. -/
def relevancePick (scorer : Scorer) (entry : Entry) (turn : Turn)
    (names : List String) : List String :=
  let budget := (max 0 (turn.maxTools - names.length)).toNat
  let candidates := turn.tools.zipIdx.filter fun c => c.1.name ∉ names
  let queryTokens := tokenize (extractLastUserMessage turn.body)
  let topK :=
    if queryTokens.isEmpty then candidates.take budget
    else
      let scores := scorer entry.index queryTokens
      let score := fun c : Tool × Nat => scores.getD c.2 0
      ((sortBy (fun a b => compare (score b) (score a)) candidates).filter fun c => turn.minScore < score c).take budget
  topK.map fun c => c.1.name

/-- What is on the list and in the catalogue, and the pinned tools that the list lacks. -/
def knownNames (entry : Entry) (turn : Turn) : List String :=
  let catalogue := turn.tools.map Tool.name
  let listed := entry.disclosed.filter fun n => n ∈ catalogue
  let pinned := extractPinnedNames turn.body turn.config.alwaysInclude turn.tools
  listed ++ pinned.filter fun n => n ∈ catalogue && n ∉ listed

def pickedNames (scorer : Scorer) (entry : Entry) (turn : Turn) : List String :=
  if entry.selected then [] else relevancePick scorer entry turn (knownNames entry turn)

/-- The stats of a turn. Without a session, only the three counts are recorded. -/
structure Stats where
  before : Nat
  after : Nat
  stripped : Int
  added : Option Nat := none
  keptNames : Option (List String) := none
  strippedNames : Option (List String) := none
  deriving DecidableEq

/-- `byName.get(n)`; the last tool of a name counts. -/
def toolNamed (tools : List Tool) (n : String) : Option Tool := tools.reverse.find? fun t => t.name = n

/-- An empty catalogue, or one within the limit, is passed through as it is. -/
def Turn.PassesThrough (turn : Turn) : Prop := turn.tools.length ≤ turn.maxTools ∨ turn.tools = []

instance (turn : Turn) : Decidable turn.PassesThrough := inferInstanceAs (Decidable (_ ∨ _))

/-- `disclosureTools(tools, body, sessionKey, config)` -/
def disclosureTools (scorer : Scorer) (cache : Cache)
    (turn : Turn) : Cache × List Tool × Option Stats :=
  if turn.PassesThrough then (cache, turn.tools, none)
  else if turn.sessionKey = "" then
    let pinned := extractPinnedNames turn.body turn.config.alwaysInclude turn.tools
    let pinnedTools := turn.tools.filter fun t => t.name ∈ pinned
    let rest := turn.tools.filter fun t => t.name ∉ pinned
    let selected := sliceTo (pinnedTools ++ rest) turn.maxTools
    (cache, selected, some
      { before := turn.tools.length, after := selected.length, stripped := turn.tools.length - selected.length })
  else
    let (cache, entry) := getOrBuildEntry cache turn.sessionKey turn.tools turn.now
    let picked := pickedNames scorer entry turn
    let names := knownNames entry turn ++ picked
    let cache := cache.put (turn.sessionKey, { entry with disclosed := names, selected := true })
    let selected := names.filterMap (toolNamed turn.tools)
    (cache, selected, some
      { before := turn.tools.length, after := selected.length, stripped := turn.tools.length - selected.length
        added := some picked.length
        keptNames := some names
        strippedNames := some ((turn.tools.map Tool.name).filter fun n => n ∉ names) })

end TokenProxy.Disclosure
