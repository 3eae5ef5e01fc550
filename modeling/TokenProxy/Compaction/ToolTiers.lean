import TokenProxy.Compaction.ToolPruner
import TokenProxy.Context.Pressure
import Mathlib.Data.List.GetD

/-!
# The tiers of a session

The client sends its whole history with every turn, and every turn the pruner starts from it: what
it cuts must not change, or the cached prefix is lost. `Steady` says when it does not.
-/

namespace TokenProxy.ToolPruner

open Lib Context

/-! ### The memory pipeline, as far as tools go -/

structure MemorySettings extends Context.Settings where
  memoryToolPruningEnabled : Bool := true
  memoryMaxToolTurnsKeepFull : Option ℚ := none
  memoryMaxHistoricalToolChars : Option ℚ := none

def floorTier (settings : MemorySettings) : List ℕ :=
  match settings.memoryMaxHistoricalToolChars with
  | some n => if 0 < n then [⌊n⌋₊] else []
  | none => []

def tiersOf (settings : MemorySettings) : List ℕ := pressureTiers ++ floorTier settings

/-- What one turn sends: its body, as it is measured, and the conversation in it
as the media rung leaves it. -/
structure Turn where
  body : Json
  items : List Message
  calibration : Option ℚ := none

section Pipeline

variable (contextWindow : Option ℚ) (settings : MemorySettings)

def reliefChunkChars (calibration : ℚ) : ℤ :=
  let budget := resolveContextBudget contextWindow settings.toSettings
  max 1 ⌈((budget.budget - budget.target : ℤ) : ℚ) * (charsPerToken / calibration)⌉

def toolDeficit (turn : Turn) : ℤ :=
  let pressure := measureContextPressure turn.body contextWindow settings.toSettings turn.calibration
  let chunk := reliefChunkChars contextWindow settings pressure.calibration
  if pressure.isOver then ⌈(pressure.deficitChars : ℚ) / chunk⌉ * chunk else 0

def runTools (turn : Turn) : List Visit :=
  visits turn.items
    { enabled := settings.memoryToolPruningEnabled
      budgetAware := true
      deficitChars := toolDeficit contextWindow settings turn
      keepRecentTurns := settings.memoryMaxToolTurnsKeepFull
      tiers := tiersOf settings }

end Pipeline

def Visit.cap (caps : List ℕ) (visit : Visit) : Option ℕ := visit.tier.map fun tier => caps.getD tier 0

/-- `cap'` is at least as tight as `cap`: no cap is the loosest of all. -/
def Tighter (cap cap' : Option ℕ) : Prop := ∀ c, cap = some c → ∃ c', cap' = some c' ∧ c' ≤ c

/-- What became of a message in a later turn: it was cut no less, and if it was cut to the
same cap, to the same text. -/
structure Follows (caps : List ℕ) (visit visit' : Visit) : Prop where
  tighter : Tighter (visit.cap caps) (visit'.cap caps)
  same : visit'.cap caps = visit.cap caps → visit'.message = visit.message

def Keeps (caps : List ℕ) (earlier later : List Visit) : Prop :=
  ∀ (i : ℕ) visit visit', earlier[i]? = some visit → later[i]? = some visit' → Follows caps visit visit'

/-! ### One result in two turns -/

/-- A visit of `msg`, cut to the cap it names. -/
def Visits (caps : List ℕ) (msg : Message) (visit : Visit) : Prop :=
  visit.message = match visit.cap caps with
    | some cap => (truncateMessageTools msg cap).value
    | none => msg

theorem visits_of_untouched (caps : List ℕ) (msg : Message) : Visits caps msg (untouched msg) := rfl

theorem visits_of_cut (caps : List ℕ) (msg : Message)
    (tier : ℕ) : Visits caps msg (cutTo msg tier (caps.getD tier 0)) := rfl

theorem Visits.follows {caps : List ℕ} {msg : Message} {visit visit' : Visit}
    (h : Visits caps msg visit)
    (h' : Visits caps msg visit') (htighter : Tighter (visit.cap caps) (visit'.cap caps)) :
    Follows caps visit visit' :=
  ⟨htighter, fun hcap => by rw [h', h, hcap]⟩

theorem follows_of_untouched {caps : List ℕ} {msg : Message} {visit' : Visit}
    (h' : Visits caps msg visit') :
    Follows caps (untouched msg) visit' :=
  (visits_of_untouched caps msg).follows h' fun c hc => by cases hc

theorem findIdx?_le {α : Type*} {p p' : α → Bool} (himp : ∀ a, p' a = true → p a = true)
    {l : List α} {k k' : ℕ}
    (h : l.findIdx? p = some k) (h' : l.findIdx? p' = some k') : k ≤ k' := by
  obtain ⟨_, _, hbefore⟩ := List.findIdx?_eq_some_iff_getElem.1 h
  obtain ⟨hk', hp', _⟩ := List.findIdx?_eq_some_iff_getElem.1 h'
  by_contra hlt
  exact hbefore k' (not_le.1 hlt) (himp _ hp')

/-- The tier for a larger deficit comes no earlier, and it is the same unless the
smaller deficit was covered. -/
theorem chooseTier_mono {caps : List ℕ} (hcaps : caps ≠ []) (msg : Message)
    {remaining remaining' : ℤ} (hle : remaining ≤ remaining') :
    chooseTier caps msg remaining ≤ chooseTier caps msg remaining' ∧ chooseTier caps msg remaining' < caps.length ∧
      (remaining ≤ (truncateMessageTools msg (caps.getD (chooseTier caps msg remaining) 0)).savedChars ∨
        chooseTier caps msg remaining' = chooseTier caps msg remaining) := by
  have hpos : 0 < caps.length := List.length_pos_iff.2 hcaps
  have himp : ∀ cap, decide (remaining' ≤ (truncateMessageTools msg cap).savedChars) = true →
      decide (remaining ≤ (truncateMessageTools msg cap).savedChars) = true := by
    intro cap hcap
    rw [decide_eq_true_eq] at hcap ⊢
    exact hle.trans hcap
  unfold chooseTier
  cases hfirst : caps.findIdx? fun cap => decide (remaining ≤ (truncateMessageTools msg cap).savedChars) with
  | none =>
    have hsecond : (caps.findIdx? fun cap => decide (remaining' ≤ (truncateMessageTools msg cap).savedChars)) = none := by
      rw [List.findIdx?_eq_none_iff] at hfirst ⊢
      intro cap hcap
      rw [← Bool.not_eq_true]
      intro h
      exact absurd (himp cap h) (by rw [hfirst cap hcap]; decide)
    rw [hsecond]
    exact ⟨Nat.le_refl _, by simpa using hpos, .inr rfl⟩
  | some k =>
    obtain ⟨hk, hcovered, -⟩ := List.findIdx?_eq_some_iff_getElem.1 hfirst
    have hsaved : remaining ≤ (truncateMessageTools msg (caps.getD k 0)).savedChars := by
      rw [List.getD_eq_getElem _ _ hk]
      exact of_decide_eq_true hcovered
    cases hsecond : caps.findIdx? fun cap => decide (remaining' ≤ (truncateMessageTools msg cap).savedChars) with
    | none =>
      simp only [Option.getD_some, Option.getD_none]
      exact ⟨by omega, by omega, .inl hsaved⟩
    | some k' =>
      have hk' := (List.findIdx?_eq_some_iff_getElem.1 hsecond).1
      simp only [Option.getD_some]
      exact ⟨findIdx?_le himp hfirst hsecond, hk', .inl hsaved⟩

theorem cap_cutTo (caps : List ℕ) (msg : Message)
    (tier cap : ℕ) : (cutTo msg tier cap).cap caps = some (caps.getD tier 0) := rfl

theorem getD_le_getD {caps : List ℕ} (hsorted : caps.Pairwise (· ≥ ·)) {k k' : ℕ} (hle : k ≤ k')
    (hk' : k' < caps.length) :
    caps.getD k' 0 ≤ caps.getD k 0 := by
  rw [List.getD_eq_getElem _ _ hk', List.getD_eq_getElem _ _ (hle.trans_lt hk')]
  rcases hle.eq_or_lt with rfl | hlt
  · exact Nat.le_refl _
  · exact List.pairwise_iff_getElem.1 hsorted k k' _ hk' hlt

/-! ### A walk in two turns -/

theorem pruneTiers_visits {caps : List ℕ} {items : List Message} {left : ℕ} {remaining : ℤ} {i : ℕ}
    {msg : Message}
    (hmsg : items[i]? = some msg) {visit : Visit} (hvisit : (pruneTiers caps left remaining items)[i]? = some visit) :
    Visits caps msg visit := by
  induction items generalizing left remaining i with
  | nil => simp at hmsg
  | cons first items ih =>
    rw [pruneTiers] at hvisit
    cases i with
    | zero =>
      rw [List.getElem?_cons_zero, Option.some.injEq] at hmsg
      split at hvisit
      · rw [List.getElem?_cons_zero, Option.some.injEq] at hvisit
        rw [← hvisit, hmsg]
        exact visits_of_cut caps msg _
      · rw [List.getElem?_cons_zero, Option.some.injEq] at hvisit
        rw [← hvisit, hmsg]
        exact visits_of_untouched caps msg
    | succ i =>
      rw [List.getElem?_cons_succ] at hmsg
      split at hvisit
      · exact ih hmsg hvisit
      · exact ih hmsg hvisit

theorem pruneTiers_idle {caps : List ℕ} {left : ℕ} {remaining : ℤ} (h : left = 0 ∨ remaining ≤ 0)
    (items : List Message) :
    pruneTiers caps left remaining items = items.map untouched := by
  induction items with
  | nil => rfl
  | cons first items ih =>
    rw [pruneTiers, if_neg, ih, List.map_cons]
    rcases h with rfl | h
    · simp
    · simp [h]

theorem keeps_idle {caps : List ℕ} {items later : List Message} {left : ℕ} {remaining : ℤ} :
    Keeps caps (items.map untouched) (pruneTiers caps left remaining (items ++ later)) := by
  intro i visit visit' hvisit hvisit'
  rw [List.getElem?_map, Option.map_eq_some_iff] at hvisit
  obtain ⟨msg, hmsg, rfl⟩ := hvisit
  have happend : (items ++ later)[i]? = some msg := by
    rw [List.getElem?_append_left (List.getElem?_eq_some_iff.1 hmsg).1, hmsg]
  exact follows_of_untouched (pruneTiers_visits happend hvisit')

/-- **Two walks**: the later one has as many results to cut and as much to save, or more. -/
theorem keeps_pruneTiers {caps : List ℕ} (hcaps : caps ≠ []) (hsorted : caps.Pairwise (· ≥ ·))
    (later : List Message) :
    ∀ (items : List Message) {left left' : ℕ} {remaining remaining' : ℤ}, left ≤ left' → remaining ≤ remaining' →
      Keeps caps (pruneTiers caps left remaining items) (pruneTiers caps left' remaining' (items ++ later)) := by
  intro items
  induction items with
  | nil => intro left left' remaining remaining' _ _ i visit visit' hvisit; simp [pruneTiers] at hvisit
  | cons first items ih =>
    intro left left' remaining remaining' hleft hremaining
    by_cases hidle : left = 0 ∨ remaining ≤ 0
    · rw [pruneTiers_idle hidle]
      exact keeps_idle
    rw [not_or, not_le] at hidle
    have hleft' : 0 < left := Nat.pos_of_ne_zero hidle.1
    cases hfirst : isToolResult first with
    | false =>
      have hsame {n : ℕ} {r : ℤ} {items : List Message} :
          pruneTiers caps n r (first :: items) = untouched first :: pruneTiers caps n r items := by
        rw [pruneTiers, if_neg (by simp [hfirst])]
      rw [List.cons_append, hsame, hsame]
      intro i visit visit' hvisit hvisit'
      cases i with
      | zero =>
        rw [List.getElem?_cons_zero, Option.some.injEq] at hvisit hvisit'
        rw [← hvisit, ← hvisit']
        exact follows_of_untouched (visits_of_untouched caps first)
      | succ i => exact ih hleft hremaining i visit visit' hvisit hvisit'
    | true =>
      have hcut {n : ℕ} {r : ℤ} {items : List Message} (hn : 0 < n) (hr : 0 < r) :
          pruneTiers caps n r (first :: items) =
            cutTo first (chooseTier caps first r) (caps.getD (chooseTier caps first r) 0) ::
              pruneTiers caps (n - 1)
                (r - (truncateMessageTools first (caps.getD (chooseTier caps first r) 0)).savedChars) items := by
        rw [pruneTiers, if_pos (by simp [hfirst, hn, hr])]
        rfl
      rw [List.cons_append, hcut hleft' hidle.2, hcut (hleft'.trans_le hleft) (hidle.2.trans_le hremaining)]
      obtain ⟨htier, hlast, hcover⟩ := chooseTier_mono hcaps first hremaining
      intro i visit visit' hvisit hvisit'
      cases i with
      | zero =>
        rw [List.getElem?_cons_zero, Option.some.injEq] at hvisit hvisit'
        rw [← hvisit, ← hvisit']
        refine (visits_of_cut caps first _).follows (visits_of_cut caps first _) fun c hc => ?_
        rw [cap_cutTo, Option.some.injEq] at hc
        exact ⟨_, cap_cutTo .., hc ▸ getD_le_getD hsorted htier hlast⟩
      | succ i =>
        rw [List.getElem?_cons_succ] at hvisit hvisit'
        rcases hcover with hcovered | hequal
        · rw [pruneTiers_idle (.inr (by omega))] at hvisit
          exact keeps_idle i visit visit' hvisit hvisit'
        · rw [hequal] at hvisit'
          exact ih (by omega) (by omega) i visit visit' hvisit hvisit'

/-! ### The deficit -/

/-! ### Turns of a session -/

theorem visits_eq_pruneTiers (items : List Message) (o : Options) (haware : o.budgetAware = true)
    (hcaps : o.tiers ≠ []) :
    visits items o =
      pruneTiers o.tiers (if o.enabled then o.historicalCount (items.countP isToolResult) else 0) o.deficitChars items := by
  have htiers : o.tiers.isEmpty = false := by simpa using hcaps
  unfold visits
  dsimp only
  rw [haware, htiers]
  cases henabled : o.enabled with
  | false =>
    rw [if_pos (by simp), pruneTiers_idle (.inl (by simp))]
  | true =>
    by_cases hdeficit : o.deficitChars ≤ 0
    · rw [if_pos (by simp [hdeficit]), pruneTiers_idle (.inr hdeficit)]
    · rw [if_neg (by simp [hdeficit])]
      simp

theorem historicalCount_mono (o : Options) {n n' : ℕ}
    (h : n ≤ n') : o.historicalCount n ≤ o.historicalCount n' := by
  unfold Options.historicalCount
  dsimp only
  split
  · exact Nat.mul_le_mul_right _ (Nat.div_le_div_right (Nat.sub_le_sub_right h _))
  · exact Nat.sub_le_sub_right h _

theorem tiersOf_ne_nil (settings : MemorySettings) : tiersOf settings ≠ [] := by simp [tiersOf, pressureTiers]

/-- **When a turn keeps what the turn before it has cut**: the history has grown at its
end, and no less has to go. -/
def Steady (contextWindow : Option ℚ) (settings : MemorySettings) (turn turn' : Turn) : Prop :=
  turn.items <+: turn'.items ∧ toolDeficit contextWindow settings turn ≤ toolDeficit contextWindow settings turn'

def FloorTight (settings : MemorySettings) : Prop := ∀ floor ∈ floorTier settings, floor ≤ 400

theorem sorted_tiersOf {settings : MemorySettings}
    (h : FloorTight settings) : (tiersOf settings).Pairwise (· ≥ ·) := by
  have htiers : pressureTiers.Pairwise (· ≥ ·) ∧ ∀ tier ∈ pressureTiers, 400 ≤ tier := by decide
  rw [tiersOf, List.pairwise_append]
  refine ⟨htiers.1, ?_, fun tier htier floor hfloor => (h floor hfloor).trans (htiers.2 tier htier)⟩
  unfold floorTier
  cases settings.memoryMaxHistoricalToolChars with
  | none => exact List.Pairwise.nil
  | some n =>
    dsimp only
    split
    · exact List.pairwise_singleton _ _
    · exact List.Pairwise.nil

theorem keeps_runTools {contextWindow : Option ℚ} {settings : MemorySettings}
    (hfloor : FloorTight settings) {turn turn' : Turn}
    (h : Steady contextWindow settings turn turn') :
    Keeps (tiersOf settings) (runTools contextWindow settings turn) (runTools contextWindow settings turn') := by
  obtain ⟨⟨later, hlater⟩, hdeficit⟩ := h
  unfold runTools
  rw [visits_eq_pruneTiers _ _ rfl (tiersOf_ne_nil settings),
    visits_eq_pruneTiers _ _ rfl (tiersOf_ne_nil settings), ← hlater]
  refine keeps_pruneTiers (tiersOf_ne_nil settings) (sorted_tiersOf hfloor) later turn.items ?_ hdeficit
  split
  · exact historicalCount_mono _ (by rw [List.countP_append]; exact Nat.le_add_right _ _)
  · exact Nat.le_refl _

theorem Steady.trans {contextWindow : Option ℚ} {settings : MemorySettings}
    {turn turn' turn'' : Turn}
    (h : Steady contextWindow settings turn turn') (h' : Steady contextWindow settings turn' turn'') :
    Steady contextWindow settings turn turn'' :=
  ⟨h.1.trans h'.1, h.2.trans h'.2⟩

/-- **Pruning in a session**: what one turn has cut every later turn cuts as well, to the
same text or to a tighter cap. -/
theorem session_keeps {contextWindow : Option ℚ} {settings : MemorySettings}
    (hfloor : FloorTight settings)
    (session : List Turn) (hsession : session.IsChain (Steady contextWindow settings)) :
    session.Pairwise fun turn turn' =>
      Keeps (tiersOf settings) (runTools contextWindow settings turn) (runTools contextWindow settings turn') := by
  have : IsTrans Turn (Steady contextWindow settings) := ⟨fun _ _ _ => Steady.trans⟩
  exact hsession.pairwise.imp fun h => keeps_runTools hfloor h

/-! ### The default floor -/

/-- The result of a tool that is `n` units long, as JSON and as it is read. -/
def resultJson (n : ℕ) : Json :=
  .object (.cons "role" (.string "tool") (.cons "content" (.string (String.ofList (List.replicate n 'x'))) .nil))

def resultOf (n : ℕ) : Message := { role := some "tool", content := .text (List.replicate n 120) }

def turnOf (results : List ℕ) : Turn where
  body := .object (.cons "messages" (.array (.ofList (results.map resultJson))) .nil)
  items := results.map resultOf

theorem itemChars_results (results : List ℕ) :
    itemChars 1 (.ofList (results.map resultJson)) = (results.map (· + 15)).sum := by
  have hrole : Capacity.jsLength "role" = 4 ∧ Capacity.jsLength "tool" = 4 ∧ Capacity.jsLength "content" = 7 := by decide
  have hlength (n : ℕ) : Capacity.jsLength (String.ofList (List.replicate n 'x')) = n := by
    simp [Capacity.jsLength]
  have hresult (n : ℕ) : estimateChars 1 (resultJson n) = n + 15 := by
    have hmedia (content : Json) : isMediaBlock (.cons "role" (.string "tool") (.cons "content" content .nil)) = false := rfl
    simp only [resultJson, estimateChars, fieldChars, hmedia, hrole, hlength]
    simp
    omega
  induction results with
  | nil => rfl
  | cons n results ih =>
    rw [List.map_cons, JsonItems.ofList, itemChars, ih, hresult, List.map_cons, List.sum_cons]

theorem requestChars_turnOf (results : List ℕ) :
    requestChars (turnOf results).body = (results.map (· + 15)).sum := by
  rw [← itemChars_results]
  show 0 + 0 + 0 + 0 + itemChars 1 _ = _
  rw [Nat.zero_add]

def defaultSettings : MemorySettings where
  memoryMaxToolTurnsKeepFull := some 2
  memoryMaxHistoricalToolChars := some 800

def oneTurn : Turn := turnOf [1000, 50, 50]

def nextTurn : Turn := turnOf [1000, 50, 50, 200]

theorem toolDeficit_turns :
    toolDeficit (some 600) defaultSettings oneTurn = 288 ∧ toolDeficit (some 600) defaultSettings nextTurn = 576 := by
  unfold toolDeficit measureContextPressure estimateRequestTokens
  rw [oneTurn, nextTurn, requestChars_turnOf, requestChars_turnOf]
  decide +kernel

theorem toolDeficit_withoutFloor (contextWindow : Option ℚ) (settings : MemorySettings)
    (turn : Turn) :
    toolDeficit contextWindow { settings with memoryMaxHistoricalToolChars := none } turn =
      toolDeficit contextWindow settings turn := rfl

/-- Without a floor of its own the same session keeps what it has cut. -/
theorem session_keeps_oneTurn :
    [oneTurn, nextTurn].Pairwise fun turn turn' =>
      Keeps (tiersOf { defaultSettings with memoryMaxHistoricalToolChars := none })
        (runTools (some 600) { defaultSettings with memoryMaxHistoricalToolChars := none } turn)
        (runTools (some 600) { defaultSettings with memoryMaxHistoricalToolChars := none } turn') := by
  refine session_keeps (fun floor hfloor => by cases hfloor) [oneTurn, nextTurn] ?_
  rw [List.isChain_pair]
  refine ⟨⟨[resultOf 200], rfl⟩, ?_⟩
  rw [toolDeficit_withoutFloor, toolDeficit_withoutFloor, toolDeficit_turns.1, toolDeficit_turns.2]
  decide

/-- By default a result is first cut to 400 units and, when 200 more have come in, to 800. -/
theorem default_floor_loosens :
    ¬ (∀ contextWindow settings (turn turn' : Turn), Steady contextWindow settings turn turn' →
        Keeps (tiersOf settings) (runTools contextWindow settings turn) (runTools contextWindow settings turn')) ∧
      ((runTools (some 600) defaultSettings oneTurn)[0]?.bind (·.cap (tiersOf defaultSettings))) = some 400 ∧
      ((runTools (some 600) defaultSettings nextTurn)[0]?.bind (·.cap (tiersOf defaultSettings))) = some 800 := by
  have hfirst : ((runTools (some 600) defaultSettings oneTurn)[0]?.bind (·.cap (tiersOf defaultSettings))) = some 400 := by
    rw [runTools, toolDeficit_turns.1]
    decide +kernel
  have hsecond : ((runTools (some 600) defaultSettings nextTurn)[0]?.bind (·.cap (tiersOf defaultSettings))) = some 800 := by
    rw [runTools, toolDeficit_turns.2]
    decide +kernel
  refine ⟨fun h => ?_, hfirst, hsecond⟩
  have hsteady : Steady (some 600) defaultSettings oneTurn nextTurn := by
    refine ⟨⟨[resultOf 200], rfl⟩, ?_⟩
    rw [toolDeficit_turns.1, toolDeficit_turns.2]
    decide
  obtain ⟨visit, hvisit, hcap⟩ := Option.bind_eq_some_iff.1 hfirst
  obtain ⟨visit', hvisit', hcap'⟩ := Option.bind_eq_some_iff.1 hsecond
  obtain ⟨c, hc, hle⟩ := (h _ _ _ _ hsteady 0 visit visit' hvisit hvisit').tighter 400 hcap
  rw [hcap', Option.some.injEq] at hc
  omega

end TokenProxy.ToolPruner
