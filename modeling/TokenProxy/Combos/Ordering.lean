import TokenProxy.Lib.Compare
import TokenProxy.Lib.Table

/-!
# The order of the members of a combo

The members are rotated, put in order by whether the request fits into their context window, and
then by whether they can do what it requires. Both orders are computed on the model names;
`reorderEntries` gives each name the next entry that has it.

* `reorderEntries_ordered`: on the entries this is a stable sort, also where a model comes more than
  once.
* `orderComboEntries_inTiers`: the two sorts are one, by the capabilities first.
-/

namespace TokenProxy.Combos.Dispatch

open Lib

abbrev ModelStr := List Char

/-- What `getCapabilitiesForModel` returns, as far as it is asked here. -/
structure Capabilities where
  able : String → Bool
  contextWindow : Option ℤ

/-- `getCapabilitiesForModel(provider, model)` -/
abbrev CapabilityTable := ModelStr → ModelStr → Capabilities

structure ComboEntry where
  modelStr : ModelStr
  originalIndex : ℕ
  deriving DecidableEq

/-! ### Rotation -/

structure Rotation where
  index : ℕ
  consecutiveUseCount : ℕ
  deriving DecidableEq

inductive Strategy where
  | fallback
  | roundRobin
  | fusion
  deriving DecidableEq

/-- `parsed` is what `parseInt` makes of the limit, nothing where that is not a number. -/
def normalizeStickyLimit (parsed : Option ℤ) : ℤ :=
  match parsed with
  | some limit => if 0 < limit then limit else 1
  | none => 1

def rotateModelsFromIndex {α : Type} (models : List α) : ℕ → List α
  | 0 => models
  | currentIndex + 1 =>
    match models with
    | [] => []
    | moved :: rotated => rotateModelsFromIndex (rotated ++ [moved]) currentIndex

def getRotatedModels {α : Type} (models : List α) (strategy : Strategy) (stickyLimit : Option ℤ)
    (existing : Option Rotation) :
    List α × Option Rotation :=
  if models.length ≤ 1 ∨ strategy ≠ .roundRobin then (models, existing)
  else
    let state := existing.getD ⟨0, 0⟩
    let currentIndex := state.index % models.length
    let nextUseCount := state.consecutiveUseCount + 1
    (rotateModelsFromIndex models currentIndex,
      if normalizeStickyLimit stickyLimit ≤ nextUseCount then some ⟨(currentIndex + 1) % models.length, 0⟩
      else some ⟨currentIndex, nextUseCount⟩)

/-! ### Tiers -/

def hardCaps : List String := ["vision", "pdf", "audioInput", "videoInput"]

/-- Provider and model of a name: `slash > 0` -/
def splitModel (m : ModelStr) : ModelStr × ModelStr :=
  match m.findIdx? (· = '/') with
  | none => ([], m)
  | some 0 => ([], m)
  | some (slash + 1) => (m.take (slash + 1), m.drop (slash + 2))

def capsOf (table : CapabilityTable) (m : ModelStr) : Capabilities := table (splitModel m).1 (splitModel m).2

def tierOf (table : CapabilityTable) (required : List String) (m : ModelStr) : ℕ :=
  let hard := required.filter fun c => hardCaps.contains c
  let soft := required.filter fun c => !hardCaps.contains c
  if hard.all (capsOf table m).able then if soft.all (capsOf table m).able then 0 else 1 else 2

def fits (table : CapabilityTable) (requiredTokens : ℤ)
    (m : ModelStr) : Bool := requiredTokens ≤ (capsOf table m).contextWindow.getD 0

def fitTier (table : CapabilityTable) (requiredTokens : ℤ)
    (m : ModelStr) : ℕ := if fits table requiredTokens m then 0 else 1

/-! ### Orders -/

/-- `(a, b) => a.t - b.t || a.i - b.i` -/
def byTier {α : Type} (tier : α → ℕ) : α × ℕ → α × ℕ → Ordering := compareLex (compareOn fun x => tier x.1) (compareOn Prod.snd)

def orderByTier {α : Type} (tier : α → ℕ) (models : List α) : List α := (sortBy (byTier tier) models.zipIdx).map Prod.fst

def reorderByCapabilities (table : CapabilityTable) (models : List ModelStr)
    (required : List String) : List ModelStr :=
  if required.isEmpty ∨ models.length ≤ 1 then models else orderByTier (tierOf table required) models

def reorderByContextFit (table : CapabilityTable) (models : List ModelStr)
    (requiredTokens : ℤ) : List ModelStr :=
  if requiredTokens ≤ 0 ∨ models.length ≤ 1 then models else orderByTier (fitTier table requiredTokens) models

abbrev EntriesByModel := Dict ModelStr (List ComboEntry)

def entriesByModel (entries : List ComboEntry) : EntriesByModel :=
  entries.foldl (fun byModel entry => byModel.put (entry.modelStr, (byModel.lookup entry.modelStr).getD [] ++ [entry])) Table.empty

/-- `reorderedModels.map((modelStr) => entriesByModel.get(modelStr).shift())`,
nothing where an entry is missing. -/
def takeEntries (byModel : EntriesByModel) : List ModelStr → Option (List ComboEntry)
  | [] => some []
  | modelStr :: reorderedModels =>
    match byModel.lookup modelStr with
    | none => none
    | some [] => none
    | some (entry :: others) => (takeEntries (byModel.put (modelStr, others)) reorderedModels).map (entry :: ·)

def reorderEntries (entries : List ComboEntry)
    (reorderedModels : List ModelStr) : Option (List ComboEntry) :=
  takeEntries (entriesByModel entries) reorderedModels

def reorderModelEntriesByCapabilities (table : CapabilityTable) (entries : List ComboEntry)
    (required : List String) :
    Option (List ComboEntry) :=
  reorderEntries entries (reorderByCapabilities table (entries.map (·.modelStr)) required)

def reorderEntriesByContextFit (table : CapabilityTable) (entries : List ComboEntry)
    (requiredTokens : ℤ) : Option (List ComboEntry) :=
  reorderEntries entries (reorderByContextFit table (entries.map (·.modelStr)) requiredTokens)

structure OrderOptions where
  contextTokens : ℤ
  required : List String
  autoSwitch : Bool

def orderComboEntries (table : CapabilityTable) (entries : List ComboEntry)
    (options : OrderOptions) : Option (List ComboEntry) :=
  if !options.autoSwitch then some entries
  else
    (reorderEntriesByContextFit table entries options.contextTokens).bind fun fitting =>
      reorderModelEntriesByCapabilities table fitting options.required

/-- The entries that `handleComboChat` tries one after the other. -/
def dispatchOrder (table : CapabilityTable) (models : List ModelStr) (strategy : Strategy)
    (stickyLimit : Option ℤ) (existing : Option Rotation)
    (options : OrderOptions) : Option (List ComboEntry) :=
  orderComboEntries table (getRotatedModels (models.mapIdx fun originalIndex modelStr => ⟨modelStr, originalIndex⟩) strategy stickyLimit existing).1
    options

/-! ### Stable sorts -/

/-- A stable sort: no element of a worse tier in front of one of a better tier, and elements that
`p` selects from one tier in their order. -/
structure Ordered {α : Type} (tier : α → ℕ) (given ordered : List α) : Prop where
  perm : ordered.Perm given
  pairwise : ordered.Pairwise fun a b => tier a ≤ tier b
  stable : ∀ p : α → Bool, (∀ a b, p a = true → p b = true → tier a = tier b) → ordered.filter p = given.filter p

variable {α : Type} {tier : α → ℕ} {given ordered : List α}

theorem Ordered.refl (h : ∀ a ∈ given, ∀ b ∈ given, tier a = tier b) : Ordered tier given given where
  perm := List.Perm.refl given
  pairwise := List.pairwise_of_forall_mem_list fun a ha b hb => (h a ha b hb).le
  stable _ _ := rfl

instance (tier : α → ℕ) : Std.TransCmp (byTier tier) := by
  unfold byTier
  infer_instance

theorem byTier_isLE {a b : α × ℕ} (h : (byTier tier a b).isLE = true) : tier a.1 ≤ tier b.1 :=
  Nat.isLE_compare.mp (Ordering.isLE_then_iff_and.mp h).1

theorem byTier_lt {a b : α × ℕ} (htier : tier a.1 = tier b.1)
    (hplace : a.2 < b.2) : byTier tier a b = .lt := by
  have hfirst : compare (tier a.1) (tier b.1) = .eq := Nat.compare_eq_eq.mpr htier
  have hsecond : compare a.2 b.2 = .lt := Nat.compare_eq_lt.mpr hplace
  show (compare (tier a.1) (tier b.1)).then (compare a.2 b.2) = .lt
  rw [hfirst, hsecond]
  rfl

theorem orderByTier_ordered (tier : α → ℕ) (given : List α) : Ordered tier given (orderByTier tier given) where
  perm := by
    have hperm := (sortBy_perm (byTier tier) given.zipIdx).map Prod.fst
    rwa [List.zipIdx_map_fst] at hperm
  pairwise := by
    rw [orderByTier, List.pairwise_map]
    exact (sortBy_pairwise given.zipIdx).imp byTier_isLE
  stable p hp := by
    have hplaces : given.zipIdx.Pairwise fun a b => a.2 < b.2 := by
      have hrange := List.pairwise_lt_range' (s := 0) (n := given.length)
      rw [← List.zipIdx_map_snd, List.pairwise_map] at hrange
      exact hrange
    have hstrict : (given.zipIdx.filter (p ∘ Prod.fst)).Pairwise fun a b => byTier tier a b = .lt := by
      rw [List.pairwise_filter]
      exact hplaces.imp fun hlt ha hb => byTier_lt (hp _ _ ha hb) hlt
    have hfst : given.filter p = (given.zipIdx.filter (p ∘ Prod.fst)).map Prod.fst := by
      conv_lhs => rw [← List.zipIdx_map_fst 0 given, List.filter_map]
    rw [orderByTier, List.filter_map, hfst, sortBy_filter (p ∘ Prod.fst) hstrict]

theorem orderByTier_map (tier : ModelStr → ℕ) (entries : List ComboEntry) :
    orderByTier tier (entries.map (·.modelStr)) = (orderByTier (fun entry => tier entry.modelStr) entries).map (·.modelStr) := by
  have hsort : sortBy (byTier tier) (entries.map (·.modelStr)).zipIdx =
      (sortBy (byTier fun entry : ComboEntry => tier entry.modelStr) entries.zipIdx).map (Prod.map (·.modelStr) id) := by
    rw [List.zipIdx_map]
    exact (List.map_insertionSort (fun a b => (byTier (fun entry : ComboEntry => tier entry.modelStr) a b).isLE = true)
      (fun a b => (byTier tier a b).isLE = true) (Prod.map (·.modelStr) id) entries.zipIdx fun _ _ _ _ => Iff.rfl).symm
  rw [orderByTier, orderByTier, hsort, List.map_map, List.map_map]
  rfl

/-! ### Entries behind names -/

theorem lookup_entriesByModel (entries : List ComboEntry) (m : ModelStr) :
    ((entriesByModel entries).lookup m).getD [] = entries.filter fun entry => entry.modelStr = m := by
  have hfold : ∀ byModel : EntriesByModel,
      ((entries.foldl (fun byModel entry => byModel.put (entry.modelStr, (byModel.lookup entry.modelStr).getD [] ++ [entry])) byModel).lookup m).getD
        [] = (byModel.lookup m).getD [] ++ entries.filter fun entry => entry.modelStr = m := by
    induction entries with
    | nil => simp
    | cons entry entries ih =>
      intro byModel
      rw [List.foldl_cons, ih, Table.lookup_put, List.filter_cons]
      by_cases hm : m = entry.modelStr
      · subst hm
        simp
      · simp [hm, Ne.symm hm]
  exact hfold Table.empty

theorem takeEntries_map {byModel : EntriesByModel} {ordered : List ComboEntry}
    (h : ∀ m, (byModel.lookup m).getD [] = ordered.filter fun entry => entry.modelStr = m) :
    takeEntries byModel (ordered.map (·.modelStr)) = some ordered := by
  induction ordered generalizing byModel with
  | nil => rfl
  | cons entry ordered ih =>
    have hentry := h entry.modelStr
    rw [List.filter_cons_of_pos (by simp)] at hentry
    have hlookup : byModel.lookup entry.modelStr = some (entry :: ordered.filter fun other => other.modelStr = entry.modelStr) := by
      cases hfound : byModel.lookup entry.modelStr with
      | none => simp [hfound] at hentry
      | some found =>
        rw [hfound, Option.getD_some] at hentry
        rw [hentry]
    have hrest : ∀ m, ((byModel.put (entry.modelStr, ordered.filter fun other => other.modelStr = entry.modelStr)).lookup m).getD [] =
        ordered.filter fun other => other.modelStr = m := by
      intro m
      rw [Table.lookup_put]
      by_cases hm : m = entry.modelStr
      · subst hm
        simp
      · have hother := h m
        rw [List.filter_cons_of_neg (by simpa using Ne.symm hm)] at hother
        simpa [hm] using hother
    rw [List.map_cons, takeEntries]
    simp only [hlookup, ih hrest, Option.map_some]

theorem reorderEntries_of_stable {entries ordered : List ComboEntry}
    (h : ∀ m, ordered.filter (fun entry => entry.modelStr = m) = entries.filter fun entry => entry.modelStr = m) :
    reorderEntries entries (ordered.map (·.modelStr)) = some ordered :=
  takeEntries_map fun m => by rw [lookup_entriesByModel, h m]

theorem reorderEntries_ordered {entries : List ComboEntry} (tier : ModelStr → ℕ) {skip : Prop}
    [Decidable skip]
    (hskip : skip → ∀ a ∈ entries, ∀ b ∈ entries, tier a.modelStr = tier b.modelStr) :
    ∃ ordered, reorderEntries entries (if skip then entries.map (·.modelStr) else orderByTier tier (entries.map (·.modelStr))) = some ordered ∧
      Ordered (fun entry => tier entry.modelStr) entries ordered := by
  by_cases h : skip
  · rw [if_pos h]
    exact ⟨entries, reorderEntries_of_stable fun _ => rfl, Ordered.refl (hskip h)⟩
  · rw [if_neg h, orderByTier_map]
    have hordered := orderByTier_ordered (fun entry : ComboEntry => tier entry.modelStr) entries
    refine ⟨_, reorderEntries_of_stable fun m => hordered.stable _ fun a b ha hb => ?_, hordered⟩
    rw [of_decide_eq_true ha, of_decide_eq_true hb]

theorem eq_of_length_le_one {entries : List ComboEntry} (h : (entries.map (·.modelStr)).length ≤ 1)
    (tier : ModelStr → ℕ) :
    ∀ a ∈ entries, ∀ b ∈ entries, tier a.modelStr = tier b.modelStr := by
  rw [List.length_map] at h
  intro a ha b hb
  cases entries with
  | nil => exact absurd ha List.not_mem_nil
  | cons entry entries =>
    have hnil : entries = [] := List.length_eq_zero_iff.mp (by simpa using h)
    subst hnil
    rw [List.mem_singleton.mp ha, List.mem_singleton.mp hb]

/-! ### Both stages -/

def contextTier (table : CapabilityTable) (requiredTokens : ℤ) (m : ModelStr) : ℕ :=
  if requiredTokens ≤ 0 then 0 else fitTier table requiredTokens m

theorem contextFit_ordered (table : CapabilityTable) (entries : List ComboEntry)
    (requiredTokens : ℤ) :
    ∃ fitting, reorderEntriesByContextFit table entries requiredTokens = some fitting ∧
      Ordered (fun entry => contextTier table requiredTokens entry.modelStr) entries fitting := by
  unfold reorderEntriesByContextFit reorderByContextFit contextTier
  by_cases hsize : requiredTokens ≤ 0
  · simp only [hsize, true_or, if_true]
    exact ⟨entries, reorderEntries_of_stable fun _ => rfl, Ordered.refl fun _ _ _ _ => rfl⟩
  · simp only [hsize, false_or, if_false]
    exact reorderEntries_ordered (fitTier table requiredTokens) fun hone => eq_of_length_le_one hone _

theorem capabilities_ordered (table : CapabilityTable) (entries : List ComboEntry)
    (required : List String) :
    ∃ ordered, reorderModelEntriesByCapabilities table entries required = some ordered ∧
      Ordered (fun entry => tierOf table required entry.modelStr) entries ordered := by
  refine reorderEntries_ordered (tierOf table required) ?_
  rintro (hnone | hone)
  · rw [List.isEmpty_iff.mp hnone]
    exact fun _ _ _ _ => rfl
  · exact eq_of_length_le_one hone _

/-- A stable sort behind another one sorts by its own tier first, and
then by that of the other one. -/
theorem Ordered.trans {first second : α → ℕ} {between : List α} (h : Ordered first given between)
    (h' : Ordered second between ordered) :
    ordered.Perm given ∧ ordered.Pairwise (fun a b => second a < second b ∨ second a = second b ∧ first a ≤ first b) ∧
      ∀ i j : ℕ, ordered.filter (fun a => second a = i ∧ first a = j) = given.filter fun a => second a = i ∧ first a = j := by
  refine ⟨h'.perm.trans h.perm, ?_, fun i j => ?_⟩
  · have htied : ∀ i : ℕ, ordered.Pairwise fun a b => second a = i → second b = i → first a ≤ first b := by
      intro i
      have hsame : ∀ a b, decide (second a = i) = true → decide (second b = i) = true → second a = second b := by
        intro a b ha hb
        rw [of_decide_eq_true ha, of_decide_eq_true hb]
      have hsorted := h.pairwise.filter fun a => decide (second a = i)
      rw [← h'.stable _ hsame, List.pairwise_filter] at hsorted
      exact hsorted.imp fun hle ha hb => hle (decide_eq_true ha) (decide_eq_true hb)
    rw [List.pairwise_iff_getElem]
    intro m n hm hn hmn
    have hle := List.pairwise_iff_getElem.mp h'.pairwise m n hm hn hmn
    obtain hlt | heq := Nat.lt_or_eq_of_le hle
    · exact .inl hlt
    · exact .inr ⟨heq, List.pairwise_iff_getElem.mp (htied (second ordered[n])) m n hm hn hmn heq rfl⟩
  · have hsecond : ∀ a b, decide (second a = i ∧ first a = j) = true → decide (second b = i ∧ first b = j) = true → second a = second b := by
      intro a b ha hb
      rw [(of_decide_eq_true ha).1, (of_decide_eq_true hb).1]
    have hfirst : ∀ a b, decide (second a = i ∧ first a = j) = true → decide (second b = i ∧ first b = j) = true → first a = first b := by
      intro a b ha hb
      rw [(of_decide_eq_true ha).2, (of_decide_eq_true hb).2]
    rw [h'.stable _ hsecond, h.stable _ hfirst]

theorem rotateModelsFromIndex_perm (models : List α)
    (currentIndex : ℕ) : (rotateModelsFromIndex models currentIndex).Perm models := by
  induction currentIndex generalizing models with
  | zero => exact List.Perm.refl models
  | succ currentIndex ih =>
    cases models with
    | nil => exact List.Perm.refl []
    | cons moved rotated =>
      rw [rotateModelsFromIndex]
      exact (ih _).trans (List.perm_append_singleton moved rotated)

theorem getRotatedModels_perm (models : List α) (strategy : Strategy) (stickyLimit : Option ℤ)
    (existing : Option Rotation) :
    (getRotatedModels models strategy stickyLimit existing).1.Perm models := by
  unfold getRotatedModels
  split
  · exact List.Perm.refl models
  · exact rotateModelsFromIndex_perm models _

/-- The entries in order: by the capabilities, then by the fit of the context, and
otherwise as they were given. -/
structure InTiers (table : CapabilityTable) (options : OrderOptions)
    (entries ordered : List ComboEntry) : Prop where
  perm : ordered.Perm entries
  same : options.autoSwitch = false → ordered = entries
  sorted : options.autoSwitch = true → ordered.Pairwise fun a b =>
    tierOf table options.required a.modelStr < tierOf table options.required b.modelStr ∨
      tierOf table options.required a.modelStr = tierOf table options.required b.modelStr ∧
        contextTier table options.contextTokens a.modelStr ≤ contextTier table options.contextTokens b.modelStr
  stable : ∀ i j : ℕ,
    ordered.filter (fun entry =>
        tierOf table options.required entry.modelStr = i ∧ contextTier table options.contextTokens entry.modelStr = j) =
      entries.filter fun entry =>
        tierOf table options.required entry.modelStr = i ∧ contextTier table options.contextTokens entry.modelStr = j

theorem orderComboEntries_inTiers (table : CapabilityTable) (entries : List ComboEntry)
    (options : OrderOptions) :
    ∃ ordered, orderComboEntries table entries options = some ordered ∧ InTiers table options entries ordered := by
  unfold orderComboEntries
  cases hswitch : options.autoSwitch with
  | false =>
    refine ⟨entries, rfl, List.Perm.refl entries, fun _ => rfl, fun h => ?_, fun _ _ => rfl⟩
    rw [hswitch] at h
    exact absurd h (by decide)
  | true =>
    obtain ⟨fitting, hfitting, hfirst⟩ := contextFit_ordered table entries options.contextTokens
    obtain ⟨ordered, hordered, hsecond⟩ := capabilities_ordered table fitting options.required
    obtain ⟨hperm, hpairwise, hstable⟩ := hfirst.trans hsecond
    refine ⟨ordered, ?_, hperm, fun h => ?_, fun _ => hpairwise, hstable⟩
    · rw [hfitting]
      exact hordered
    · rw [hswitch] at h
      exact absurd h (by decide)

/-- Entries are put in order by a stable sort, and a combo is dispatched to each of its members
once, wherever the rotation stands. -/
theorem dispatch_inTiers (table : CapabilityTable) (options : OrderOptions) :
    (∀ entries, ∃ ordered, orderComboEntries table entries options = some ordered ∧ InTiers table options entries ordered) ∧
      ∀ models strategy stickyLimit existing, ∃ ordered, dispatchOrder table models strategy stickyLimit existing options = some ordered ∧
        ordered.Perm (models.mapIdx fun originalIndex modelStr => ⟨modelStr, originalIndex⟩) := by
  refine ⟨fun entries => orderComboEntries_inTiers table entries options, fun models strategy stickyLimit existing => ?_⟩
  obtain ⟨ordered, hordered, htiers⟩ := orderComboEntries_inTiers table
    (getRotatedModels (models.mapIdx fun originalIndex modelStr => ⟨modelStr, originalIndex⟩) strategy stickyLimit existing).1 options
  exact ⟨ordered, hordered, htiers.perm.trans (getRotatedModels_perm _ strategy stickyLimit existing)⟩

end TokenProxy.Combos.Dispatch
