import TokenProxy.Translator.ResponsesRequest
import TokenProxy.Lib.Json
import Mathlib.Data.List.Perm.Subperm

/-!
# Flat names for Responses tools

The tools of a Responses request may lie in nested namespaces. They become one list of functions:
each is named by its namespaces and its name, without dots, and by a number behind them where that
name is taken. The map of the names takes a call back to its declaration.

* `reserve_fresh`: a new declaration gets a name that is free.
* `flattenTools_faithful_iff`: when the names are a renaming of the declarations.
-/

namespace TokenProxy.ResponsesRequest

open Lib
open Translator (Text ToolMetadata ToolNames resolveResponsesToolCall)

/-! ### Declarations -/

def nameOf (value : Option Json) : Option Text :=
  match value with
  | some (.string name) => if trim name.toList = [] then none else some name.toList
  | _ => none

def listOf (value : Option Json) : List Json :=
  match value with
  | some (.array items) => items.toList
  | _ => []

/-- `namespaces.length > 0 ? namespaces.join(".") : null` -/
def joinNamespaces (namespaces : List Text) : Option Text := if namespaces = [] then none else some (List.intercalate ['.'] namespaces)

def declare (name : Option Json) (namespaces : List Text) (custom : Bool) : List ToolMetadata :=
  match nameOf name with
  | some name => [⟨name, joinNamespaces namespaces, custom⟩]
  | none => []

/-- The functions of a candidate, by the levels that may still be gone down. -/
def flattenCandidate : ℕ → List Text → Json → List ToolMetadata
  | 0, _, _ => []
  | levels + 1, namespaces, candidate =>
    if candidate.field "type" = some (.string "namespace") then
      let nextNamespaces := namespaces ++ (nameOf (candidate.field "name")).toList
      (listOf (candidate.field "tools")).flatMap (flattenCandidate levels nextNamespaces)
    else
      match (candidate.field "function").filter Json.truthy with
      -- in the format of chat completions already
      | some fn => declare (fn.field "name") namespaces false
      | none => declare (candidate.field "name") namespaces (candidate.field "type" = some (.string "custom"))

/-- `depth > 8` ends the walk. -/
def maxLevels : ℕ := 9

def additionalTools (inputItems : List Json) : List Json :=
  inputItems.flatMap fun item => if item.field "type" = some (.string "additional_tools") then listOf (item.field "tools") else []

/-- The functions that a request declares, in the order of its tools. -/
def declaredTools (tools : Option Json) (inputItems : List Json) : List ToolMetadata :=
  (listOf tools ++ additionalTools inputItems).flatMap (flattenCandidate maxLevels [])

/-! ### Names -/

def preferredName (metadata : ToolMetadata) : Text :=
  undotted (match metadata.space.filter (· ≠ []) with
    | some space => space ++ "__".toList ++ metadata.name
    | none => metadata.name)

def safeResponsesToolName (map : Dict Text ToolMetadata)
    (metadata : ToolMetadata) : Dict Text ToolMetadata × Text :=
  reserveResponsesToolName map (preferredName metadata) metadata

structure FlatTools where
  functions : List Text := []
  names : ToolNames := {}

def FlatTools.add (flat : FlatTools) (metadata : ToolMetadata) : FlatTools :=
  let reserved := safeResponsesToolName flat.names.responsesToolNameMap metadata
  let customToolNames := flat.names.customToolNames
  { functions := flat.functions ++ [reserved.2]
    names :=
      { customToolNames := if metadata.custom && !customToolNames.contains reserved.2 then customToolNames ++ [reserved.2] else customToolNames
        responsesToolNameMap := reserved.1 } }

def flattenTools (declared : List ToolMetadata) : FlatTools := declared.foldl FlatTools.add {}

def declaredNameIn (map : Dict Text ToolMetadata) (name : Text) (space : Option Text) : Text :=
  let space := space.filter (· ≠ [])
  if map.rows = [] ∨ name = [] then name
  else
    match map.rows.find? fun row => row.2.name = name && row.2.space = space with
    | some row => row.1
    | none =>
      if space = none then
        match map.rows.filter fun row => row.2.space.any (· ≠ []) && row.2.name = name with
        | [row] => row.1
        | _ => name
      else name

/-! ### Free names -/

theorem candidate_inj {preferred : Text} {i j : ℕ}
    (h : candidate preferred i = candidate preferred j) : i = j := by
  have hlength := congrArg List.length h
  match i, j with
  | 0, 0 => rfl
  | 0, j + 1 => simp [candidate] at hlength
  | i + 1, 0 => simp [candidate] at hlength
  | i + 1, j + 1 =>
    have hdigits := List.append_cancel_left h
    rw [Nat.toString_eq_repr, Nat.toString_eq_repr, Nat.toList_repr, Nat.toList_repr] at hdigits
    rw [← Nat.ofDigitChars_ten_toDigits (n := i + 1), hdigits, Nat.ofDigitChars_ten_toDigits]

theorem exists_free (map : Dict Text ToolMetadata)
    (preferred : Text) : ∃ j, j < map.rows.length + 1 ∧ map.get? (candidate preferred j) = none := by
  by_contra hno
  push Not at hno
  have hnodup : ((List.range (map.rows.length + 1)).map (candidate preferred)).Nodup :=
    List.Nodup.map (fun _ _ => candidate_inj) List.nodup_range
  have hsub : (List.range (map.rows.length + 1)).map (candidate preferred) ⊆ map.rows.map Prod.fst := by
    intro name hname
    obtain ⟨j, hj, rfl⟩ := List.mem_map.1 hname
    obtain ⟨row, hrow⟩ := Option.ne_none_iff_exists'.1 (hno j (List.mem_range.1 hj))
    exact List.mem_map.2 ⟨row, Table.get?_mem hrow, Table.get?_key hrow⟩
  have hlength := (hnodup.subperm hsub).length_le
  simp only [List.length_map, List.length_range] at hlength
  omega

theorem reserveFrom_fresh {map : Dict Text ToolMetadata} {metadata : ToolMetadata}
    (hnew : ∀ row ∈ map.rows, row.2 ≠ metadata) (preferred : Text)
    {rounds k j : ℕ} (hk : k ≤ j) (hj : j < k + rounds) (hfree : map.get? (candidate preferred j) = none) :
    ∃ name, map.get? name = none ∧ reserveFrom map preferred metadata rounds k = (map.put (name, metadata), name) := by
  induction rounds generalizing k with
  | zero => omega
  | succ rounds ih =>
    rw [reserveFrom]
    cases hget : map.get? (candidate preferred k) with
    | none => exact ⟨_, hget, rfl⟩
    | some existing =>
      have hne : k ≠ j := by
        rintro rfl
        simp [hfree] at hget
      simp only [if_neg (hnew existing (Table.get?_mem hget))]
      exact ih (by omega) (by omega)

/-- **A new declaration gets a name that is free.** -/
theorem reserve_fresh {map : Dict Text ToolMetadata} {metadata : ToolMetadata}
    (hnew : ∀ row ∈ map.rows, row.2 ≠ metadata) :
    ∃ name, map.get? name = none ∧ safeResponsesToolName map metadata = (map.put (name, metadata), name) := by
  obtain ⟨j, hj, hfree⟩ := exists_free map (preferredName metadata)
  exact reserveFrom_fresh hnew _ (Nat.zero_le j) (by omega) hfree

/-! ### The renaming -/

/-- The names are different, each is taken back to its declaration, and a call of
a declaration has its name. -/
structure Faithful (declared : List ToolMetadata) : Prop where
  length : (flattenTools declared).functions.length = declared.length
  nodup : (flattenTools declared).functions.Nodup
  resolve : ∀ (i : ℕ) (metadata : ToolMetadata) (name : Text), declared[i]? = some metadata → (flattenTools declared).functions[i]? = some name →
    resolveResponsesToolCall (flattenTools declared).names name = metadata
  call : ∀ (i : ℕ) (metadata : ToolMetadata) (name : Text), declared[i]? = some metadata → (flattenTools declared).functions[i]? = some name →
    declaredNameIn (flattenTools declared).names.responsesToolNameMap metadata.name metadata.space = name

def callOf (metadata : ToolMetadata) : Text × Option Text := (metadata.name, metadata.space)

theorem flattenTools_snoc (declared : List ToolMetadata) (metadata : ToolMetadata) :
    flattenTools (declared ++ [metadata]) = (flattenTools declared).add metadata := by
  rw [flattenTools, List.foldl_append]
  rfl

theorem rows_flattenTools {declared : List ToolMetadata} (h : declared.Nodup) :
    (flattenTools declared).names.responsesToolNameMap.rows = (flattenTools declared).functions.zip declared ∧
      (flattenTools declared).functions.length = declared.length := by
  induction declared using List.reverseRecOn with
  | nil => exact ⟨rfl, rfl⟩
  | append_singleton declared metadata ih =>
    obtain ⟨hdeclared, -, hnew⟩ := List.nodup_append.1 h
    obtain ⟨hrows, hlength⟩ := ih hdeclared
    have hfresh : ∀ row ∈ (flattenTools declared).names.responsesToolNameMap.rows, row.2 ≠ metadata := by
      intro row hrow
      rw [hrows] at hrow
      exact hnew _ (List.of_mem_zip hrow).2 _ List.mem_cons_self
    obtain ⟨name, hfree, hreserved⟩ := reserve_fresh hfresh
    rw [flattenTools_snoc]
    simp only [FlatTools.add, hreserved]
    rw [Table.rows_put_none hfree, hrows, List.zip_append hlength]
    simp [hlength]

/-- Declarations as `flattenCandidate` makes them. -/
def Named (metadata : ToolMetadata) : Prop := metadata.name ≠ [] ∧ metadata.space ≠ some []

theorem ne_nil_of_nameOf {value : Option Json} {name : Text}
    (h : nameOf value = some name) : name ≠ [] := by
  unfold nameOf at h
  split at h
  · split at h
    · simp at h
    · rename_i hblank
      rw [Option.some.injEq] at h
      subst h
      intro hnil
      exact hblank (by rw [hnil]; rfl)
  · simp at h

theorem joinNamespaces_ne {namespaces : List Text}
    (h : ∀ space ∈ namespaces, space ≠ []) : joinNamespaces namespaces ≠ some [] := by
  unfold joinNamespaces
  split
  · simp
  · rename_i hne
    obtain ⟨first, rest, rfl⟩ := List.exists_cons_of_ne_nil hne
    have hfirst := h first List.mem_cons_self
    cases rest with
    | nil => simpa [List.intercalate] using hfirst
    | cons second rest => simp [List.intercalate]

theorem named_declare {name : Option Json} {namespaces : List Text}
    (h : ∀ space ∈ namespaces, space ≠ []) (custom : Bool) :
    ∀ metadata ∈ declare name namespaces custom, Named metadata := by
  intro metadata hm
  unfold declare at hm
  split at hm
  · rename_i name' hname
    obtain rfl := List.mem_singleton.1 hm
    exact ⟨ne_nil_of_nameOf hname, joinNamespaces_ne h⟩
  · simp at hm

theorem named_flattenCandidate (levels : ℕ) {namespaces : List Text}
    (h : ∀ space ∈ namespaces, space ≠ []) (candidate : Json) :
    ∀ metadata ∈ flattenCandidate levels namespaces candidate, Named metadata := by
  induction levels generalizing namespaces candidate with
  | zero => simp [flattenCandidate]
  | succ levels ih =>
    intro metadata hm
    rw [flattenCandidate] at hm
    split at hm
    · obtain ⟨child, -, hm⟩ := List.mem_flatMap.1 hm
      refine ih ?_ child metadata hm
      intro space hspace
      rcases List.mem_append.1 hspace with hspace | hspace
      · exact h space hspace
      · exact ne_nil_of_nameOf (Option.mem_toList.1 hspace)
    · split at hm
      · exact named_declare h _ metadata hm
      · exact named_declare h _ metadata hm

theorem named_declaredTools (tools : Option Json)
    (inputItems : List Json) : ∀ metadata ∈ declaredTools tools inputItems, Named metadata := by
  intro metadata hm
  obtain ⟨tool, -, hm⟩ := List.mem_flatMap.1 hm
  exact named_flattenCandidate maxLevels (by simp) tool metadata hm

theorem declaredNameIn_of_mem {map : Dict Text ToolMetadata} {row : Text × ToolMetadata}
    (hrow : row ∈ map.rows) (hnamed : Named row.2)
    (hsole : ∀ row' ∈ map.rows, callOf row'.2 = callOf row.2 → row' = row) :
    declaredNameIn map row.2.name row.2.space = row.1 := by
  have hspace : row.2.space.filter (· ≠ []) = row.2.space := by
    cases hs : row.2.space with
    | none => rfl
    | some space =>
      have hne : space ≠ [] := by
        rintro rfl
        exact hnamed.2 hs
      simp [Option.filter, hne]
  unfold declaredNameIn
  rw [hspace, if_neg (by simp [List.ne_nil_of_mem hrow, hnamed.1])]
  cases hfind : map.rows.find? fun r => r.2.name = row.2.name && r.2.space = row.2.space with
  | none => simpa using List.find?_eq_none.1 hfind row hrow
  | some found =>
    have hfound := List.find?_some hfind
    simp only [Bool.and_eq_true, decide_eq_true_eq] at hfound
    simp only [hsole found (List.mem_of_find?_eq_some hfind) (Prod.ext hfound.1 hfound.2)]

theorem faithful_of_nodup {declared : List ToolMetadata}
    (hnamed : ∀ metadata ∈ declared, Named metadata) (h : (declared.map callOf).Nodup) :
    Faithful declared := by
  obtain ⟨hrows, hlength⟩ := rows_flattenTools (List.Nodup.of_map callOf h)
  have hkeys : (flattenTools declared).names.responsesToolNameMap.rows.map Prod.fst = (flattenTools declared).functions := by
    rw [hrows, List.map_fst_zip hlength.le]
  have hvalues : (flattenTools declared).names.responsesToolNameMap.rows.map Prod.snd = declared := by
    rw [hrows, List.map_snd_zip hlength.ge]
  have hmem : ∀ {i : ℕ} {metadata : ToolMetadata} {name : Text}, declared[i]? = some metadata → (flattenTools declared).functions[i]? = some name →
      (name, metadata) ∈ (flattenTools declared).names.responsesToolNameMap.rows := by
    intro i metadata name hi hname
    rw [hrows]
    exact List.mem_of_getElem? (List.getElem?_zip_eq_some.2 ⟨hname, hi⟩)
  refine ⟨hlength, ?_, ?_, ?_⟩
  · rw [← hkeys]
    exact (flattenTools declared).names.responsesToolNameMap.nodup
  · intro i metadata name hi hname
    have hget := Table.get?_of_mem (hmem hi hname)
    unfold resolveResponsesToolCall
    simp only [hget]
  · intro i metadata name hi hname
    have hcalls : ((flattenTools declared).names.responsesToolNameMap.rows.map fun row => callOf row.2).Nodup := by
      rw [← hvalues, List.map_map] at h
      exact h
    exact declaredNameIn_of_mem (hmem hi hname) (hnamed metadata (List.mem_of_getElem? hi)) fun row' hrow' hcall =>
      List.inj_on_of_nodup_map hcalls hrow' (hmem hi hname) hcall

/-- **When the names are a renaming.** Just when no two functions, wherever the request declares
them, have the same name and namespace. -/
theorem flattenTools_faithful_iff (tools : Option Json) (inputItems : List Json) :
    Faithful (declaredTools tools inputItems) ↔ ((declaredTools tools inputItems).map callOf).Nodup := by
  constructor
  · intro h
    generalize declaredTools tools inputItems = declared at h ⊢
    rw [List.nodup_iff_getElem?_ne_getElem?]
    intro i j hij hj heq
    have hj : j < declared.length := by simpa using hj
    have hi : i < declared.length := hij.trans hj
    have hcall : callOf declared[i] = callOf declared[j] := by simpa [hi, hj] using heq
    have hfi : i < (flattenTools declared).functions.length := h.length.symm ▸ hi
    have hfj : j < (flattenTools declared).functions.length := h.length.symm ▸ hj
    have hname : ((flattenTools declared).functions)[i] = ((flattenTools declared).functions)[j] := by
      rw [← h.call i declared[i] _ (List.getElem?_eq_getElem hi) (List.getElem?_eq_getElem hfi),
        ← h.call j declared[j] _ (List.getElem?_eq_getElem hj) (List.getElem?_eq_getElem hfj)]
      rw [callOf, callOf, Prod.mk.injEq] at hcall
      rw [hcall.1, hcall.2]
    exact hij.ne ((h.nodup.getElem_inj_iff).1 hname)
  · exact faithful_of_nodup (named_declaredTools tools inputItems)

/-! ### A declaration that is repeated -/

def functionTool (name : String) : Json := .object (.cons "type" (.string "function") (.cons "name" (.string name) .nil))

def additional (tools : List Json) : Json :=
  .object (.cons "type" (.string "additional_tools") (.cons "tools" (.array (.ofList tools)) .nil))

/-- **A function that is declared again.** Both declarations come to the upstream under one name. -/
theorem repeatedTool_twice :
    (flattenTools (declaredTools (some (.array (.ofList [functionTool "exec"]))) [additional [functionTool "exec"]])).functions
        = ["exec".toList, "exec".toList] ∧
      ¬ Faithful (declaredTools (some (.array (.ofList [functionTool "exec"]))) [additional [functionTool "exec"]]) := by
  have htwice : (flattenTools (declaredTools (some (.array (.ofList [functionTool "exec"]))) [additional [functionTool "exec"]])).functions
      = ["exec".toList, "exec".toList] := by
    decide +kernel
  refine ⟨htwice, fun h => ?_⟩
  have hnodup := h.nodup
  rw [htwice] at hnodup
  exact absurd hnodup (by decide)

end TokenProxy.ResponsesRequest
