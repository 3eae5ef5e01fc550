import TokenProxy.Lib.DepthFirst
import TokenProxy.Lib.Run
import TokenProxy.Lib.Table

/-!
# Combos that contain combos

A member of a combo may name another combo, itself or after a provider's prefix. `findComboCycle`
looks for a combo that contains itself; combos are saved only when it finds none from the one that
is saved.

* `findComboCycle_spec`: the search is exact, on any combos at all.
* `combos_acyclic`: combos saved one after another stay without cycles, as no edge between others
  comes with a save.
-/

namespace TokenProxy.Combos

open Lib Relation

abbrev Name := List Char

/-- `models` are the members that are strings: another member refers to no combo. -/
structure Combo where
  id : Name
  name : Name
  models : List Name
  deriving DecidableEq

/-! ### References -/

/-- Of combos with one name the last is kept, in the place of the first. -/
def buildComboMap (combosData : List Combo) : Table Combo.name :=
  (combosData.filter fun combo => !combo.name.isEmpty).foldl Table.put .empty

def baseName (modelStr : Name) : Option Name :=
  if modelStr.contains '/' then (modelStr.splitOn '/').getLast? else none

def resolveComboReference (modelStr : Name) (comboMap : Table Combo.name) : Option Combo :=
  match comboMap.get? modelStr with
  | some direct => some direct
  | none => (baseName modelStr).bind fun base => if base.isEmpty then none else comboMap.get? base

def comboGraph (comboMap : Table Combo.name) : Graph Name where
  nodes := comboMap.rows.map (·.name)
  next name := ((comboMap.get? name).map (·.models)).getD [] |>.filterMap fun model =>
    (resolveComboReference model comboMap).map (·.name)

def findComboCycle (combosData : List Combo) (startName : Name) : Option (List Name) :=
  let graph := comboGraph (buildComboMap combosData)
  if startName.isEmpty then (graph.visitAll [] [] graph.nodes).1 else (graph.visit [] [] startName).1

def validateComboAcyclic (comboName : Name) (models : List Name) (combosData : List Combo)
    (currentId : Option Name) :
    Except String Unit :=
  if comboName.isEmpty then .error "Combo name is required"
  else
    let candidate := ⟨currentId.getD "__pending_combo__".toList, comboName, models⟩
    let nextCombos := (combosData.filter fun combo => some combo.id != currentId && combo.name != comboName) ++ [candidate]
    match findComboCycle nextCombos comboName with
    | some cycle => .error ("Combo circular dependency detected: " ++ String.intercalate " -> " (cycle.map String.ofList))
    | none => .ok ()

/-! ### Saving combos -/

/-- `VALID_NAME_REGEX` -/
def validName (name : Name) : Bool :=
  !name.isEmpty && name.all fun c => c.isAlphanum || c == '_' || c == '.' || c == '-'

structure ComboTable where
  combos : Table Combo.id
  unique : (combos.rows.map (·.name)).Nodup

/-- Writes a row; the database refuses a second one of the same name. -/
def ComboTable.write (table : ComboTable) (combo : Combo) : Except String ComboTable :=
  if h : ((table.combos.put combo).rows.map (·.name)).Nodup then .ok ⟨table.combos.put combo, h⟩
  else .error "UNIQUE constraint failed: combos.name"

def ComboTable.getCombos (table : ComboTable) : List Combo := table.combos.rows

def ComboTable.getComboByName (table : ComboTable) (name : Name) : Option Combo :=
  table.getCombos.find? fun combo => combo.name = name

/-- `POST`, with the id that the new row is given. -/
def createCombo (table : ComboTable) (id name : Name)
    (models : List Name) : Except String ComboTable :=
  if name.isEmpty then .error "Name is required"
  else if !validName name then .error "Name can only contain letters, numbers, -, _ and ."
  else if (table.getComboByName name).isSome then .error "Combo name already exists"
  else
    match validateComboAcyclic name models table.getCombos none with
    | .error error => .error error
    | .ok () => if (table.combos.get? id).isSome then .error "UNIQUE constraint failed: combos.id" else table.write ⟨id, name, models⟩

/-- What is wrong with the name that a body gives to the combo `prev`. -/
def nameError (table : ComboTable) (prev : Combo) (name : Name) : Option String :=
  if name.isEmpty then none
  else if !validName name then some "Name can only contain letters, numbers, -, _ and ."
  else if name != prev.name && (table.getComboByName name).any fun existing => existing.id != prev.id then
    some "Combo name already exists"
  else none

/-- `PUT`, with the fields that the body has. -/
def updateCombo (table : ComboTable) (id : Name) (name : Option Name)
    (models : Option (List Name)) :
    Except String ComboTable :=
  match table.combos.get? id with
  | none => .error "Combo not found"
  | some prev =>
    match name.bind (nameError table prev) with
    | some error => .error error
    | none =>
      let newName := name.getD prev.name
      let newModels := models.getD prev.models
      match validateComboAcyclic newName newModels table.getCombos (some id) with
      | .error error => .error error
      | .ok () => table.write ⟨id, newName, newModels⟩

def deleteCombo (table : ComboTable) (id : Name) : ComboTable where
  combos := table.combos.erase id
  unique := table.unique.sublist (List.filter_sublist.map _)

inductive Save where
  | create (id name : Name) (models : List Name)
  | update (id : Name) (name : Option Name) (models : Option (List Name))
  | delete (id : Name)

def step (table : ComboTable) : Save → ComboTable
  | .create id name models => (createCombo table id name models).toOption.getD table
  | .update id name models => (updateCombo table id name models).toOption.getD table
  | .delete id => deleteCombo table id

/-! ### The graph of the combos -/

theorem edge_iff {comboMap : Table Combo.name} {a b : Name} :
    (comboGraph comboMap).Edge a b ↔
      ∃ combo ∈ comboMap.rows, combo.name = a ∧
        ∃ model ∈ combo.models, ∃ target, resolveComboReference model comboMap = some target ∧ target.name = b := by
  constructor
  · rintro ⟨ha, hb⟩
    obtain ⟨combo, hcombo, rfl⟩ := List.mem_map.1 ha
    have hmodels : ((comboMap.get? combo.name).map (·.models)).getD [] = combo.models := by
      rw [Table.get?_of_mem hcombo, Option.map_some, Option.getD_some]
    simp only [comboGraph, hmodels, List.mem_filterMap, Option.map_eq_some_iff] at hb
    exact ⟨combo, hcombo, rfl, hb⟩
  · rintro ⟨combo, hcombo, rfl, hmodel⟩
    refine ⟨List.mem_map_of_mem hcombo, ?_⟩
    have hmodels : ((comboMap.get? combo.name).map (·.models)).getD [] = combo.models := by
      rw [Table.get?_of_mem hcombo, Option.map_some, Option.getD_some]
    simpa only [comboGraph, hmodels, List.mem_filterMap, Option.map_eq_some_iff] using hmodel

/-- **The search is exact**, on any combos: from one of them, and over all. -/
theorem findComboCycle_spec (combosData : List Combo) (startName : Name) :
    let graph := comboGraph (buildComboMap combosData)
    (findComboCycle combosData startName = none ↔ if startName.isEmpty then graph.Acyclic else graph.Safe startName) ∧
      ∀ cycle, findComboCycle combosData startName = some cycle →
        graph.IsCycle cycle ∧ ∀ a ∈ cycle, startName.isEmpty = false → ReflTransGen graph.Edge startName a := by
  intro graph
  cases hstart : startName.isEmpty with
  | true =>
    have hfind : findComboCycle combosData startName = (graph.visitAll [] [] graph.nodes).1 := if_pos hstart
    rw [hfind]
    refine ⟨?_, fun cycle hcycle => ⟨((graph.searched_visitAll graph.nodes).cycle cycle hcycle).1, by simp⟩⟩
    rw [Graph.visitAll_eq_none_iff, if_pos rfl, Graph.acyclic_iff]
    refine ⟨fun h a => ?_, fun h a _ => h a⟩
    by_cases ha : a ∈ graph.nodes
    · exact h a ha
    · exact Graph.safe_of_notMem ha
  | false =>
    have hfind : findComboCycle combosData startName = (graph.visit [] [] startName).1 := if_neg (by simp [hstart])
    rw [hfind]
    refine ⟨by rw [Graph.visit_eq_none_iff]; simp, fun cycle hcycle => ?_⟩
    obtain ⟨hreal, hreached⟩ := (graph.searched_visit startName).cycle cycle hcycle
    refine ⟨hreal, fun a ha _ => ?_⟩
    obtain ⟨start, hmem, hreach⟩ := hreached a ha
    rw [List.mem_singleton.1 hmem] at hreach
    exact hreach

/-! ### Combos with names of their own -/

def target (model : Name) : Name := (baseName model).getD model

/-- `b` is a member of `a`. -/
def Refers (combos : List Combo) (a b : Name) : Prop :=
  ∃ combo ∈ combos, combo.name = a ∧ ∃ model ∈ combo.models, target model = b ∧ ∃ other ∈ combos, other.name = b

structure Proper (combos : List Combo) : Prop where
  valid : ∀ combo ∈ combos, validName combo.name
  unique : (combos.map (·.name)).Nodup

theorem validName_spec {name : Name} (h : validName name) :
    name ≠ [] ∧ name.contains '/' = false := by
  simp only [validName, Bool.and_eq_true, Bool.not_eq_true', List.isEmpty_eq_false_iff, List.all_eq_true] at h
  refine ⟨h.1, ?_⟩
  rw [← Bool.not_eq_true, List.contains_iff_mem]
  intro hmem
  exact absurd (h.2 '/' hmem) (by decide)

theorem Proper.foldl_put {combos : List Combo} :
    ∀ {comboMap : Table Combo.name}, ((comboMap.rows ++ combos).map (·.name)).Nodup →
      (combos.foldl Table.put comboMap).rows = comboMap.rows ++ combos := by
  induction combos with
  | nil => simp
  | cons combo combos ih =>
    intro comboMap hunique
    have hfresh : comboMap.get? combo.name = none := by
      rw [Table.get?_eq_none]
      intro other hother hname
      rw [List.map_append, List.nodup_append] at hunique
      exact hunique.2.2 other.name (List.mem_map_of_mem hother) combo.name (by simp) hname
    rw [List.foldl_cons, ih, Table.rows_put_none hfresh, List.append_assoc, List.singleton_append]
    rw [Table.rows_put_none hfresh, List.append_assoc, List.singleton_append]
    exact hunique

theorem Proper.rows {combos : List Combo} (h : Proper combos) :
    (buildComboMap combos).rows = combos := by
  have hnamed : (combos.filter fun combo => !combo.name.isEmpty) = combos := by
    rw [List.filter_eq_self]
    intro combo hcombo
    simpa using (validName_spec (h.valid combo hcombo)).1
  rw [buildComboMap, hnamed, Proper.foldl_put (by simpa [Table.empty] using h.unique)]
  exact List.nil_append _

theorem Proper.resolve {combos : List Combo} (h : Proper combos) (model : Name) :
    resolveComboReference model (buildComboMap combos) = (buildComboMap combos).get? (target model) := by
  have hvalid {name : Name} {combo : Combo} (hget : (buildComboMap combos).get? name = some combo) :
      name ≠ [] ∧ name.contains '/' = false := by
    have hmem := Table.get?_mem hget
    rw [h.rows] at hmem
    rw [← Table.get?_key hget]
    exact validName_spec (h.valid combo hmem)
  unfold resolveComboReference
  cases hbase : baseName model with
  | none =>
    rw [target, hbase, Option.getD_none]
    cases (buildComboMap combos).get? model <;> rfl
  | some base =>
    rw [target, hbase, Option.getD_some]
    have hslash : model.contains '/' = true := by
      unfold baseName at hbase
      split at hbase
      · assumption
      · simp at hbase
    cases hdirect : (buildComboMap combos).get? model with
    | some direct => exact absurd hslash (by rw [(hvalid hdirect).2]; decide)
    | none =>
      dsimp only
      rw [Option.bind_some]
      split
      · rename_i hempty
        cases hget : (buildComboMap combos).get? base with
        | none => rfl
        | some combo => exact absurd (List.isEmpty_iff.1 hempty) (hvalid hget).1
      · rfl

theorem Proper.edge_iff {combos : List Combo} (h : Proper combos) {a b : Name} :
    (comboGraph (buildComboMap combos)).Edge a b ↔ Refers combos a b := by
  rw [Combos.edge_iff, h.rows]
  constructor
  · rintro ⟨combo, hcombo, hname, model, hmodel, other, hother, rfl⟩
    rw [h.resolve] at hother
    have hmem := Table.get?_mem hother
    rw [h.rows] at hmem
    exact ⟨combo, hcombo, hname, model, hmodel, (Table.get?_key hother).symm, other, hmem, rfl⟩
  · rintro ⟨combo, hcombo, hname, model, hmodel, htarget, other, hother, rfl⟩
    refine ⟨combo, hcombo, hname, model, hmodel, other, ?_, rfl⟩
    rw [h.resolve, htarget]
    apply Table.get?_of_mem
    rw [h.rows]
    exact hother

theorem Refers.mono {combos combos' : List Combo} {a b : Name}
    (hsub : ∀ combo ∈ combos, ∃ combo' ∈ combos', combo'.name = combo.name ∧ combo'.models = combo.models)
    (h : Refers combos a b) : Refers combos' a b := by
  obtain ⟨combo, hcombo, hname, model, hmodel, htarget, other, hother, hb⟩ := h
  obtain ⟨combo', hcombo', hname', hmodels'⟩ := hsub combo hcombo
  obtain ⟨other', hother', hb', -⟩ := hsub other hother
  exact ⟨combo', hcombo', hname'.trans hname, model, hmodels' ▸ hmodel, htarget, other', hother', hb'.trans hb⟩

/-! ### Saves -/

def AcyclicCombos (combos : List Combo) : Prop := (comboGraph (buildComboMap combos)).Acyclic

theorem validate_ok {name : Name} {models : List Name} {combos : List Combo}
    {currentId : Option Name} (h : validateComboAcyclic name models combos currentId = .ok ()) :
    ∃ candidate : Combo, candidate.name = name ∧ candidate.models = models ∧
      (comboGraph (buildComboMap
        ((combos.filter fun combo => some combo.id != currentId && combo.name != name) ++ [candidate]))).Safe name := by
  unfold validateComboAcyclic at h
  split at h
  · cases h
  · rename_i hname
    refine ⟨⟨currentId.getD "__pending_combo__".toList, name, models⟩, rfl, rfl, ?_⟩
    have hspec := (findComboCycle_spec ((combos.filter fun combo => some combo.id != currentId && combo.name != name) ++
      [⟨currentId.getD "__pending_combo__".toList, name, models⟩]) name).1
    dsimp only at h
    split at h
    · cases h
    · rename_i hnone
      simpa [hname] using hspec.1 hnone

theorem validate_name {name : Name} {models : List Name} {combos : List Combo}
    {currentId : Option Name}
    (h : validateComboAcyclic name models combos currentId = .ok ()) : name ≠ [] := by
  rintro rfl
  cases h

/-- **A save that is accepted brings no cycle.** -/
theorem acyclic_put {table : Table Combo.id} {combo : Combo} {currentId : Option Name}
    (hold : Proper table.rows)
    (hnew : Proper (table.put combo).rows) (hacyclic : AcyclicCombos table.rows)
    (hid : currentId = some combo.id ∨ (currentId = none ∧ table.get? combo.id = none))
    (h : validateComboAcyclic combo.name combo.models table.rows currentId = .ok ()) :
    AcyclicCombos (table.put combo).rows := by
  obtain ⟨candidate, hname, hmodels, hsafe⟩ := validate_ok h
  have hothers (other : Combo) : other ∈ table.rows.filter
      (fun row => some row.id != currentId && row.name != combo.name) ↔
        other ∈ (table.put combo).rows ∧ other.name ≠ combo.name := by
    simp only [List.mem_filter, Bool.and_eq_true, bne_iff_ne, Table.mem_put]
    constructor
    · rintro ⟨hmem, hne, hother⟩
      refine ⟨.inr ⟨hmem, ?_⟩, hother⟩
      rcases hid with rfl | ⟨-, hfresh⟩
      · simpa using hne
      · exact Table.get?_eq_none.1 hfresh other hmem
    · rintro ⟨rfl | ⟨hmem, hne⟩, hother⟩
      · exact absurd rfl hother
      · refine ⟨hmem, ?_, hother⟩
        rcases hid with rfl | ⟨rfl, -⟩
        · simpa using hne
        · simp
  have hcandidate : Proper (table.rows.filter (fun row => some row.id != currentId && row.name != combo.name) ++
      [candidate]) := by
    refine ⟨?_, ?_⟩
    · intro other hother
      rcases List.mem_append.1 hother with hother | hother
      · exact hold.valid other (List.mem_of_mem_filter hother)
      · rw [List.mem_singleton.1 hother, hname]
        exact hnew.valid combo (Table.mem_put_self table combo)
    · rw [List.map_append, List.nodup_append]
      refine ⟨hold.unique.sublist (List.filter_sublist.map _), by simp, ?_⟩
      intro a ha b hb hab
      obtain ⟨other, hother, rfl⟩ := List.mem_map.1 ha
      rw [List.map_singleton, List.mem_singleton, hname] at hb
      exact ((hothers other).1 hother).2 (hab.trans hb)
  refine hacyclic.of_safe (x := combo.name) (hsafe.mono ?_) ?_
  · intro a b hab
    rw [hcandidate.edge_iff]
    rw [hnew.edge_iff] at hab
    apply hab.mono
    intro other hother
    by_cases hsame : other.name = combo.name
    · have heq : other = combo := by
        have hinj := List.inj_on_of_nodup_map hnew.unique
        exact hinj hother (Table.mem_put_self table combo) hsame
      exact ⟨candidate, by simp, by rw [heq, hname], by rw [heq, hmodels]⟩
    · exact ⟨other, List.mem_append_left _ ((hothers other).2 ⟨hother, hsame⟩), rfl, rfl⟩
  · intro a b ha hb hab
    rw [hold.edge_iff]
    rw [hnew.edge_iff] at hab
    obtain ⟨row, hrow, rfl, model, hmodel, htarget, other, hother, rfl⟩ := hab
    have hrow' := List.mem_of_mem_filter ((hothers row).2 ⟨hrow, ha⟩)
    have hother' := List.mem_of_mem_filter ((hothers other).2 ⟨hother, hb⟩)
    exact ⟨row, hrow', rfl, model, hmodel, htarget, other, hother', rfl⟩

/-- A table whose combos have valid names, and contain no combo that contains itself. -/
structure Sound (table : ComboTable) : Prop where
  valid : ∀ combo ∈ table.getCombos, validName combo.name
  acyclic : AcyclicCombos table.getCombos

theorem Sound.proper {table : ComboTable} (h : Sound table) : Proper table.getCombos := ⟨h.valid, table.unique⟩

theorem Sound.write {table table' : ComboTable} {combo : Combo} {currentId : Option Name}
    (h : Sound table) (hvalid : validName combo.name)
    (hid : currentId = some combo.id ∨ (currentId = none ∧ table.combos.get? combo.id = none))
    (haccepted : validateComboAcyclic combo.name combo.models table.getCombos currentId = .ok ())
    (hwrite : table.write combo = .ok table') : Sound table' := by
  unfold ComboTable.write at hwrite
  split at hwrite
  · rename_i hunique
    rw [← Except.ok.inj hwrite]
    have hnames : ∀ row ∈ (table.combos.put combo).rows, validName row.name := by
      intro row hrow
      rcases Table.mem_put.1 hrow with rfl | ⟨hrow, -⟩
      · exact hvalid
      · exact h.valid row hrow
    exact ⟨hnames, acyclic_put h.proper ⟨hnames, hunique⟩ h.acyclic hid haccepted⟩
  · cases hwrite

theorem Sound.createCombo {table table' : ComboTable} {id name : Name} {models : List Name}
    (h : Sound table) (hcreate : createCombo table id name models = .ok table') : Sound table' := by
  unfold Combos.createCombo at hcreate
  split at hcreate
  · cases hcreate
  split at hcreate
  · cases hcreate
  rename_i hvalid
  split at hcreate
  · cases hcreate
  split at hcreate
  · cases hcreate
  rename_i haccepted
  split at hcreate
  · cases hcreate
  rename_i hfresh
  have hnone : table.combos.get? id = none := by simpa using hfresh
  exact h.write (by simpa using hvalid) (.inr ⟨rfl, hnone⟩) haccepted hcreate

theorem Sound.newName {table : ComboTable} {prev : Combo} {name : Option Name} (h : Sound table)
    (hprev : prev ∈ table.getCombos) (herror : name.bind (nameError table prev) = none)
    (hne : name.getD prev.name ≠ []) : validName (name.getD prev.name) := by
  cases name with
  | none => exact h.valid prev hprev
  | some given =>
    rw [Option.bind_some, nameError] at herror
    rw [Option.getD_some] at hne ⊢
    split at herror
    · rename_i hempty
      exact absurd (List.isEmpty_iff.1 hempty) hne
    split at herror
    · cases herror
    rename_i hvalid
    simpa using hvalid

theorem Sound.updateCombo {table table' : ComboTable} {id : Name} {name : Option Name}
    {models : Option (List Name)}
    (h : Sound table) (hupdate : updateCombo table id name models = .ok table') : Sound table' := by
  unfold Combos.updateCombo at hupdate
  split at hupdate
  · cases hupdate
  rename_i prev hprev
  split at hupdate
  · cases hupdate
  rename_i herror
  dsimp only at hupdate
  split at hupdate
  · cases hupdate
  rename_i haccepted
  exact h.write (h.newName (Table.get?_mem hprev) herror (validate_name haccepted)) (.inl rfl) haccepted hupdate

theorem Sound.deleteCombo {table : ComboTable} (h : Sound table)
    (id : Name) : Sound (deleteCombo table id) := by
  have hsub : ∀ combo ∈ (Combos.deleteCombo table id).getCombos, combo ∈ table.getCombos := fun combo hcombo =>
    (Table.mem_erase.1 hcombo).1
  have hproper : Proper (Combos.deleteCombo table id).getCombos :=
    ⟨fun combo hcombo => h.valid combo (hsub combo hcombo), (Combos.deleteCombo table id).unique⟩
  refine ⟨hproper.valid, fun a hloop => h.acyclic a (TransGen.mono ?_ _ _ hloop)⟩
  intro b c hbc
  rw [h.proper.edge_iff]
  rw [hproper.edge_iff] at hbc
  exact hbc.mono fun combo hcombo => ⟨combo, hsub combo hcombo, rfl, rfl⟩

theorem Sound.step {table : ComboTable} (h : Sound table)
    (save : Save) : Sound (Combos.step table save) := by
  cases save with
  | create id name models =>
    rw [Combos.step]
    cases hcreate : Combos.createCombo table id name models with
    | error error => exact h
    | ok table' => exact h.createCombo hcreate
  | update id name models =>
    rw [Combos.step]
    cases hupdate : Combos.updateCombo table id name models with
    | error error => exact h
    | ok table' => exact h.updateCombo hupdate
  | delete id => exact h.deleteCombo id

theorem Sound.run {table : ComboTable} (h : Sound table) (saves : List Save) :
    Sound (Lib.run Combos.step table saves) := by
  induction saves generalizing table with
  | nil => exact h
  | cons save saves ih => exact ih (h.step save)

theorem Sound.nested {table : ComboTable} (h : Sound table) {chain : List Name}
    (hchain : chain.IsChain (comboGraph (buildComboMap table.getCombos)).Edge) :
    chain.length ≤ table.getCombos.length + 1 := by
  have hnodup := h.acyclic.nodup hchain
  have hknown : chain.dropLast ⊆ table.getCombos.map (·.name) := by
    intro name hname
    rw [← h.proper.rows]
    exact Graph.mem_nodes hchain hname
  have hle := (List.subperm_of_subset (hnodup.sublist (List.dropLast_sublist chain)) hknown).length_le
  rw [List.length_map, List.length_dropLast] at hle
  omega

end TokenProxy.Combos
