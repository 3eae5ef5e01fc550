import TokenProxy.Cloaking.ToolNames
import Mathlib.Data.List.Induction
import Mathlib.Data.List.Forall2

/-!
# Cloaking is a consistent renaming

A declaration is renamed unless it is typed, and a tool use always is: the two agree on a body
(`ConsistentRenaming`) exactly if no tool use is of a typed tool and no typed tool bears the cloaked
name of another (`CloakFits`).
-/

namespace TokenProxy.Cloaking

open Lib

/-! ### Names -/

def Tool.cloakedName (tool : Tool) : String := (cloakTool tool).name

def Tool.custom (tool : Tool) : Bool := !tool.typed || tool.type = some "custom"

def Block.toolUse? : Block → Option String
  | .toolUse name _ => some name
  | .other _ => none

@[simp] theorem Block.toolUse?_toolUse (name rest : String) : (Block.toolUse name rest).toolUse? = some name := rfl

@[simp] theorem Block.toolUse?_other (rest : String) : (Block.other rest).toolUse? = none := rfl

def Message.toolUses (message : Message) : List String :=
  match message.content with
  | .text _ => []
  | .blocks blocks => blocks.filterMap Block.toolUse?

def Body.toolUses (body : Body) : List String := (body.messages.getD []).flatMap Message.toolUses

def Body.forced (body : Body) : Option String :=
  match body.toolChoice with
  | some (.tool name _) => some name
  | _ => none

theorem suffix_injective {a b : String} (h : suffix a = suffix b) : a = b := by
  have hlist : a.toList ++ claudeToolSuffix.toList = b.toList ++ claudeToolSuffix.toList := by
    rw [← String.toList_append, ← String.toList_append]
    exact congrArg String.toList h
  exact String.toList_inj.1 (List.append_cancel_right hlist)

theorem suffix_ne (name : String) : suffix name ≠ name := by
  intro h
  have hlength := congrArg (fun s => s.toList.length) h
  simp [suffix, claudeToolSuffix] at hlength

theorem suffix_notMem_decoyNames (name : String) : suffix name ∉ decoyNames := by
  have hdecoys : ∀ d ∈ decoyNames, ¬ claudeToolSuffix.toList <:+ d.toList := by decide +kernel
  intro h
  refine hdecoys _ h ⟨name.toList, ?_⟩
  rw [suffix, String.toList_append]

theorem cloakedName_typed {tool : Tool} (h : tool.typed = true) : tool.cloakedName = tool.name := by
  rw [Tool.cloakedName, cloakTool, if_pos h]

theorem cloakedName_untyped {tool : Tool} (h : tool.typed = false) :
    tool.cloakedName = suffix tool.name := by
  rw [Tool.cloakedName, cloakTool, if_neg (by rw [h]; exact Bool.false_ne_true)]

/-! ### The map -/

theorem lookup_toolNameMapOf (tools : List Tool) (name : String) :
    (∀ tool ∈ tools, tool.typed = false → name = suffix tool.name → (toolNameMapOf tools).lookup name = some tool.name) ∧
      ((∀ tool ∈ tools, tool.typed = false → name ≠ suffix tool.name) → (toolNameMapOf tools).lookup name = none) := by
  induction tools using List.reverseRecOn with
  | nil => exact ⟨(fun tool h => by cases h), fun _ => rfl⟩
  | append_singleton tools last ih =>
    have hmap : toolNameMapOf (tools ++ [last]) =
        if last.typed then toolNameMapOf tools else (toolNameMapOf tools).put (suffix last.name, last.name) := by
      rw [toolNameMapOf, List.foldl_append]
      rfl
    rw [hmap]
    cases hlast : last.typed with
    | true =>
      simp only [if_pos]
      refine ⟨fun tool htool huntyped hname => ?_, fun hnone => ih.2 fun tool htool => hnone tool (List.mem_append_left _ htool)⟩
      obtain htool | htool := List.mem_append.1 htool
      · exact ih.1 tool htool huntyped hname
      · obtain rfl := List.mem_singleton.1 htool
        rw [hlast] at huntyped
        cases huntyped
    | false =>
      simp only [Bool.false_eq_true, if_false]
      rw [Table.lookup_put]
      constructor
      · intro tool htool huntyped hname
        split
        · rename_i hsame
          rw [suffix_injective (hsame.symm.trans hname)]
        · rename_i hne
          obtain htool | htool := List.mem_append.1 htool
          · exact ih.1 tool htool huntyped hname
          · obtain rfl := List.mem_singleton.1 htool
            exact absurd hname hne
      · intro hnone
        rw [if_neg (hnone last (by simp) hlast)]
        exact ih.2 fun tool htool => hnone tool (List.mem_append_left _ htool)

theorem original_cloaked {tools : List Tool} {tool : Tool} (htool : tool ∈ tools)
    (h : tool.typed = false) :
    original (toolNameMapOf tools) (suffix tool.name) = tool.name := by
  rw [original, (lookup_toolNameMapOf tools _).1 tool htool h rfl]
  rfl

theorem original_other {tools : List Tool} {name : String}
    (h : ∀ tool ∈ tools, tool.typed = false → name ≠ suffix tool.name) :
    original (toolNameMapOf tools) name = name := by
  rw [original, (lookup_toolNameMapOf tools name).2 h]
  rfl

/-! ### Responses -/

def Response.names (r : Response) : List String :=
  match r.content, r.choices, r.output with
  | some content, _, _ => content.filterMap Block.toolUse?
  | none, some choices, _ => choices.flatMap fun choice => (choice.toolCalls.getD []).filterMap ToolCall.name
  | none, none, some output => output.filterMap OutputItem.name
  | none, none, none => []

def Block.unnamed : Block → Block
  | .toolUse _ rest => .toolUse "" rest
  | .other rest => .other rest

def Response.unnamed (r : Response) : Response :=
  match r.content, r.choices, r.output with
  | some content, _, _ => { r with content := some (content.map Block.unnamed) }
  | none, some choices, _ =>
    { r with
      choices := some (choices.map fun choice =>
        { choice with toolCalls := choice.toolCalls.map fun calls => calls.map fun call => { call with name := call.name.map fun _ => "" } }) }
  | none, none, some output => { r with output := some (output.map fun item => { item with name := item.name.map fun _ => "" }) }
  | none, none, none => r

theorem decloakName_eq {map : Dict String String} (h : original map "" = "") (name : Option String) :
    decloakName map name = name.map (original map) := by
  cases name with
  | none => rfl
  | some name =>
    rw [decloakName, Option.map_some, Option.map_some]
    split
    · rename_i hempty
      rw [hempty, h]
    · rfl

theorem filterMap_toolUse_decloak (map : Dict String String) (blocks : List Block) :
    (blocks.map (decloakBlock map)).filterMap Block.toolUse? = (blocks.filterMap Block.toolUse?).map (original map) := by
  induction blocks with
  | nil => rfl
  | cons block blocks ih => cases block <;> simp [decloakBlock, List.filterMap_cons, ih]

theorem decloakToolNames_some {map : Dict String String} (hrows : map.rows ≠ []) (hempty : original map "" = "") (r : Response) :
    (decloakToolNames r (some map)).names = r.names.map (original map) ∧
      (decloakToolNames r (some map)).unnamed = r.unnamed := by
  have hname : decloakName map = Option.map (original map) := funext (decloakName_eq hempty)
  simp only [decloakToolNames, if_neg hrows]
  obtain ⟨content, choices, output, rest⟩ := r
  cases content with
  | some content =>
    refine ⟨filterMap_toolUse_decloak map content, ?_⟩
    simp only [Response.unnamed, List.map_map]
    congr 2
    refine List.map_congr_left fun block _ => ?_
    cases block <;> rfl
  | none =>
    cases choices with
    | some choices =>
      refine ⟨?_, ?_⟩
      · simp only [Response.names, List.flatMap_map, List.map_flatMap]
        refine List.flatMap_congr fun choice _ => ?_
        cases hcalls : choice.toolCalls with
        | none => simp [decloakChoice, hcalls]
        | some calls =>
          simp only [decloakChoice, hcalls, Option.map_some, Option.getD_some, List.filterMap_map,
            List.map_filterMap, hname]
          rfl
      · simp only [Response.unnamed, List.map_map]
        congr 2
        refine List.map_congr_left fun choice _ => ?_
        cases hcalls : choice.toolCalls with
        | none => simp [decloakChoice, hcalls]
        | some calls => simp [decloakChoice, hcalls, hname, Function.comp_def]
    | none =>
      cases output with
      | some output =>
        refine ⟨?_, ?_⟩
        · simp only [Response.names, List.filterMap_map, List.map_filterMap, hname]
          rfl
        · simp [Response.unnamed, hname, Function.comp_def]
      | none => exact ⟨rfl, rfl⟩

/-! ### The renaming -/

/-- A name of a response goes back: the cloaked name of a tool to its
own, and any other to itself. -/
def Restores (tools : List Tool) (name name' : String) : Prop :=
  (∀ tool ∈ tools, name = tool.cloakedName → name' = tool.name) ∧ ((∀ tool ∈ tools, name ≠ tool.cloakedName) → name' = name)

structure ConsistentRenaming (body : Body) : Prop where
  distinct : (body.tools.map Tool.name).Nodup → (∀ tool ∈ body.tools, tool.custom = true → tool.name ∉ decoyNames) →
    ((cloakClaudeTools body).1.tools.map Tool.name).Nodup
  history : List.Forall₂ (fun name name' => ∀ tool ∈ body.tools, tool.name = name → name' = tool.cloakedName) body.toolUses
    (cloakClaudeTools body).1.toolUses
  choice : ∀ tool ∈ body.tools, body.forced = some tool.name → (cloakClaudeTools body).1.forced = some tool.cloakedName
  response : ∀ r, List.Forall₂ (Restores body.tools) (Response.names r) (decloakToolNames r (cloakClaudeTools body).2).names ∧
    (decloakToolNames r (cloakClaudeTools body).2).unnamed = r.unnamed

structure CloakFits (body : Body) : Prop where
  separate : ∀ tool ∈ body.tools, ∀ tool' ∈ body.tools, tool.typed = true → tool'.typed = false → tool.name ≠ suffix tool'.name
  history : ∀ tool ∈ body.tools, tool.name ∈ body.toolUses → tool.typed = false
  choice : ∀ tool ∈ body.tools, ∀ tool' ∈ body.tools, body.forced = some tool.name → tool'.name = tool.name → tool'.typed = tool.typed
  builtIn : (body.tools.map Tool.name).Nodup → (∀ tool ∈ body.tools, tool.custom = true → tool.name ∉ decoyNames) →
    ∀ tool ∈ body.tools, tool.typed = true → tool.name ∉ decoyNames

theorem toolUses_cloakMessage (message : Message) :
    (cloakMessage message).toolUses = message.toolUses.map suffix := by
  obtain ⟨content, rest⟩ := message
  cases content with
  | text text => rfl
  | blocks blocks =>
    simp only [cloakMessage, Message.toolUses]
    induction blocks with
    | nil => rfl
    | cons block blocks ih => cases block <;> simp [cloakBlock, List.filterMap_cons, ih]

theorem toolUses_cloak {body : Body} (h : body.tools ≠ []) :
    (cloakClaudeTools body).1.toolUses = body.toolUses.map suffix := by
  rw [cloakClaudeTools, if_neg h]
  cases hmessages : body.messages with
  | none => simp [Body.toolUses, hmessages]
  | some messages =>
    simp only [Body.toolUses, hmessages, Option.map_some, Option.getD_some, List.flatMap_map, List.map_flatMap]
    exact List.flatMap_congr fun message _ => toolUses_cloakMessage message

theorem forced_cloak {body : Body} (h : body.tools ≠ []) {name : String}
    (hforced : body.forced = some name) :
    (cloakClaudeTools body).1.forced =
      some (if body.tools.any fun tool => !tool.typed && tool.name = name then suffix name else name) := by
  rw [cloakClaudeTools, if_neg h]
  obtain ⟨tools, messages, choice, rest⟩ := body
  cases choice with
  | none => cases hforced
  | some choice =>
    cases choice with
    | other rest => cases hforced
    | tool name' rest =>
      cases hforced
      simp only [Body.forced, Option.map_some, cloakChoice]
      by_cases hany : (tools.any fun tool => !tool.typed && decide (tool.name = name)) = true
      · rw [if_pos hany, if_pos hany]
      · rw [if_neg hany, if_neg hany]

theorem names_cloak {body : Body} (h : body.tools ≠ []) :
    (cloakClaudeTools body).1.tools.map Tool.name = body.tools.map Tool.cloakedName ++ decoyNames := by
  rw [cloakClaudeTools, if_neg h]
  simp [Tool.cloakedName, decoyTools, Function.comp_def]

theorem original_empty (tools : List Tool) : original (toolNameMapOf tools) "" = "" := by
  refine original_other fun tool _ _ h => ?_
  have hlength := congrArg (fun s => s.toList.length) h
  simp [suffix, claudeToolSuffix] at hlength

theorem names_decloak {body : Body} (h : body.tools ≠ []) (r : Response) :
    (decloakToolNames r (cloakClaudeTools body).2).names = r.names.map (original (toolNameMapOf body.tools)) ∧
      (decloakToolNames r (cloakClaudeTools body).2).unnamed = r.unnamed := by
  rw [cloakClaudeTools, if_neg h]
  dsimp only
  split
  · rename_i hrows
    refine ⟨?_, rfl⟩
    have hidentity : original (toolNameMapOf body.tools) = id := by
      funext name
      rw [original, Table.lookup, Table.get?, hrows]
      rfl
    rw [hidentity, List.map_id]
    rfl
  · rename_i hrows
    exact decloakToolNames_some hrows (original_empty body.tools) r

theorem cloakedNames_nodup {body : Body} (hfits : CloakFits body)
    (hnodup : (body.tools.map Tool.name).Nodup) :
    (body.tools.map Tool.cloakedName).Nodup := by
  rw [List.Nodup, List.pairwise_map] at hnodup ⊢
  refine hnodup.imp_of_mem fun {tool tool'} htool htool' hne hsame => ?_
  cases h : tool.typed with
  | true =>
    cases h' : tool'.typed with
    | true => exact hne (by rw [← cloakedName_typed h, ← cloakedName_typed h', hsame])
    | false =>
      rw [cloakedName_typed h, cloakedName_untyped h'] at hsame
      exact hfits.separate tool htool tool' htool' h h' hsame
  | false =>
    cases h' : tool'.typed with
    | true =>
      rw [cloakedName_untyped h, cloakedName_typed h'] at hsame
      exact hfits.separate tool' htool' tool htool h' h hsame.symm
    | false =>
      rw [cloakedName_untyped h, cloakedName_untyped h'] at hsame
      exact hne (suffix_injective hsame)

theorem restores_original {body : Body} (hfits : CloakFits body) (name : String) :
    Restores body.tools name (original (toolNameMapOf body.tools) name) := by
  constructor
  · rintro tool htool rfl
    cases h : tool.typed with
    | false => rw [cloakedName_untyped h, original_cloaked htool h]
    | true =>
      rw [cloakedName_typed h]
      exact original_other fun tool' htool' h' => hfits.separate tool htool tool' htool' h h'
  · intro hother
    refine original_other fun tool htool huntyped => ?_
    rw [← cloakedName_untyped huntyped]
    exact hother tool htool

theorem forall₂_map_right {α β : Type} {R : α → β → Prop} {f : α → β} {l : List α}
    (h : ∀ x ∈ l, R x (f x)) :
    List.Forall₂ R l (l.map f) := by
  rw [List.forall₂_map_right_iff, List.forall₂_same]
  exact h

theorem consistent_of_fits {body : Body} (hfits : CloakFits body) : ConsistentRenaming body := by
  by_cases hempty : body.tools = []
  · have hsame : cloakClaudeTools body = (body, none) := by rw [cloakClaudeTools, if_pos hempty]
    refine ⟨fun h _ => ?_, ?_, fun tool htool => ?_, fun r => ?_⟩
    · rw [hsame]
      exact h
    · rw [hsame, List.forall₂_same]
      intro name _ tool htool
      rw [hempty] at htool
      cases htool
    · rw [hempty] at htool
      cases htool
    · rw [hsame]
      refine ⟨List.forall₂_same.2 fun name _ => ⟨fun tool htool => ?_, fun _ => rfl⟩, rfl⟩
      rw [hempty] at htool
      cases htool
  · refine ⟨fun hnodup hcustom => ?_, ?_, fun tool htool hforced => ?_, fun r => ?_⟩
    · rw [names_cloak hempty, List.nodup_append']
      refine ⟨cloakedNames_nodup hfits hnodup, by decide, ?_⟩
      rintro name hname hdecoy
      obtain ⟨tool, htool, rfl⟩ := List.mem_map.1 hname
      cases h : tool.typed with
      | true =>
        rw [cloakedName_typed h] at hdecoy
        exact hfits.builtIn hnodup hcustom tool htool h hdecoy
      | false =>
        rw [cloakedName_untyped h] at hdecoy
        exact suffix_notMem_decoyNames _ hdecoy
    · rw [toolUses_cloak hempty]
      refine forall₂_map_right fun name hname tool htool hsame => ?_
      subst hsame
      rw [cloakedName_untyped (hfits.history tool htool hname)]
    · rw [forced_cloak hempty hforced]
      cases h : tool.typed with
      | false =>
        have hany : (body.tools.any fun t => !t.typed && t.name = tool.name) = true :=
          List.any_eq_true.2 ⟨tool, htool, by simp [h]⟩
        rw [if_pos hany, cloakedName_untyped h]
      | true =>
        have hany : ¬ (body.tools.any fun t => !t.typed && t.name = tool.name) = true := by
          intro hany
          obtain ⟨tool', htool', hsame⟩ := List.any_eq_true.1 hany
          simp only [Bool.and_eq_true, Bool.not_eq_true', decide_eq_true_eq] at hsame
          rw [hfits.choice tool htool tool' htool' hforced hsame.2, h] at hsame
          exact Bool.noConfusion hsame.1
        rw [if_neg hany, cloakedName_typed h]
    · obtain ⟨hnames, hrest⟩ := names_decloak hempty r
      refine ⟨?_, hrest⟩
      rw [hnames]
      exact forall₂_map_right fun name _ => restores_original hfits name

theorem fits_of_consistent {body : Body} (h : ConsistentRenaming body) : CloakFits body := by
  have hnonempty : ∀ tool ∈ body.tools, body.tools ≠ [] := fun tool htool hempty => by
    rw [hempty] at htool
    cases htool
  refine ⟨fun tool htool tool' htool' htyped huntyped hsame => ?_, fun tool htool huse => ?_,
    fun tool htool tool' htool' hforced hname => ?_, fun hnodup hcustom tool htool htyped hdecoy => ?_⟩
  · -- a response that uses the typed tool is read as one of the other tool
    obtain ⟨hnames, -⟩ := h.response { content := some [.toolUse tool.name ""] }
    rw [(names_decloak (hnonempty tool htool) _).1] at hnames
    obtain ⟨⟨hback, -⟩, -⟩ := List.forall₂_cons.1 hnames
    have hone := hback tool htool (cloakedName_typed htyped).symm
    have htwo := hback tool' htool' (hsame.trans (cloakedName_untyped huntyped).symm)
    exact suffix_ne tool'.name (by rw [← hsame, ← hone, htwo])
  · cases htyped : tool.typed with
    | false => rfl
    | true =>
      have huses := h.history
      rw [toolUses_cloak (hnonempty tool htool), List.forall₂_map_right_iff, List.forall₂_same] at huses
      have hsame := huses tool.name huse tool htool rfl
      rw [cloakedName_typed htyped] at hsame
      exact absurd hsame (suffix_ne _)
  · have hone := h.choice tool htool hforced
    have htwo := h.choice tool' htool' (hname ▸ hforced)
    have hsame : tool.cloakedName = tool'.cloakedName := Option.some.inj (hone.symm.trans htwo)
    cases htyped : tool.typed with
    | true =>
      cases htyped' : tool'.typed with
      | true => rfl
      | false =>
        rw [cloakedName_typed htyped, cloakedName_untyped htyped', hname] at hsame
        exact absurd hsame.symm (suffix_ne _)
    | false =>
      cases htyped' : tool'.typed with
      | false => rfl
      | true =>
        rw [cloakedName_untyped htyped, cloakedName_typed htyped', hname] at hsame
        exact absurd hsame (suffix_ne _)
  · have hdistinct := h.distinct hnodup hcustom
    rw [names_cloak (hnonempty tool htool), List.nodup_append'] at hdistinct
    refine hdistinct.2.2 (List.mem_map.2 ⟨tool, htool, cloakedName_typed htyped⟩) hdecoy

/-- **Cloaking is a consistent renaming** exactly of the bodies that fit. -/
theorem cloaking_consistent_iff (body : Body) : ConsistentRenaming body ↔ CloakFits body :=
  ⟨fits_of_consistent, consistent_of_fits⟩

/-- A history that used the text editor, which is declared with its type. -/
def editedBody : Body where
  tools := [{ name := "str_replace_based_edit_tool", type := some "text_editor_20250728" }]
  messages := some [{ content := .blocks [.toolUse "str_replace_based_edit_tool" ""] }]

theorem editedBody_undeclared : ¬ ConsistentRenaming editedBody := by
  intro h
  have htyped := (fits_of_consistent h).history { name := "str_replace_based_edit_tool", type := some "text_editor_20250728" }
    (List.mem_singleton.2 rfl) (by decide)
  exact absurd htyped (by decide)

end TokenProxy.Cloaking
