import TokenProxy.Lib.Text

/-!
# Names of MCP tools

A tool of an MCP server is sent as `mcp_<server>_<tool>`, and the server and the tool are read from
that name again. The parts of a name are told apart by underscores, which names have as well:
`parse_format_eq_iff` says which tools come back.
-/

namespace TokenProxy.Cursor

open Lib

abbrev Name := List Char

/-- `text || fallback` -/
def orElse (text : Name) (fallback : String) : Name := if text = [] then fallback.toList else text

/-- `toolName` becomes `mcp_custom_toolName`, and `mcp__server__tool` becomes `mcp_server_tool`. -/
def formatToolName (name : Name) : Name :=
  let base := orElse name "tool"
  if "mcp__".toList.isPrefixOf base then
    let rest := base.drop "mcp__".length
    match splitFirst "__".toList rest with
    | some (server, toolName) => "mcp_".toList ++ (orElse server "custom" ++ '_' :: orElse toolName "tool")
    | none => "mcp_custom_".toList ++ orElse rest "tool"
  else if "mcp_".toList.isPrefixOf base then base
  else "mcp_custom_".toList ++ base

structure ParsedName where
  serverName : Name
  selectedTool : Name
  deriving DecidableEq

def parseToolName (formattedName : Name) : ParsedName :=
  if "mcp_".toList.isPrefixOf formattedName then
    let tail := formattedName.drop "mcp_".length
    match splitFirst "_".toList tail with
    | some (server, tool) => ⟨orElse server "custom", orElse tool "tool"⟩
    | none => ⟨"custom".toList, orElse tail "tool"⟩
  else ⟨"custom".toList, orElse formattedName "tool"⟩

/-! ### Splitting at underscores -/

theorem splitFirst_underscore {server : Name} (h : '_' ∉ server) (tool : Name) :
    splitFirst "_".toList (server ++ '_' :: tool) = some (server, tool) := by
  induction server with
  | nil => simp [splitFirst]
  | cons c server ih =>
    rw [List.mem_cons, not_or] at h
    rw [List.cons_append, splitFirst, if_neg (by simp [h.1]), ih h.2, Option.map_some]

theorem splitFirst_underscores {server : Name} (h : '_' ∉ server) (tool : Name) :
    splitFirst "__".toList (server ++ '_' :: '_' :: tool) = some (server, tool) := by
  induction server with
  | nil => simp [splitFirst]
  | cons c server ih =>
    rw [List.mem_cons, not_or] at h
    rw [List.cons_append, splitFirst, if_neg (by simp [h.1]), ih h.2, Option.map_some]

theorem notMem_of_splitFirst {text server tool : Name} (h : splitFirst "_".toList text = some (server, tool)) :
    '_' ∉ server := by
  induction text generalizing server tool with
  | nil => simp [splitFirst] at h
  | cons c text ih =>
    rw [splitFirst] at h
    split at h
    · simp only [Option.some.injEq, Prod.mk.injEq] at h
      rw [← h.1]
      exact List.not_mem_nil
    · rename_i hc
      obtain ⟨⟨before, after⟩, hrest, heq⟩ := Option.map_eq_some_iff.1 h
      simp only [Prod.mk.injEq] at heq
      rw [← heq.1, List.mem_cons, not_or]
      refine ⟨?_, ih hrest⟩
      rintro rfl
      exact hc (by simp)

theorem orElse_ne_nil (text : Name) {fallback : String}
    (h : fallback.toList ≠ []) : orElse text fallback ≠ [] := by
  unfold orElse
  split
  · exact h
  · assumption

theorem orElse_of_ne_nil {text : Name} (h : text ≠ [])
    (fallback : String) : orElse text fallback = text := if_neg h

/-! ### What a parsed name is -/

theorem parseToolName_spec (name : Name) :
    (parseToolName name).serverName ≠ [] ∧ '_' ∉ (parseToolName name).serverName ∧ (parseToolName name).selectedTool ≠ [] := by
  have hcustom : "custom".toList ≠ [] ∧ '_' ∉ "custom".toList := by decide
  have htool : "tool".toList ≠ [] := by decide
  unfold parseToolName
  split
  · dsimp only
    split
    · rename_i server tool hsplit
      refine ⟨orElse_ne_nil _ hcustom.1, ?_, orElse_ne_nil _ htool⟩
      unfold orElse
      split
      · exact hcustom.2
      · exact notMem_of_splitFirst hsplit
    · exact ⟨hcustom.1, hcustom.2, orElse_ne_nil _ htool⟩
  · exact ⟨hcustom.1, hcustom.2, orElse_ne_nil _ htool⟩

/-- The tool `mcp__<server>__<tool>`. -/
def mcpTool (server tool : Name) : Name := "mcp__".toList ++ (server ++ '_' :: '_' :: tool)

/-- The parts of a name that come back: neither is empty, and the server has no underscore. -/
structure Separable (server tool : Name) : Prop where
  server_ne : server ≠ []
  underscore : '_' ∉ server
  tool_ne : tool ≠ []

theorem formatToolName_mcpTool {server tool : Name} (h : Separable server tool) :
    formatToolName (mcpTool server tool) = "mcp_".toList ++ (server ++ '_' :: tool) := by
  have hbase : orElse (mcpTool server tool) "tool" = mcpTool server tool := orElse_of_ne_nil (by simp [mcpTool]) _
  have hrest : (mcpTool server tool).drop "mcp__".length = server ++ '_' :: '_' :: tool :=
    List.drop_left' (by decide)
  have hmcp : "mcp__".toList.isPrefixOf (mcpTool server tool) := by simp [mcpTool]
  simp only [formatToolName, hbase, hmcp, hrest, if_true, splitFirst_underscores h.underscore,
    orElse_of_ne_nil h.server_ne, orElse_of_ne_nil h.tool_ne]

theorem parse_format {server tool : Name} (h : Separable server tool) :
    parseToolName (formatToolName (mcpTool server tool)) = ⟨server, tool⟩ := by
  have hmcp : "mcp_".toList.isPrefixOf ("mcp_".toList ++ (server ++ '_' :: tool)) := by simp
  have htail : ("mcp_".toList ++ (server ++ '_' :: tool)).drop "mcp_".length = server ++ '_' :: tool :=
    List.drop_left' (by decide)
  rw [formatToolName_mcpTool h]
  simp only [parseToolName, hmcp, htail, if_true, splitFirst_underscore h.underscore,
    orElse_of_ne_nil h.server_ne, orElse_of_ne_nil h.tool_ne]

/-- **Which tools come back.** Those of a server without underscores in its name, and tools that
come back are told apart. -/
theorem parse_format_eq_iff (server tool : Name) :
    (parseToolName (formatToolName (mcpTool server tool)) = ⟨server, tool⟩ ↔ Separable server tool) ∧
      ∀ server' tool', Separable server tool → Separable server' tool' →
        parseToolName (formatToolName (mcpTool server tool)) = parseToolName (formatToolName (mcpTool server' tool')) →
          server = server' ∧ tool = tool' := by
  refine ⟨⟨fun h => ?_, parse_format⟩, fun server' tool' h h' heq => ?_⟩
  · obtain ⟨hserver, hunderscore, htool⟩ := parseToolName_spec (formatToolName (mcpTool server tool))
    rw [h] at hserver hunderscore htool
    exact ⟨hserver, hunderscore, htool⟩
  · rw [parse_format h, parse_format h', ParsedName.mk.injEq] at heq
    exact heq

/-- The server `my_server` comes back as `my`, and its tool cannot be told from another server's. -/
theorem not_parse_format :
    ¬ ((∀ server tool, parseToolName (formatToolName (mcpTool server tool)) = ⟨server, tool⟩) ∧
      ∀ server tool server' tool', (server, tool) ≠ (server', tool') →
        parseToolName (formatToolName (mcpTool server tool)) ≠ parseToolName (formatToolName (mcpTool server' tool'))) ∧
      parseToolName (formatToolName (mcpTool "my_server".toList "find".toList)) = ⟨"my".toList, "server_find".toList⟩ ∧
      parseToolName (formatToolName (mcpTool "my".toList "server_find".toList)) = ⟨"my".toList, "server_find".toList⟩ := by
  have hfirst : parseToolName (formatToolName (mcpTool "my_server".toList "find".toList)) =
      ⟨"my".toList, "server_find".toList⟩ := by decide +kernel
  refine ⟨fun h => ?_, hfirst, by decide +kernel⟩
  have hback := h.1 "my_server".toList "find".toList
  rw [hfirst] at hback
  exact absurd hback (by decide)

end TokenProxy.Cursor
