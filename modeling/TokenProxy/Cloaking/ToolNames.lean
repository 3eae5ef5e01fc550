import TokenProxy.Lib.Table

/-!
# Cloaking of tool names

The client's tools are sent under names with a suffix, beside decoys that bear the names of native
tools; a response gets the original names back. `rest` is what is carried along unread: all other
fields of a value.
-/

namespace TokenProxy.Cloaking

open Lib

/-- `CLAUDE_TOOL_SUFFIX` -/
def claudeToolSuffix : String := "_ide"

/-! ### Requests -/

/-- A declared tool. `type` is there for a tool that is built in, or that says it is custom. -/
structure Tool where
  name : String
  type : Option String := none
  rest : String := ""
  deriving DecidableEq

inductive Block where
  | toolUse (name : String) (rest : String)
  | other (rest : String)
  deriving DecidableEq

inductive Content where
  | text (text : String)
  | blocks (blocks : List Block)
  deriving DecidableEq

structure Message where
  content : Content
  rest : String := ""
  deriving DecidableEq

inductive ToolChoice where
  | tool (name : String) (rest : String)
  | other (rest : String)
  deriving DecidableEq

structure Body where
  tools : List Tool := []
  messages : Option (List Message) := none
  toolChoice : Option ToolChoice := none
  rest : String := ""
  deriving DecidableEq

def Tool.typed (tool : Tool) : Bool := tool.type.any fun t => t ≠ ""

def suffix (name : String) : String := name ++ claudeToolSuffix

def decoyNames : List String :=
  ["Task", "TaskOutput", "TaskStop", "TaskCreate", "TaskGet", "TaskUpdate", "TaskList", "Bash", "Glob", "Grep", "Read", "Edit", "Write",
    "NotebookEdit", "WebFetch", "WebSearch", "AskUserQuestion", "Skill", "EnterPlanMode", "ExitPlanMode"]

/-- `CC_DECOY_TOOLS` -/
def decoyTools : List Tool :=
  decoyNames.map fun name =>
    { name := name, rest := "description: This tool is currently unavailable., input_schema: object without properties" }

/-- A client tool as it is declared upstream: a typed one keeps its name. -/
def cloakTool (tool : Tool) : Tool := if tool.typed then tool else { tool with name := suffix tool.name }

def cloakBlock : Block → Block
  | .toolUse name rest => .toolUse (suffix name) rest
  | .other rest => .other rest

def cloakMessage (message : Message) : Message :=
  match message.content with
  | .text _ => message
  | .blocks blocks => { message with content := .blocks (blocks.map cloakBlock) }

def toolNameMapOf (tools : List Tool) : Dict String String :=
  tools.foldl (fun map tool => if tool.typed then map else map.put (suffix tool.name, tool.name)) .empty

def cloakChoice (tools : List Tool) : ToolChoice → ToolChoice
  | .tool name rest =>
    if tools.any fun tool => !tool.typed && tool.name = name then .tool (suffix name) rest else .tool name rest
  | .other rest => .other rest

def cloakClaudeTools (body : Body) : Body × Option (Dict String String) :=
  if body.tools = [] then (body, none)
  else
    let toolNameMap := toolNameMapOf body.tools
    ({ body with
        tools := body.tools.map cloakTool ++ decoyTools
        messages := body.messages.map fun messages => messages.map cloakMessage
        toolChoice := body.toolChoice.map (cloakChoice body.tools) },
      if toolNameMap.rows = [] then none else some toolNameMap)

/-! ### Responses -/

structure ToolCall where
  name : Option String
  rest : String := ""
  deriving DecidableEq

/-- A choice; `toolCalls` is none if its message has no such array. -/
structure Choice where
  toolCalls : Option (List ToolCall)
  rest : String := ""
  deriving DecidableEq

structure OutputItem where
  name : Option String
  rest : String := ""
  deriving DecidableEq

structure Response where
  content : Option (List Block) := none
  choices : Option (List Choice) := none
  output : Option (List OutputItem) := none
  rest : String := ""
  deriving DecidableEq

/-- The original of a name, which is the name itself if the map does not have it. -/
def original (map : Dict String String) (name : String) : String := (map.lookup name).getD name

def decloakBlock (map : Dict String String) : Block → Block
  | .toolUse name rest => .toolUse (original map name) rest
  | .other rest => .other rest

def decloakName (map : Dict String String) (name : Option String) : Option String :=
  name.map fun name => if name = "" then name else original map name

def decloakChoice (map : Dict String String) (choice : Choice) : Choice :=
  { choice with
    toolCalls := choice.toolCalls.map fun calls => calls.map fun call => { call with name := decloakName map call.name } }

def decloakToolNames (body : Response) (toolNameMap : Option (Dict String String)) : Response :=
  match toolNameMap with
  | none => body
  | some map =>
    if map.rows = [] then body
    else
      match body.content, body.choices, body.output with
      | some content, _, _ => { body with content := some (content.map (decloakBlock map)) }
      | none, some choices, _ => { body with choices := some (choices.map (decloakChoice map)) }
      | none, none, some output =>
        { body with output := some (output.map fun item => { item with name := decloakName map item.name }) }
      | none, none, none => body

end TokenProxy.Cloaking
