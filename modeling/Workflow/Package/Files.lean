import Workflow.Package.Layout
import Workflow.Package.Source
import Workflow.Text.Blank

/-!
# The files of a package, one by one

What each file of a generated package holds, line by line: the package's own file, the state, the runtime, the nodes.
The file that assembles the graph has a module of its own.
-/

namespace Workflow

namespace Package

/-- The comment at the head of a file that says what it is, and where it comes from. -/
def header (g : Graph) (options : Options) (what : String) : List Line :=
  if options.includeComments then
    [top ("# " ++ what ++ " for workflow '" ++ foldBlank g.name ++ "'."),
     top ("# Generated by flowc (framework API " ++ options.framework.text ++ "). Do not edit by hand."),
     blankLine]
  else []

/-- The comment that carries the description of the workflow. -/
def descriptionComment (g : Graph) (options : Options) : List Line :=
  match options.includeComments, g.description with
  | true, some description => [top ("# " ++ foldBlank description), blankLine]
  | _, _ => []

/-- The comment that names the node behind some lines. -/
def nodeComment (n : Node) (options : Options) (depth : Nat) : List Line :=
  if options.includeComments then
    [⟨depth, "# Source node '" ++ foldBlank n.id ++ "' (" ++ n.kind.text ++ ")."⟩]
  else []

/-- The file of the package itself. The names it exports are in order, for the class begins with a capital. -/
def packageLines (g : Graph) (l : Layout) (options : Options) : List Line :=
  header g options "Package entry point" ++ descriptionComment g options ++
    [top "from .graph import build_graph, graph",
     top ("from .state import " ++ l.stateClass),
     blankLine,
     top ("__all__ = [" ++ ", ".intercalate ([l.stateClass, "build_graph", "graph"].map stringLiteral) ++ "]")]

/-- Takes a field into the state: its type counts where none but `any` is known. -/
def mergeField (state : Keyed FieldType) (field : StateField) : Keyed FieldType :=
  match state.get? field.name with
  | none => state.put field.name field.type
  | some .any => state.put field.name field.type
  | some _ => state

/-- The state keys of all nodes with their types. -/
def stateSchema (g : Graph) : Keyed FieldType :=
  (g.nodes.flatMap (·.spec.stateFields)).foldl mergeField []

/-- The state as a class with an annotated name for each key. -/
def stateClassLines (l : Layout) (state : Keyed FieldType) : List Line :=
  top ("class " ++ l.stateClass ++ "(TypedDict, total=False):") ::
    (if state.isEmpty then [inner "pass"]
     else state.map fun (key, type) => inner (key ++ ": " ++ type.annotation))

/-- The state as a call, for keys that are no identifiers. -/
def stateCallLines (l : Layout) (state : Keyed FieldType) : List Line :=
  [top (l.stateClass ++ " = TypedDict("), inner (stringLiteral l.stateClass ++ ","), inner "\x7b"] ++
    (state.map fun (key, type) => inner2 (stringLiteral key ++ ": " ++ type.annotation ++ ",")) ++
    [inner "\x7d,", inner "total=False,", top ")"]

/-- The file of the state. -/
def stateLines (g : Graph) (l : Layout) (options : Options) : List Line :=
  let state := stateSchema g
  header g options "Shared state schema" ++
    [top (if state.any (·.2 == .any) then "from typing import Any, TypedDict" else "from typing import TypedDict"),
     blankLine, blankLine] ++
    (if state.keys.all isIdentifier then stateClassLines l state else stateCallLines l state)

/-- The lines of the runtime, which are the same in every package. -/
def runtimeBody : List String :=
  ["import re",
   "from typing import Any, Callable, Dict, Optional",
   "",
   "_PLACEHOLDER = re.compile(r\"\\\x7b([A-Za-z_][A-Za-z0-9_]*)\\\x7d\")",
   "",
   "_llm_handler: Optional[Callable[[dict, str, dict], Any]] = None",
   "_prompt_renderer: Optional[Callable[[dict, dict], str]] = None",
   "_tool_handlers: Dict[str, Callable[[dict, dict], Any]] = \x7b\x7d",
   "",
   "",
   "def register_llm(handler: Callable[[dict, str, dict], Any]) -> None:",
   "    \"\"\"Installs the callable that serves every llm-call node.\"\"\"",
   "    global _llm_handler",
   "    _llm_handler = handler",
   "",
   "",
   "def register_prompt_renderer(renderer: Callable[[dict, dict], str]) -> None:",
   "    global _prompt_renderer",
   "    _prompt_renderer = renderer",
   "",
   "",
   "def register_tool(name: str, handler: Callable[[dict, dict], Any]) -> None:",
   "    \"\"\"Installs the callable that serves tool-call nodes naming `name`.\"\"\"",
   "    _tool_handlers[name] = handler",
   "",
   "",
   "def render_prompt(config: dict, state: dict) -> str:",
   "    \"\"\"Fills `\x7bkey\x7d` placeholders of the prompt from state unless a renderer is registered.",
   "",
   "    Only identifier placeholders are replaced; any other braces are kept as written.",
   "    \"\"\"",
   "    if _prompt_renderer is not None:",
   "        return _prompt_renderer(config, state)",
   "    return _PLACEHOLDER.sub(lambda m: str(state.get(m.group(1), \"\")), str(config[\"prompt\"]))",
   "",
   "",
   "def call_llm(config: dict, prompt: str, state: dict) -> Any:",
   "    if _llm_handler is None:",
   "        raise RuntimeError(\"no LLM handler registered; call register_llm() first\")",
   "    return _llm_handler(config, prompt, state)",
   "",
   "",
   "def call_tool(name: str, arguments: dict, state: dict) -> Any:",
   "    handler = _tool_handlers.get(name)",
   "    if handler is None:",
   "        raise RuntimeError(f\"no handler registered for tool \x7bname!r\x7d\")",
   "    return handler(arguments, state)"]

/-- The file of the runtime. -/
def runtimeLines (g : Graph) (options : Options) : List Line :=
  header g options "Runtime hooks" ++ runtimeBody.map top

/-- The file that gathers the node modules. -/
def nodeIndexLines (g : Graph) (l : Layout) (options : Options) : List Line :=
  header g options "Node modules" ++ l.slugs.map fun slug => top ("from . import " ++ slug)

/-- The imports of a node module before the state. -/
def nodeImports : NodeKind → List Line
  | .llmCall => [top "from ..runtime import call_llm, render_prompt"]
  | .toolCall => [top "from ..runtime import call_tool"]
  | _ => []

/-- The lines that give back the result of a call, under its key if it has one. -/
def resultLines (outputKey : Option String) (call : String) : List Line :=
  match outputKey with
  | some _ => [inner ("result = " ++ call), inner "return \x7bCONFIG[\"output_key\"]: result\x7d"]
  | none => [inner call, inner "return \x7b\x7d"]

/-- The body of the function that runs a node. -/
def runLines : NodeSpec → List Line
  | .start _ =>
    [inner "missing = [key for key in CONFIG[\"inputs\"] if key not in state]",
     inner "if missing:",
     inner2 "raise ValueError(\"missing workflow input(s): \" + \", \".join(missing))",
     inner "return \x7b\x7d"]
  | .llmCall call =>
    inner "prompt = render_prompt(CONFIG, dict(state))" ::
      resultLines call.outputKey "call_llm(CONFIG, prompt, dict(state))"
  | .toolCall call =>
    resultLines call.outputKey "call_tool(CONFIG[\"tool\"], copy.deepcopy(CONFIG[\"arguments\"]), dict(state))"
  | .conditionalBranch _ => [inner "return \x7b\x7d"]
  | .transform _ => [inner "return copy.deepcopy(CONFIG[\"assign\"])"]
  | .finish _ => [inner "return \x7b\x7d"]

/-- Whether a node module copies a value of its configuration. -/
def copies : NodeKind → Bool
  | .toolCall | .transform => true
  | _ => false

/-- The display value of a node as a literal. -/
def displayLiteral (n : Node) : String :=
  match n.display with
  | some v => literal 0 v
  | none => "None"

/-- The file of a node. -/
def nodeLines (g : Graph) (n : Node) (l : Layout) (options : Options) : List Line :=
  nodeComment n options 0 ++ header g options "Node module" ++
    (if copies n.kind then [top "import copy"] else []) ++
    [top "from typing import Any, Dict", blankLine] ++ nodeImports n.kind ++
    [top ("from ..state import " ++ l.stateClass),
     blankLine,
     top ("NODE_ID = " ++ stringLiteral n.id),
     top ("KIND = " ++ stringLiteral n.kind.text),
     top ("CONFIG = " ++ literal 0 n.spec.payload),
     top ("DISPLAY = " ++ displayLiteral n),
     blankLine,
     blankLine,
     top ("def run(state: " ++ l.stateClass ++ ") -> Dict[str, Any]:")] ++ runLines n.spec

end Package

end Workflow
