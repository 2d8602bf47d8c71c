import Workflow.Document
import Workflow.Schema.Value

/-!
# Reading a node

The schema of one node: its id, its kind, its drawing data and the configuration that its kind asks for. Outdated
spellings are read as the current ones and reported.
-/

namespace Workflow

namespace Schema

/-- The keys of a node. -/
def nodeKeys : List String := ["id", "kind", "type", "config", "display"]

/-- The keys of drawing data. -/
def displayKeys : List String := ["x", "y", "width", "height", "label", "color", "icon", "collapsed"]

/-- The id of a node: a text with no blank at its ends that is neither empty nor reserved. -/
def nodeId (entries : List (Tree × Tree)) (place : Place) : Reading String :=
  let place := place.key "id"
  match Tree.field? "id" entries with
  | none => .bad .missingField place "node is missing its 'id'"
  | some (.str id) =>
    if isBlankText id || trimBlank id != id then
      .bad .invalidId place ("node id '" ++ id ++ "' must be non-empty and carry no surrounding whitespace")
    else if id ∈ reservedIds then
      .bad .reservedId place ("node id '" ++ id ++ "' is reserved by the target framework")
    else .good id
  | some other => .bad .invalidType place ("node id must be a string, found " ++ other.typeName)

/-- A kind, by its name. -/
def kindValue (t : Tree) (place : Place) : Reading NodeKind :=
  (textValue t place).andThen fun name =>
    match NodeKind.ofText? name with
    | some kind => .good kind
    | none =>
      .bad .unknownKind place
        ("unknown node kind '" ++ name ++ "' (expected one of: " ++ ", ".intercalate (NodeKind.all.map (·.text)) ++ ")")

/-- The kind of a node, under `kind` or under the outdated `type`. -/
def nodeKind (entries : List (Tree × Tree)) (place : Place) : Reading NodeKind :=
  match Tree.field? "kind" entries, Tree.field? "type" entries with
  | some kind, none => kindValue kind (place.key "kind")
  | some kind, some _ =>
    (kindValue kind (place.key "kind")).after
      [⟨.deprecatedField, place.key "type", "'type' is deprecated and ignored because 'kind' is set"⟩]
  | none, some outdated =>
    (kindValue outdated (place.key "type")).after
      [⟨.deprecatedField, place.key "type", "'type' is deprecated, use 'kind'"⟩]
  | none, none => .bad .missingField (place.key "kind") "required field 'kind' is missing"

/-- The drawing data of a node, kept as one value. -/
def display (entries : List (Tree × Tree)) (place : Place) : Reading (Option Json) :=
  optionalField entries "display" place fun value place =>
    (mapping value place).andThen fun fields =>
      Reading.after (keyIssues fields displayKeys place .unusedDisplay "display metadata") <|
        match value.toJson with
        | .ok v => .good v
        | .error refusal => .bad .invalidType place refusal.message

/-- The failure of a configuration that lacks a key. -/
def missingConfig {α : Type} (kind : NodeKind) (key : String) (place : Place) : Reading α :=
  .bad .missingConfig (place.key key) ("a " ++ kind.text ++ " node requires config." ++ key)

/-- A text that a configuration has to hold. -/
def configText (kind : NodeKind) (config : List (Tree × Tree)) (key : String) (place : Place) : Reading String :=
  match Tree.field? key config with
  | none => missingConfig kind key place
  | some value => textValue value (place.key key)

/-- The type of an input: null for any type, or the name of a type. -/
def inputType (t : Tree) (place : Place) : Reading FieldType :=
  match t with
  | .null => .good .any
  | .str s =>
    match FieldType.ofText? s with
    | some type => .good type
    | none =>
      .bad .invalidConfig place
        ("unknown input type '" ++ s ++ "' (expected one of: " ++ ", ".intercalate (FieldType.all.map (·.text)) ++ ")")
  | other => .bad .invalidType place ("input type must be a string, found " ++ other.typeName)

/-- An input with its type. -/
def input (place : Place) (entry : Tree × Tree) : Reading StateField :=
  match entry.1.text? with
  | none => .bad .invalidType place ("input names must be strings, found " ++ entry.1.typeName)
  | some name => (inputType entry.2 (place.key name)).map fun type => ⟨name, type⟩

/-- The configuration of a start node: its inputs, if it declares any. -/
def startSpec (config : List (Tree × Tree)) (place : Place) : Reading NodeSpec :=
  match Tree.field? "inputs" config with
  | none => .good (.start [])
  | some value =>
    if value.isNull then .good (.start [])
    else
      let place := place.key "inputs"
      (mapping value place).andThen fun inputs => (Reading.all (inputs.map (input place))).map .start

/-- The prompt of a call, under `prompt` or under the outdated `prompt_template`. -/
def prompt (config : List (Tree × Tree)) (place : Place) : Reading String :=
  match Tree.field? "prompt" config, Tree.field? "prompt_template" config with
  | some value, none => textValue value (place.key "prompt")
  | some value, some _ =>
    (textValue value (place.key "prompt")).after
      [⟨.deprecatedField, place.key "prompt_template",
        "'prompt_template' is deprecated and ignored because 'prompt' is set"⟩]
  | none, some outdated =>
    (textValue outdated (place.key "prompt_template")).after
      [⟨.deprecatedField, place.key "prompt_template", "'prompt_template' is deprecated, use 'prompt'"⟩]
  | none, none => missingConfig .llmCall "prompt" place

/-- The issue of a temperature that is no number from zero to two. -/
def temperatureIssues (t : Option Double) (place : Place) : List Issue :=
  match t with
  | none => []
  | some x =>
    if x.within 2 then []
    else [⟨.invalidConfig, place.key "temperature", "temperature " ++ x.text .prose ++ " is outside 0.0..=2.0"⟩]

/-- The configuration of a node that calls a language model. -/
def llmCallSpec (config : List (Tree × Tree)) (place : Place) : Reading NodeSpec :=
  let prompt := prompt config place
  let system := optionalText config "system" place
  let model := optionalText config "model" place
  let temperature := optionalField config "temperature" place numberValue
  let outputKey := optionalText config "output_key" place
  let outside := temperatureIssues temperature.value.join place
  { value :=
      if outside.isEmpty then do
        return .llmCall
          { prompt := ← prompt.value
            system := ← system.value
            model := ← model.value
            temperature := ← temperature.value
            outputKey := ← outputKey.value }
      else none
    issues :=
      prompt.issues ++ system.issues ++ model.issues ++ temperature.issues ++ outputKey.issues ++ outside }

/-- The configuration of a node that calls a tool. -/
def toolCallSpec (config : List (Tree × Tree)) (place : Place) : Reading NodeSpec :=
  let tool := configText .toolCall config "tool" place
  let arguments := optionalField config "arguments" place fun value place =>
    (mapping value place).andThen fun entries => configEntries entries place
  let outputKey := optionalText config "output_key" place
  { value := do
      return .toolCall
        { tool := ← tool.value
          arguments := (← arguments.value).getD []
          outputKey := ← outputKey.value }
    issues := tool.issues ++ arguments.issues ++ outputKey.issues }

/-- The labels that occur more than once, each where it occurs for the second time. -/
def repeatedLabels (labels : List String) : List String :=
  labels.zipIdx.filterMap fun e => if (labels.take e.2).count e.1 = 1 then some e.1 else none

/-- The outcomes of a branching node: at least two, and no two alike. -/
def branchLabels (t : Tree) (place : Place) : Reading (List String) :=
  (textList t place).andThen fun labels =>
    let repeated := repeatedLabels labels
    if labels.length < 2 then
      .bad .invalidConfig place
        ("a conditional-branch node needs at least two labeled outcomes, found " ++ toString labels.length)
    else if repeated.isEmpty then .good labels
    else .bad .invalidConfig place ("branch labels must be distinct, repeated: " ++ ", ".intercalate repeated)

/-- The configuration of a branching node. -/
def branchSpec (config : List (Tree × Tree)) (place : Place) : Reading NodeSpec :=
  let on := configText .conditionalBranch config "on" place
  let branches :=
    match Tree.field? "branches" config with
    | none => missingConfig .conditionalBranch "branches" place
    | some value => branchLabels value (place.key "branches")
  { value := do return .conditionalBranch ⟨← on.value, ← branches.value⟩
    issues := on.issues ++ branches.issues }

/-- The configuration of a transforming node: at least one state key with its value. -/
def transformSpec (config : List (Tree × Tree)) (place : Place) : Reading NodeSpec :=
  match Tree.field? "assign" config with
  | none => missingConfig .transform "assign" place
  | some value =>
    let place := place.key "assign"
    (mapping value place).andThen fun entries =>
      if entries.isEmpty then .bad .invalidConfig place "a transform node must assign at least one state key"
      else (configEntries entries place).map .transform

/-- The configuration of an end node: its outputs, if it declares any. -/
def finishSpec (config : List (Tree × Tree)) (place : Place) : Reading NodeSpec :=
  (optionalField config "outputs" place textList).map fun outputs => .finish (outputs.getD [])

/-- The configuration of a node of a given kind. -/
def spec (kind : NodeKind) (config : List (Tree × Tree)) (place : Place) : Reading NodeSpec :=
  Reading.after
    (keyIssues config kind.configKeys place .unusedConfig ("config key for a " ++ kind.text ++ " node")) <|
    match kind with
    | .start => startSpec config place
    | .llmCall => llmCallSpec config place
    | .toolCall => toolCallSpec config place
    | .conditionalBranch => branchSpec config place
    | .transform => transformSpec config place
    | .finish => finishSpec config place

/-- The configuration mapping of a node, empty if the node has none. -/
def configMapping (entries : List (Tree × Tree)) (place : Place) : Reading (List (Tree × Tree)) :=
  (optionalField entries "config" place mapping).map (·.getD [])

/-- A node. -/
def node (t : Tree) (place : Place) : Reading Node :=
  (mapping t place).andThen fun entries =>
    let id := nodeId entries place
    let kind := nodeKind entries place
    let display := display entries place
    let config := configMapping entries place
    let spec : Reading NodeSpec :=
      match kind.value, config.value with
      | some k, some c => spec k c (place.key "config")
      | _, _ => ⟨none, []⟩
    { value := do return { id := ← id.value, spec := ← spec.value, display := ← display.value }
      issues :=
        keyIssues entries nodeKeys place .unknownField "node field" ++ id.issues ++ kind.issues ++ display.issues ++
          config.issues ++ spec.issues }

end Schema

end Workflow
