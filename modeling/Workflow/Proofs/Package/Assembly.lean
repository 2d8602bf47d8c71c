import Mathlib
import Workflow.Proofs.Package.Readback

/-!
# The statements of a package's own files

The statements of the file that assembles the graph, from its imports to its last line (`statementsOf?_assemblyLines`), and of the
file that gathers the node modules (`statementsOf?_nodeIndexLines`). Comments are none, whatever they hold.
-/

namespace Workflow

open Call LexMode

/-- The statements of a source are read in its text. -/
theorem statementsOf?_renderLines {lines : List Line} {statements : List (List Lexeme)} (h : States lines statements) :
    statementsOf? (renderLines lines) = some statements := by
  have hend : statements? [] [[]] = some [] := rfl
  rw [statementsOf?, lines_renderLines, h, hend, Option.map_some, List.append_nil]

/-! ## Labels in a row -/

/-- The lexemes of texts in a row. -/
def rowLexemes (labels : List String) : List Lexeme := (labels.map Lexeme.text).intersperse (.mark ',')

/-- Literals in a row read as their texts in a row. -/
theorem scan_row (labels : List String) :
    between.scan (", ".intercalate (labels.map stringLiteral)).toList = some (rowLexemes labels, between) := by
  induction labels with
  | nil => rfl
  | cons label labels ih =>
    cases labels with
    | nil =>
      rw [List.map_singleton, String.intercalate_singleton]
      exact scan_stringLiteral label
    | cons next labels =>
      have hcomma : between.scan ", ".toList = some ([.mark ','], between) := rfl
      rw [List.map_cons, List.map_cons, String.intercalate_cons_cons]
      exact scan_append_string (scan_append_string (scan_stringLiteral label) hcomma) ih

/-- Texts in a row leave the brackets as they are. -/
theorem nesting_row (depth : Nat) (labels : List String) : nesting depth (rowLexemes labels) = depth := by
  induction labels with
  | nil => rfl
  | cons label labels ih =>
    cases labels with
    | nil => rfl
    | cons next labels => exact ih

theorem nesting_append (depth : Nat) (first second : List Lexeme) :
    nesting depth (first ++ second) = nesting (nesting depth first) second := List.foldl_append

namespace Package

variable {g : Graph} {l : Layout} {options : Options}

/-- The comment at the head of a file is no statement. -/
theorem states_header {what : String} (hwhat : OneLine what) : States (header g options what) [] := by
  have hversion : OneLine options.framework.text := by cases options.framework <;> decide
  have hgenerated : "# Generated by flowc (framework API " ++ options.framework.text ++ "). Do not edit by hand." =
      "# " ++ ("Generated by flowc (framework API " ++ (options.framework.text ++ "). Do not edit by hand.")) := by
    rw [String.append_assoc, ← String.append_assoc]
    rfl
  rw [header]
  split
  · rw [hgenerated]
    simp only [String.append_assoc]
    refine (states_comment ?_).append ((states_comment ?_).append states_blankLine)
    · exact hwhat.append (OneLine.append (by decide) ((oneLine_foldBlank g.name).append (by decide)))
    · exact OneLine.append (by decide) (hversion.append (by decide))
  · exact states_nil

/-! ## Imports -/

/-- The statement that imports a name from the directory of the file. -/
def siblingImport (name : String) : List Lexeme := [.name "from", .mark '.', .name "import", .name name]

/-- The statement that imports what a version of the framework has to offer. -/
def frameworkImport : FrameworkVersion → List Lexeme
  | .newer =>
    [.name "from", .name "langgraph", .mark '.', .name "graph", .name "import", .name "END", .mark ',', .name "START", .mark ',',
      .name "StateGraph"]
  | .older => [.name "from", .name "langgraph", .mark '.', .name "graph", .name "import", .name "StateGraph"]

/-- The statements that import what the file needs. -/
def importStatements (g : Graph) (l : Layout) (framework : FrameworkVersion) : List (List Lexeme) :=
  (if g.branchTables.isEmpty then ([] : List (List Lexeme))
    else [[.name "from", .name "typing", .name "import", .name "Literal"]]) ++
    ([frameworkImport framework, siblingImport "nodes",
      [.name "from", .mark '.', .name "state", .name "import", .name l.stateClass]] : List (List Lexeme))

/-- A line that imports a name from the directory of the file. -/
theorem states_siblingImport {name : String} (h : IsNameText name) :
    States [top ("from . import " ++ name)] [siblingImport name] := by
  have hopen : between.scan "from . import ".toList = some ([.name "from", .mark '.', .name "import"], between) := rfl
  have hlast : (LexMode.name name.toList).finish = some [.name name] := by rw [LexMode.finish, String.ofList_toList]
  exact states_statement (OneLine.append (by decide) h.oneLine) (scan_append_string hopen (scan_nameText h)) hlast rfl rfl
    (List.cons_ne_nil _ _)

theorem states_assemblyImports (h : IsNameText l.stateClass) :
    States (assemblyImports g l options) (importStatements g l options.framework) := by
  have htyping : States [top "from typing import Literal"] [[.name "from", .name "typing", .name "import", .name "Literal"]] := by
    have hscan : between.scan "from typing import Literal".toList =
        some ([.name "from", .name "typing", .name "import"], name "Literal".toList) := rfl
    have hlast : (name "Literal".toList).finish = some [.name "Literal"] := rfl
    exact states_statement (by decide) hscan hlast rfl rfl (List.cons_ne_nil _ _)
  have hstate : States [top ("from .state import " ++ l.stateClass)]
      [[.name "from", .mark '.', .name "state", .name "import", .name l.stateClass]] := by
    have hopen : between.scan "from .state import ".toList =
        some ([.name "from", .mark '.', .name "state", .name "import"], between) := rfl
    have hlast : (name l.stateClass.toList).finish = some [.name l.stateClass] := by rw [LexMode.finish, String.ofList_toList]
    exact states_statement (OneLine.append (by decide) h.oneLine) (scan_append_string hopen (scan_nameText h)) hlast rfl rfl
      (List.cons_ne_nil _ _)
  have hnodes : States [top "from . import nodes"] [siblingImport "nodes"] := by
    have hscan : between.scan "from . import nodes".toList =
        some ([.name "from", .mark '.', .name "import"], name "nodes".toList) := rfl
    have hlast : (name "nodes".toList).finish = some [.name "nodes"] := rfl
    exact states_statement (by decide) hscan hlast rfl rfl (List.cons_ne_nil _ _)
  have hall : ∀ text framework, States [top text] [frameworkImport framework] →
      States ((if g.branchTables.isEmpty then [] else [top "from typing import Literal", blankLine]) ++
        [top text, blankLine, top "from . import nodes", top ("from .state import " ++ l.stateClass)])
        (importStatements g l framework) := by
    intro text framework hframework
    rw [importStatements]
    refine States.append ?_ (hframework.append (states_blankLine.append (hnodes.append hstate)))
    split
    · exact states_nil
    · exact htyping.append states_blankLine
  have hlast : (name "StateGraph".toList).finish = some [.name "StateGraph"] := rfl
  rw [assemblyImports]
  cases options.framework with
  | newer =>
    have hscan : between.scan "from langgraph.graph import END, START, StateGraph".toList =
        some ([.name "from", .name "langgraph", .mark '.', .name "graph", .name "import", .name "END", .mark ',', .name "START",
          .mark ','], name "StateGraph".toList) := rfl
    exact hall _ .newer (states_statement (by decide) hscan hlast rfl rfl (List.cons_ne_nil _ _))
  | older =>
    have hscan : between.scan "from langgraph.graph import StateGraph".toList =
        some ([.name "from", .name "langgraph", .mark '.', .name "graph", .name "import"], name "StateGraph".toList) := rfl
    exact hall _ .older (states_statement (by decide) hscan hlast rfl rfl (List.cons_ne_nil _ _))

/-! ## Routing functions -/

/-- The statement that a routing function begins with. -/
def routeHead (route stateClass : String) (labels : List String) : List Lexeme :=
  ([.name "def", .name route, .mark '(', .name "state", .mark ':', .name stateClass, .mark ')', .mark '-', .mark '>',
    .name "Literal", .mark '['] : List Lexeme) ++ rowLexemes labels ++ ([.mark ']', .mark ':'] : List Lexeme)

/-- The statement that asks whether a value is among the labels. -/
def routeTest (labels : List String) : List Lexeme :=
  ([.name "if", .name "value", .name "in", .mark '('] : List Lexeme) ++ rowLexemes labels ++
    ([.mark ')', .mark ':'] : List Lexeme)

/-- The statements of a routing function. -/
def routeStatements (l : Layout) (n : Node) (on : String) (t : BranchTable) : List (List Lexeme) :=
  [routeHead (routeFunction (l.slug t.node)) l.stateClass t.labels,
   [.name "value", .mark '=', .name "state", .mark '.', .name "get", .mark '(', .text on, .mark ')'],
   routeTest t.labels,
   [.name "return", .name "value"],
   [.name "raise", .name "ValueError", .mark '(', .text ("no branch of node '" ++ n.id ++ "' matches "), .mark '+', .name "repr",
     .mark '(', .name "value", .mark ')', .mark ')']]

/-- The statements of the routing function of a table, which belongs to a branching node. -/
def tableStatements (g : Graph) (l : Layout) (t : BranchTable) : List (List Lexeme) :=
  match g.nodes[t.node]? with
  | some n =>
    match n.spec with
    | .conditionalBranch b => routeStatements l n b.on t
    | _ => []
  | none => []

theorem oneLine_routeHead {route stateClass : String} (hroute : IsNameText route) (hstate : IsNameText stateClass) (t : BranchTable) :
    OneLine ("def " ++ route ++ "(state: " ++ stateClass ++ ") -> Literal[" ++ labelRow t ++ "]:") :=
  (((((OneLine.append (by decide) hroute.oneLine).append (by decide)).append hstate.oneLine).append (by decide)).append
    (oneLine_labelRow t)).append (by decide)

theorem oneLine_routeTest (t : BranchTable) : OneLine ("if value in (" ++ labelRow t ++ "):") :=
  (OneLine.append (by decide) (oneLine_labelRow t)).append (by decide)

theorem states_routeHead {route stateClass : String} (hroute : IsNameText route) (hstate : IsNameText stateClass) (t : BranchTable) :
    States [top ("def " ++ route ++ "(state: " ++ stateClass ++ ") -> Literal[" ++ labelRow t ++ "]:")]
      [routeHead route stateClass t.labels] := by
  have hdef : between.scan "def ".toList = some ([.name "def"], between) := rfl
  have hparameter : (name route.toList).scan "(state: ".toList =
      some ([.name route, .mark '(', .name "state", .mark ':'], between) := scan_leave route rfl rfl
  have harrow : (name stateClass.toList).scan ") -> Literal[".toList =
      some ([.name stateClass, .mark ')', .mark '-', .mark '>', .name "Literal", .mark '['], between) :=
    scan_leave stateClass rfl rfl
  have hclose : between.scan "]:".toList = some ([.mark ']', .mark ':'], between) := rfl
  have hscan := scan_append_string (scan_append_string (scan_append_string (scan_append_string (scan_append_string
    (scan_append_string hdef (scan_nameText hroute)) hparameter) (scan_nameText hstate)) harrow) (scan_row t.labels)) hclose
  refine states_statement (oneLine_routeHead hroute hstate t) hscan (rfl : between.finish = some []) (by simp [routeHead]) ?_
    (List.cons_ne_nil _ _)
  rw [routeHead, nesting_append, nesting_append, nesting_row]
  rfl

theorem states_routeTest (t : BranchTable) : States [inner ("if value in (" ++ labelRow t ++ "):")] [routeTest t.labels] := by
  have hopen : between.scan "if value in (".toList =
      some ([.name "if", .name "value", .name "in", .mark '('], between) := rfl
  have hclose : between.scan "):".toList = some ([.mark ')', .mark ':'], between) := rfl
  have hscan := scan_append_string (scan_append_string hopen (scan_row t.labels)) hclose
  refine states_statement (oneLine_routeTest t) hscan (rfl : between.finish = some []) (by simp [routeTest]) ?_
    (List.cons_ne_nil _ _)
  rw [routeTest, nesting_append, nesting_append, nesting_row]
  rfl

theorem states_routeValue (on : String) : States [inner ("value = state.get(" ++ stringLiteral on ++ ")")]
    [[.name "value", .mark '=', .name "state", .mark '.', .name "get", .mark '(', .text on, .mark ')']] := by
  have hopen : between.scan "value = state.get(".toList =
      some ([.name "value", .mark '=', .name "state", .mark '.', .name "get", .mark '('], between) := rfl
  have hclose : between.scan ")".toList = some ([.mark ')'], between) := rfl
  exact states_literal (by decide) (by decide) hopen hclose rfl rfl

theorem states_routeReturn : States [inner2 "return value"] [[.name "return", .name "value"]] := by
  have hscan : between.scan "return value".toList = some ([.name "return"], name "value".toList) := rfl
  have hlast : (name "value".toList).finish = some [.name "value"] := rfl
  exact states_statement (by decide) hscan hlast rfl rfl (List.cons_ne_nil _ _)

theorem states_routeRaise (text : String) : States [inner ("raise ValueError(" ++ stringLiteral text ++ " + repr(value))")]
    [[.name "raise", .name "ValueError", .mark '(', .text text, .mark '+', .name "repr", .mark '(', .name "value", .mark ')',
      .mark ')']] := by
  have hopen : between.scan "raise ValueError(".toList = some ([.name "raise", .name "ValueError", .mark '('], between) := rfl
  have hclose : between.scan " + repr(value))".toList =
      some ([.mark '+', .name "repr", .mark '(', .name "value", .mark ')', .mark ')'], between) := rfl
  exact states_literal (by decide) (by decide) hopen hclose rfl rfl

theorem states_routeLines {n : Node} {on : String} {t : BranchTable} (hslug : isIdentifier (l.slug t.node) = true)
    (hstate : IsNameText l.stateClass) : States (routeLines l n on t) (routeStatements l n on t) := by
  have hroute : IsNameText (routeFunction (l.slug t.node)) := (isIdentifier_iff.mp (isIdentifier_routeFunction hslug)).1
  exact states_blankLine.append (states_blankLine.append ((states_routeHead hroute hstate t).append
    ((states_routeValue on).append ((states_routeTest t).append (states_routeReturn.append (states_routeRaise _))))))

theorem states_tableLines {t : BranchTable} (hslug : isIdentifier (l.slug t.node) = true) (hstate : IsNameText l.stateClass) :
    States (tableLines g l t) (tableStatements g l t) := by
  rw [tableLines, tableStatements]
  cases hn : g.nodes[t.node]? with
  | none => exact states_nil
  | some n =>
    cases hspec : n.spec with
    | conditionalBranch b =>
      simp only [hspec]
      exact states_routeLines hslug hstate
    | _ =>
      simp only [hspec]
      exact states_nil

/-! ## The file that assembles the graph -/

/-- The statement that begins the function which builds the graph. -/
def buildHead : List Lexeme :=
  [.name "def", .name "build_graph", .mark '(', .mark ')', .mark '-', .mark '>', .name "StateGraph", .mark ':']

/-- The last statement of the file. -/
def compileStatement : List Lexeme :=
  [.name "graph", .mark '=', .name "build_graph", .mark '(', .mark ')', .mark '.', .name "compile", .mark '(', .mark ')']

/-- The statements of the file that assembles the graph. -/
def assemblyStatements (g : Graph) (l : Layout) (framework : FrameworkVersion) : List (List Lexeme) :=
  importStatements g l framework ++ g.branchTables.flatMap (tableStatements g l) ++ [buildHead] ++
    ([builderStatement l.stateClass] ++ (g.calls l).map (Call.statement framework) ++ [returnStatement]) ++ [compileStatement]

variable {d : Document} {s : Nat}

/-- The statements of the file that assembles the graph of a document without issues. -/
theorem statementsOf?_assemblyLines (h : Build.issues d = []) :
    statementsOf? (renderLines (assemblyLines (Build.graphAt d s) (Layout.ofGraph (Build.graphAt d s) options) options)) =
      some (assemblyStatements (Build.graphAt d s) (Layout.ofGraph (Build.graphAt d s) options) options.framework) := by
  set g := Build.graphAt d s with hg
  set l := Layout.ofGraph g options with hl
  refine statementsOf?_renderLines ?_
  have htables : States (g.branchTables.flatMap (tableLines g l)) (g.branchTables.flatMap (tableStatements g l)) := by
    refine states_flatMap fun t ht => states_tableLines ?_ Layout.isNameText_stateClass
    obtain ⟨n, hn, -⟩ := ((Build.mem_branchTables h).mp ht).1
    exact Layout.isIdentifier_of_mem_slugs _ (Layout.slug_mem_slugs (List.getElem?_eq_some_iff.mp hn).1)
  have hhead : States [blankLine, blankLine, top "def build_graph() -> StateGraph:"] [buildHead] := by
    have hscan : between.scan "def build_graph() -> StateGraph:".toList = some (buildHead, between) := rfl
    have hdef : States [top "def build_graph() -> StateGraph:"] [buildHead] :=
      states_statement (by decide) hscan (rfl : between.finish = some []) rfl rfl (List.cons_ne_nil _ _)
    exact states_blankLine.append (states_blankLine.append hdef)
  have hcompile : States [blankLine, blankLine, top "graph = build_graph().compile()"] [compileStatement] := by
    have hscan : between.scan "graph = build_graph().compile()".toList = some (compileStatement, between) := rfl
    have hassign : States [top "graph = build_graph().compile()"] [compileStatement] :=
      states_statement (by decide) hscan (rfl : between.finish = some []) rfl rfl (List.cons_ne_nil _ _)
    exact states_blankLine.append (states_blankLine.append hassign)
  exact (((((states_header (by decide)).append (states_assemblyImports Layout.isNameText_stateClass)).append htables).append
    hhead).append (states_buildLines h)).append hcompile

/-! ## The file that gathers the node modules -/

/-- The statements of the file that gathers the node modules import them one by one. -/
theorem statementsOf?_nodeIndexLines (g : Graph) (options : Options) :
    statementsOf? (renderLines (nodeIndexLines g (Layout.ofGraph g options) options)) =
      some ((Layout.ofGraph g options).slugs.map siblingImport) := by
  refine statementsOf?_renderLines ((states_header (by decide)).append (states_map fun slug hslug => ?_))
  exact states_siblingImport (isIdentifier_iff.mp (Layout.isIdentifier_of_mem_slugs slug hslug)).1

end Package

end Workflow
