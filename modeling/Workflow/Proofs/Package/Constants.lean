import Workflow.Proofs.Package.Assembly
import Workflow.Proofs.Package.Literal

/-!
# The constants of a node module

A node module assigns a literal to each of four names, and it assigns to each of them once: the id and the kind of its node, the
configuration, and the display value. They read back from the text of the module (`assignedValue?_nodeLines`).
-/

namespace Workflow

open Call LexMode

/-! ## Assignments -/

/-- What a statement assigns to a name, if it does. -/
def assignedTo? (name : String) : List Lexeme → Option (List Lexeme)
  | .name s :: .mark '=' :: rest => if s = name then some rest else none
  | _ => none

/-- The value of the literal that a source assigns to a name, if it assigns to that name once. -/
def assignedValue? (text name : String) : Option Json :=
  match (statementsOf? text).map (List.filterMap (assignedTo? name)) with
  | some [ls] => valueOf? ls
  | _ => none

/-- The names of the constants of a node module. -/
def constantNames : List String := ["NODE_ID", "KIND", "CONFIG", "DISPLAY"]

/-- Some lines assign to the names of constants as listed, and do not assign to them otherwise. -/
def Assigns (lines : List Line) (constants : List (String × Json)) : Prop :=
  ∃ statements, States lines statements ∧ ∀ name ∈ constantNames,
    (statements.filterMap (assignedTo? name)).map valueOf? = (constants.filter (·.1 == name)).map (some ·.2)

/-- Lines assign one after the other. -/
theorem Assigns.append {first second : List Line} {constants more : List (String × Json)} (h : Assigns first constants)
    (h' : Assigns second more) : Assigns (first ++ second) (constants ++ more) := by
  obtain ⟨statements, hstates, hvalues⟩ := h
  obtain ⟨statements', hstates', hvalues'⟩ := h'
  refine ⟨statements ++ statements', hstates.append hstates', fun name hname => ?_⟩
  rw [List.filterMap_append, List.map_append, List.filter_append, List.map_append, hvalues name hname, hvalues' name hname]

/-- A constant whose name is assigned to once has its value. -/
theorem assignedValue?_of_assigns {lines : List Line} {constants : List (String × Json)} {name : String} {v : Json}
    (h : Assigns lines constants) (hname : name ∈ constantNames) (honce : constants.filter (·.1 == name) = [(name, v)]) :
    assignedValue? (renderLines lines) name = some v := by
  obtain ⟨statements, hstates, hvalues⟩ := h
  have hvalue := hvalues name hname
  rw [honce, List.map_singleton] at hvalue
  obtain ⟨ls, hls, hread⟩ := List.map_eq_singleton_iff.mp hvalue
  rw [assignedValue?, statementsOf?_renderLines hstates, Option.map_some, hls]
  exact hread

/-! ## Lines that assign to no constant -/

/-- Lines of which no statement assigns to a constant. -/
theorem assigns_nil {lines : List Line} {statements : List (List Lexeme)} (h : States lines statements)
    (hnone : ∀ name ∈ constantNames, statements.filterMap (assignedTo? name) = []) : Assigns lines [] :=
  ⟨statements, h, fun name hname => by rw [hnone name hname, List.filter_nil, List.map_nil, List.map_nil]⟩

/-- Whether a text is on one line, is a statement at most, and assigns to no constant. -/
def isIdle (text : String) : Bool :=
  text.toList.all (· != '\n') &&
    match lexemes? text.toList with
    | some ls => nesting 0 ls == 0 && constantNames.all fun name => (assignedTo? name ls).isNone
    | none => false

/-- Lines with such texts assign to no constant. -/
theorem assigns_of_isIdle {lines : List Line} (h : (lines.all fun l => isIdle l.text) = true) : Assigns lines [] := by
  induction lines with
  | nil => exact assigns_nil states_nil fun _ _ => rfl
  | cons l lines ih =>
    rw [List.all_cons, Bool.and_eq_true] at h
    suffices hfirst : Assigns [l] [] from hfirst.append (ih h.2)
    obtain ⟨hline, hidle⟩ := Bool.and_eq_true_iff.mp h.1
    have hclean : OneLine l.text := fun hmem => by simpa using List.all_eq_true.mp hline _ hmem
    cases hscan : between.scan l.text.toList with
    | none => simp [lexemes?, hscan] at hidle
    | some out =>
      obtain ⟨ls, m⟩ := out
      cases hlast : m.finish with
      | none => simp [lexemes?, hscan, hlast] at hidle
      | some last =>
        rw [lexemes?_of_scan hscan hlast] at hidle
        simp only [Bool.and_eq_true, beq_iff_eq, List.all_eq_true, Option.isNone_iff_eq_none] at hidle
        by_cases hempty : ls ++ last = []
        · obtain ⟨rfl, rfl⟩ := List.append_eq_nil_iff.mp hempty
          exact assigns_nil (states_of_no_lexeme hclean hscan hlast) fun _ _ => rfl
        · refine assigns_nil (states_statement hclean hscan hlast rfl hidle.1 hempty) fun name hname => ?_
          rw [List.filterMap_cons_none (hidle.2 name hname), List.filterMap_nil]

/-! ## The module -/

/-- A constant and its literal. -/
theorem assigns_literal (name : String) (hname : name ∈ constantNames) (v : Json) :
    Assigns [top (name ++ " = " ++ literal 0 v)] [(name, v)] := by
  have hwording : ∀ name ∈ constantNames, OneLine (name ++ " = ") ∧
      between.scan (name ++ " = ").toList = some ([.name name, .mark '='], between) := by
    unfold constantNames
    repeat refine List.forall_mem_cons.mpr ⟨⟨by decide, rfl⟩, ?_⟩
    exact fun name hname => absurd hname List.not_mem_nil
  obtain ⟨hclean, hscan⟩ := hwording name hname
  obtain ⟨ls, hstates, hread⟩ := states_assignment hclean hscan rfl v
  refine ⟨_, hstates, fun other _ => ?_⟩
  have hassigned : assignedTo? other ([.name name, .mark '='] ++ ls) = if name = other then some ls else none := rfl
  have hlisted : [(name, v)].filter (·.1 == other) = if name = other then [(name, v)] else [] := by
    simp only [List.filter_cons, List.filter_nil, beq_iff_eq]
  rw [hlisted]
  split
  · next hsame =>
    rw [if_pos hsame] at hassigned
    rw [List.filterMap_cons_some hassigned, List.filterMap_nil, List.map_singleton, hread]
    rfl
  · next hother =>
    rw [if_neg hother] at hassigned
    rw [List.filterMap_cons_none hassigned]
    rfl

namespace Package

variable {g : Graph} {l : Layout} {options : Options}

/-- The constants of the module of a node. -/
def constants (n : Node) : List (String × Json) :=
  [("NODE_ID", .str n.id), ("KIND", .str n.kind.text), ("CONFIG", n.spec.payload), ("DISPLAY", n.display.getD .null)]

/-- The import of the state assigns to no constant. -/
theorem assigns_stateImport (h : IsNameText l.stateClass) : Assigns [top ("from ..state import " ++ l.stateClass)] [] := by
  have hopen : between.scan "from ..state import ".toList =
      some ([.name "from", .mark '.', .mark '.', .name "state", .name "import"], between) := rfl
  have hlast : (name l.stateClass.toList).finish = some [.name l.stateClass] := by rw [LexMode.finish, String.ofList_toList]
  exact assigns_nil (states_statement (OneLine.append (by decide) h.oneLine) (scan_append_string hopen (scan_nameText h)) hlast rfl
    rfl (List.cons_ne_nil _ _)) fun _ _ => rfl

/-- The head of the function that runs a node assigns to no constant. -/
theorem assigns_runHead (h : IsNameText l.stateClass) :
    Assigns [top ("def run(state: " ++ l.stateClass ++ ") -> Dict[str, Any]:")] [] := by
  have hopen : between.scan "def run(state: ".toList =
      some ([.name "def", .name "run", .mark '(', .name "state", .mark ':'], between) := rfl
  have hclose : (name l.stateClass.toList).scan ") -> Dict[str, Any]:".toList =
      some ([.name l.stateClass, .mark ')', .mark '-', .mark '>', .name "Dict", .mark '[', .name "str", .mark ',', .name "Any",
        .mark ']', .mark ':'], between) := scan_leave l.stateClass rfl rfl
  have hclean : OneLine ("def run(state: " ++ l.stateClass ++ ") -> Dict[str, Any]:") :=
    (OneLine.append (by decide) h.oneLine).append (by decide)
  have hscan := scan_append_string (scan_append_string hopen (scan_nameText h)) hclose
  exact assigns_nil (states_statement hclean hscan (rfl : between.finish = some []) rfl rfl (List.cons_ne_nil _ _)) fun _ _ => rfl

/-- What runs a node assigns to no constant. -/
theorem assigns_runLines (s : NodeSpec) : Assigns (runLines s) [] := by
  refine assigns_of_isIdle ?_
  cases s with
  | start inputs => rfl
  | llmCall call => cases hkey : call.outputKey <;> simp only [runLines, hkey, resultLines] <;> rfl
  | toolCall call => cases hkey : call.outputKey <;> simp only [runLines, hkey, resultLines] <;> rfl
  | conditionalBranch b => rfl
  | transform assign => rfl
  | finish outputs => rfl

/-- The module of a node assigns to its constants and to nothing else of their names. -/
theorem assigns_nodeLines (h : IsNameText l.stateClass) (n : Node) : Assigns (nodeLines g n l options) (constants n) := by
  have hcopy : Assigns (if copies n.kind then [top "import copy"] else []) [] := by
    cases copies n.kind <;> exact assigns_of_isIdle rfl
  have himports : Assigns (nodeImports n.kind) [] := by
    cases n.kind <;> exact assigns_of_isIdle rfl
  have hcomments : Assigns (nodeComment n options 0 ++ header g options "Node module") [] :=
    assigns_nil ((states_nodeComment n options 0).append (states_header (by decide))) fun _ _ => rfl
  have hdisplay : displayLiteral n = literal 0 (n.display.getD .null) := by
    rw [displayLiteral]
    cases n.display <;> rfl
  have hconstants : Assigns ([top ("NODE_ID = " ++ stringLiteral n.id)] ++ [top ("KIND = " ++ stringLiteral n.kind.text)] ++
      [top ("CONFIG = " ++ literal 0 n.spec.payload)] ++ [top ("DISPLAY = " ++ displayLiteral n)]) (constants n) := by
    rw [hdisplay]
    exact (((assigns_literal "NODE_ID" (by simp [constantNames]) (.str n.id)).append
      (assigns_literal "KIND" (by simp [constantNames]) (.str n.kind.text))).append
      (assigns_literal "CONFIG" (by simp [constantNames]) n.spec.payload)).append
      (assigns_literal "DISPLAY" (by simp [constantNames]) (n.display.getD .null))
  have hblank : Assigns [blankLine] [] := assigns_of_isIdle rfl
  have htyping : Assigns [top "from typing import Any, Dict", blankLine] [] := assigns_of_isIdle rfl
  have hall := (((((hcomments.append hcopy).append htyping).append himports).append
    (((((assigns_stateImport h).append hblank).append hconstants).append (hblank.append hblank)).append
      (assigns_runHead h))).append (assigns_runLines n.spec))
  simp only [List.append_assoc, List.nil_append, List.append_nil] at hall
  rw [nodeLines]
  simp only [List.append_assoc]
  exact hall

/-- The constants of a node read back from the text of its module. -/
theorem assignedValue?_nodeLines (h : IsNameText l.stateClass) (n : Node) {name : String} {v : Json}
    (hmem : (name, v) ∈ constants n) : assignedValue? (renderLines (nodeLines g n l options)) name = some v := by
  have hassigns : Assigns (nodeLines g n l options) (constants n) := assigns_nodeLines h n
  simp only [constants, List.mem_cons, Prod.mk.injEq, List.not_mem_nil, or_false] at hmem
  rcases hmem with ⟨rfl, rfl⟩ | ⟨rfl, rfl⟩ | ⟨rfl, rfl⟩ | ⟨rfl, rfl⟩ <;>
    exact assignedValue?_of_assigns hassigns (by simp [constantNames]) rfl

end Package

end Workflow
