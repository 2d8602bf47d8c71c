import Mathlib
import Workflow.Package.Generate
import Workflow.Proofs.Package.Statements

/-!
# What the function that builds the graph says

The statements of each piece of its body: of the lines that add a node, of the entry, of an edge, of a block of conditional edges, of
an end. A statement that makes a call is that call written out (`Call.statement`), and reads back as it (`ofStatement?_statement`).
-/

namespace Workflow

open Call LexMode

/-! ## Calls written out -/

/-- The lexemes of names with points between them. -/
def dotted : List String → List Lexeme
  | [] => []
  | [s] => [.name s]
  | s :: rest => .name s :: .mark '.' :: dotted rest

/-- The lexemes of an entry of a table. -/
def routeLexemes (r : String × String) : List Lexeme := [.text r.1, .mark ':', .text r.2, .mark ',']

namespace Call

/-- The lexemes of a call of a method of the builder. -/
def onBuilder (method : String) (arguments : List Lexeme) : List Lexeme :=
  ([.name "builder", .mark '.', .name method, .mark '('] : List Lexeme) ++ arguments ++ [Lexeme.mark ')']

/-- The statement that makes a call, written for a version of the framework. -/
def statement (framework : FrameworkVersion) : Call → List Lexeme
  | addNode id runner => onBuilder "add_node" ([.text id, .mark ','] ++ dotted runner)
  | entry id =>
    match framework with
    | .newer => onBuilder "add_edge" [.name "START", .mark ',', .text id]
    | .older => onBuilder "set_entry_point" [.text id]
  | addEdge source target => onBuilder "add_edge" [.text source, .mark ',', .text target]
  | addBranch id routing routes =>
    onBuilder "add_conditional_edges"
      (([.text id, .mark ',', .name routing, .mark ',', .mark '\x7b'] : List Lexeme) ++ routes.flatMap routeLexemes ++
        ([.mark '\x7d', .mark ','] : List Lexeme))
  | finish id =>
    match framework with
    | .newer => onBuilder "add_edge" [.text id, .mark ',', .name "END"]
    | .older => onBuilder "set_finish_point" [.text id]

/-- The entries of a table up to its closing bracket. -/
theorem routes?_routeLexemes (routes : List (String × String)) (rest : List Lexeme) :
    routes? (routes.flatMap routeLexemes ++ .mark '\x7d' :: rest) = some (routes, rest) := by
  induction routes with
  | nil => rfl
  | cons r routes ih =>
    rw [List.flatMap_cons, List.append_assoc]
    simp only [routeLexemes, List.cons_append, List.nil_append, routes?, ih, Option.map_some]

/-- A call written out reads back as that call, whichever version it is written for. -/
theorem ofStatement?_statement (framework : FrameworkVersion) {call : Call}
    (h : ∀ id runner, call = .addNode id runner → runner.length = 3) :
    ofStatement? (call.statement framework) = some [call] := by
  cases call with
  | addNode id runner =>
    obtain ⟨package, module, function, rfl⟩ := List.length_eq_three.mp (h id runner rfl)
    rfl
  | entry id => cases framework <;> rfl
  | addEdge source target => rfl
  | addBranch id routing routes =>
    have hroutes := routes?_routeLexemes routes [.mark ',', .mark ')']
    simp only [statement, onBuilder, List.append_assoc, List.cons_append, List.nil_append, ofStatement?, ofMethod?, hroutes,
      Option.map_some]
  | finish id => cases framework <;> rfl

end Call

namespace Package

/-- The comment that names a node is no statement. -/
theorem states_nodeComment (n : Node) (options : Options) (depth : Nat) : States (nodeComment n options depth) [] := by
  rw [nodeComment]
  split
  · have hassoc : "# Source node '" ++ foldBlank n.id ++ "' (" ++ n.kind.text ++ ")." =
        "# " ++ ("Source node '" ++ foldBlank n.id ++ "' (" ++ n.kind.text ++ ").") := by
      simp only [← String.append_assoc]
      rfl
    rw [hassoc]
    refine states_comment (OneLine.append (OneLine.append (OneLine.append (OneLine.append ?_ ?_) ?_) ?_) ?_)
    · decide
    · exact oneLine_foldBlank n.id
    · decide
    · cases n.kind <;> decide
    · decide
  · exact states_nil

/-! ## Statements on one line -/

/-- The statement that begins the builder. -/
def builderStatement (stateClass : String) : List Lexeme :=
  [.name "builder", .mark '=', .name "StateGraph", .mark '(', .name stateClass, .mark ')']

/-- The line that begins the builder. -/
theorem states_builder {stateClass : String} (h : IsNameText stateClass) :
    States [inner ("builder = StateGraph(" ++ stateClass ++ ")")] [builderStatement stateClass] := by
  have hclean : OneLine ("builder = StateGraph(" ++ stateClass ++ ")") :=
    (OneLine.append (by decide) h.oneLine).append (by decide)
  have hopen : between.scan "builder = StateGraph(".toList =
      some ([.name "builder", .mark '=', .name "StateGraph", .mark '('], between) := rfl
  have hclose : (name stateClass.toList).scan ")".toList = some ([.name stateClass, .mark ')'], between) :=
    scan_leave stateClass rfl rfl
  have hscan := scan_append_string (scan_append_string hopen (scan_nameText h)) hclose
  exact states_statement hclean hscan (rfl : between.finish = some []) rfl rfl (List.cons_ne_nil _ _)

/-- The line that adds a node. -/
theorem states_addNode (framework : FrameworkVersion) (id : String) {slug : String} (h : IsNameText slug) :
    States [inner ("builder.add_node(" ++ stringLiteral id ++ ", nodes." ++ slug ++ ".run)")]
      [(addNode id ["nodes", slug, "run"]).statement framework] := by
  have hclean : OneLine ("builder.add_node(" ++ stringLiteral id ++ ", nodes." ++ slug ++ ".run)") :=
    (((OneLine.append (by decide) (oneLine_stringLiteral id)).append (by decide)).append h.oneLine).append (by decide)
  have hopen : between.scan "builder.add_node(".toList =
      some ([.name "builder", .mark '.', .name "add_node", .mark '('], between) := rfl
  have hmiddle : between.scan ", nodes.".toList = some ([.mark ',', .name "nodes", .mark '.'], between) := rfl
  have hclose : (name slug.toList).scan ".run)".toList = some ([.name slug, .mark '.', .name "run", .mark ')'], between) :=
    scan_leave slug rfl rfl
  have hscan := scan_append_string (scan_append_string (scan_append_string
    (scan_append_string hopen (scan_stringLiteral id)) hmiddle) (scan_nameText h)) hclose
  exact states_statement hclean hscan (rfl : between.finish = some []) rfl rfl (List.cons_ne_nil _ _)

/-- A line with one literal in it that is a statement of its own. -/
theorem states_literal {depth : Nat} {before after s : String} {l l' statement : List Lexeme} (hbefore : OneLine before)
    (hafter : OneLine after) (hopen : between.scan before.toList = some (l, between))
    (hclose : between.scan after.toList = some (l', between)) (hstatement : l ++ [Lexeme.text s] ++ l' ++ [] = statement)
    (hclosed : nesting 0 statement = 0) : States [⟨depth, before ++ stringLiteral s ++ after⟩] [statement] := by
  have hclean : OneLine (before ++ stringLiteral s ++ after) := (hbefore.append (oneLine_stringLiteral s)).append hafter
  have hscan := scan_append_string (scan_append_string hopen (scan_stringLiteral s)) hclose
  refine states_statement hclean hscan (rfl : between.finish = some []) hstatement hclosed ?_
  rw [← hstatement]
  simp

/-- The line that declares the entry, in each version of the framework. -/
theorem states_entryLine (g : Graph) (framework : FrameworkVersion) :
    States [entryLine g framework] [(entry (g.idAt g.entry)).statement framework] := by
  have hclose : between.scan ")".toList = some ([.mark ')'], between) := rfl
  cases framework with
  | newer =>
    have hopen : between.scan "builder.add_edge(START, ".toList =
        some ([.name "builder", .mark '.', .name "add_edge", .mark '(', .name "START", .mark ','], between) := rfl
    exact states_literal (by decide) (by decide) hopen hclose rfl rfl
  | older =>
    have hopen : between.scan "builder.set_entry_point(".toList =
        some ([.name "builder", .mark '.', .name "set_entry_point", .mark '('], between) := rfl
    exact states_literal (by decide) (by decide) hopen hclose rfl rfl

/-- The line that declares an end, in each version of the framework. -/
theorem states_finishLine (g : Graph) (framework : FrameworkVersion) (i : Nat) :
    States [finishLine g framework i] [(finish (g.idAt i)).statement framework] := by
  cases framework with
  | newer =>
    have hopen : between.scan "builder.add_edge(".toList =
        some ([.name "builder", .mark '.', .name "add_edge", .mark '('], between) := rfl
    have hclose : between.scan ", END)".toList = some ([.mark ',', .name "END", .mark ')'], between) := rfl
    exact states_literal (by decide) (by decide) hopen hclose rfl rfl
  | older =>
    have hopen : between.scan "builder.set_finish_point(".toList =
        some ([.name "builder", .mark '.', .name "set_finish_point", .mark '('], between) := rfl
    exact states_literal (by decide) (by decide) hopen (rfl : between.scan ")".toList = some ([.mark ')'], between)) rfl rfl

/-- The line that adds an edge without a condition. -/
theorem states_addEdge (framework : FrameworkVersion) (source target : String) :
    States [inner ("builder.add_edge(" ++ stringLiteral source ++ ", " ++ stringLiteral target ++ ")")]
      [(addEdge source target).statement framework] := by
  have hclean : OneLine ("builder.add_edge(" ++ stringLiteral source ++ ", " ++ stringLiteral target ++ ")") :=
    (((OneLine.append (by decide) (oneLine_stringLiteral source)).append (by decide)).append
      (oneLine_stringLiteral target)).append (by decide)
  have hopen : between.scan "builder.add_edge(".toList =
      some ([.name "builder", .mark '.', .name "add_edge", .mark '('], between) := rfl
  have hmiddle : between.scan ", ".toList = some ([.mark ','], between) := rfl
  have hclose : between.scan ")".toList = some ([.mark ')'], between) := rfl
  have hscan := scan_append_string (scan_append_string (scan_append_string
    (scan_append_string hopen (scan_stringLiteral source)) hmiddle) (scan_stringLiteral target)) hclose
  exact states_statement hclean hscan (rfl : between.finish = some []) rfl rfl (List.cons_ne_nil _ _)

/-- The last statement of the body. -/
def returnStatement : List Lexeme := [.name "return", .name "builder"]

/-- The last line of the body. -/
theorem states_return : States [inner "return builder"] [returnStatement] := by
  have hscan : between.scan "return builder".toList = some ([.name "return"], name "builder".toList) := rfl
  have hlast : (name "builder".toList).finish = some [.name "builder"] := rfl
  exact states_statement (by decide) hscan hlast rfl rfl (List.cons_ne_nil _ _)

/-! ## A block of conditional edges -/

/-- The line of an entry of a table. -/
def routeLine (r : String × String) : Line := ⟨3, stringLiteral r.1 ++ ": " ++ stringLiteral r.2 ++ ","⟩

/-- The entries of a table leave the brackets as they are. -/
theorem nesting_routeLexemes (depth : Nat) (routes : List (String × String)) :
    nesting depth (routes.flatMap routeLexemes) = depth := by
  induction routes with
  | nil => rfl
  | cons r routes ih => exact ih

/-- The lines of the entries of a table, read within an open bracket. -/
theorem statements?_routeLines {begun : List Lexeme} (hopen : nesting 0 begun ≠ 0) (routes : List (String × String))
    (rest : List (List Char)) :
    statements? begun (((routes.map routeLine).flatMap Line.physical).map String.toList ++ rest) =
      statements? (begun ++ routes.flatMap routeLexemes) rest := by
  induction routes generalizing begun with
  | nil => rw [List.flatMap_nil, List.append_nil]; rfl
  | cons r routes ih =>
    have hclean : OneLine (routeLine r).text :=
      (((oneLine_stringLiteral r.1).append (by decide)).append (oneLine_stringLiteral r.2)).append (by decide)
    have hcolon : between.scan ": ".toList = some ([.mark ':'], between) := rfl
    have hcomma : between.scan ",".toList = some ([.mark ','], between) := rfl
    have hscan : between.scan (routeLine r).text.toList = some (routeLexemes r, between) :=
      scan_append_string (scan_append_string (scan_append_string (scan_stringLiteral r.1) hcolon) (scan_stringLiteral r.2)) hcomma
    have hnesting : nesting 0 (begun ++ (routeLexemes r ++ [])) ≠ 0 := by
      rw [nesting, List.foldl_append]
      exact hopen
    rw [List.map_cons, List.flatMap_cons, List.map_append, List.append_assoc,
      statements?_of_open (routeLine r) hclean hscan (rfl : between.finish = some []) hnesting, ih hnesting, List.append_nil,
      List.append_assoc, List.flatMap_cons]

/-- The lexemes of a call that adds conditional edges, up to its table. -/
def blockLexemes (id routing : String) : List Lexeme :=
  [.name "builder", .mark '.', .name "add_conditional_edges", .mark '(', .text id, .mark ',', .name routing, .mark ',',
    .mark '\x7b']

/-- The lines of a block before its table. -/
theorem statements?_blockHead (id : String) {routing : String} (h : IsNameText routing) (rest : List (List Char)) :
    statements? [] ((inner "builder.add_conditional_edges(").physical.map String.toList ++
      ((inner2 (stringLiteral id ++ ",")).physical.map String.toList ++
      ((inner2 (routing ++ ",")).physical.map String.toList ++ ((inner2 "\x7b").physical.map String.toList ++ rest)))) =
      statements? (blockLexemes id routing) rest := by
  have hhead : between.scan "builder.add_conditional_edges(".toList =
      some ([.name "builder", .mark '.', .name "add_conditional_edges", .mark '('], between) := rfl
  have hcomma : between.scan ",".toList = some ([.mark ','], between) := rfl
  have hleave : (name routing.toList).scan ",".toList = some ([.name routing, .mark ','], between) := scan_leave routing rfl rfl
  have hopen : between.scan "\x7b".toList = some ([.mark '\x7b'], between) := rfl
  have hdone : between.finish = some [] := rfl
  have hid := scan_append_string (scan_stringLiteral id) hcomma
  have hrouting := scan_append_string (scan_nameText h) hleave
  rw [statements?_of_open (inner "builder.add_conditional_edges(") (by decide) hhead hdone (by exact Nat.one_ne_zero),
    statements?_of_open (inner2 (stringLiteral id ++ ",")) ((oneLine_stringLiteral id).append (by decide)) hid hdone
      (by exact Nat.one_ne_zero),
    statements?_of_open (inner2 (routing ++ ",")) (h.oneLine.append (by decide)) hrouting hdone (by exact Nat.one_ne_zero),
    statements?_of_open (inner2 "\x7b") (by decide) hopen hdone (by exact Nat.succ_ne_zero 1)]
  rfl

/-- The lines of a block behind its table. -/
theorem statements?_blockEnd (framework : FrameworkVersion) (id routing : String) (routes : List (String × String))
    (rest : List (List Char)) :
    statements? (blockLexemes id routing ++ routes.flatMap routeLexemes)
      ((inner2 "\x7d,").physical.map String.toList ++ ((inner ")").physical.map String.toList ++ rest)) =
      (statements? [] rest).map ([(addBranch id routing routes).statement framework] ++ ·) := by
  have hclose : between.scan "\x7d,".toList = some ([.mark '\x7d', .mark ','], between) := rfl
  have hend : between.scan ")".toList = some ([.mark ')'], between) := rfl
  have hdone : between.finish = some [] := rfl
  have hdepth : nesting 0 (blockLexemes id routing ++ routes.flatMap routeLexemes) = 2 := nesting_routeLexemes 2 routes
  have hstatement : blockLexemes id routing ++ routes.flatMap routeLexemes ++ ([Lexeme.mark '\x7d', .mark ','] ++ []) ++
      ([Lexeme.mark ')'] ++ []) = (addBranch id routing routes).statement framework := by
    simp only [blockLexemes, Call.statement, onBuilder, List.append_assoc, List.cons_append, List.nil_append, List.append_nil]
  rw [← hstatement]
  generalize blockLexemes id routing ++ routes.flatMap routeLexemes = table at hdepth
  have hnesting : ∀ ls, nesting 0 (table ++ ls) = nesting 2 ls := by
    intro ls
    rw [nesting, List.foldl_append]
    exact congrArg (nesting · ls) hdepth
  have hopen : nesting 0 (table ++ ([Lexeme.mark '\x7d', .mark ','] ++ [])) ≠ 0 := by
    rw [hnesting]
    exact Nat.one_ne_zero
  have hclosed : nesting 0 (table ++ ([Lexeme.mark '\x7d', .mark ','] ++ []) ++ ([Lexeme.mark ')'] ++ [])) = 0 := by
    rw [List.append_assoc, hnesting]
    rfl
  rw [statements?_of_open (inner2 "\x7d,") (by decide) hclose hdone hopen,
    statements?_of_closed (inner ")") (by decide) hend hdone hclosed (by simp)]

/-- The block of the conditional edges of a node is one statement, whose table leads each label to the id of its target. -/
theorem states_conditionalLines (framework : FrameworkVersion) (g : Graph) {l : Layout} {t : BranchTable}
    (h : isIdentifier (l.slug t.node) = true) :
    States (conditionalLines g l t) [(addBranch (g.idAt t.node) (routeFunction (l.slug t.node))
      (t.routes.map fun r => (r.1, g.idAt r.2))).statement framework] := by
  intro rest
  have hrouting : IsNameText (routeFunction (l.slug t.node)) := (isIdentifier_iff.mp (isIdentifier_routeFunction h)).1
  have hlines : ((conditionalLines g l t).flatMap Line.physical).map String.toList ++ rest =
      (inner "builder.add_conditional_edges(").physical.map String.toList ++
        ((inner2 (stringLiteral (g.idAt t.node) ++ ",")).physical.map String.toList ++
        ((inner2 (routeFunction (l.slug t.node) ++ ",")).physical.map String.toList ++
        ((inner2 "\x7b").physical.map String.toList ++
        ((((t.routes.map fun r => (r.1, g.idAt r.2)).map routeLine).flatMap Line.physical).map String.toList ++
        ((inner2 "\x7d,").physical.map String.toList ++ ((inner ")").physical.map String.toList ++ rest)))))) := by
    simp only [conditionalLines, List.map_map, List.flatMap_append, List.flatMap_cons, List.flatMap_nil, List.map_append,
      List.append_assoc, List.append_nil]
    rfl
  have hopen : nesting 0 (blockLexemes (g.idAt t.node) (routeFunction (l.slug t.node))) ≠ 0 := Nat.succ_ne_zero 1
  rw [hlines, statements?_blockHead _ hrouting, statements?_routeLines hopen, statements?_blockEnd framework]

end Package

end Workflow
