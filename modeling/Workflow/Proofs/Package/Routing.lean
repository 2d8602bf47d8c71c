import Workflow.Proofs.Compile
import Workflow.Proofs.Package.Bindings
import Workflow.Proofs.Package.Rows

/-!
# Routing functions read back

The routing function of a branching node, found in the file that assembles the graph and taken apart: its annotation, the state key
that it reads and what stands behind `in`. Of several labels this is a tuple, and the function gives back exactly the labels. The
label of a node that has only one stands there by itself, and the function gives back every part of it (`routing_read_back`).
-/

namespace Workflow

open Call LexMode

/-! ## Routing functions -/

/-- What stands in brackets behind `in`. A text alone is a text, for it takes a comma to make a tuple of it. -/
inductive Container
  | text (s : String)
  | tuple (items : List String)
  deriving DecidableEq

namespace Container

/-- What is in a container: in a text its parts, in a tuple its items. -/
def Holds : Container → String → Prop
  | text s, value => value.toList <:+: s.toList
  | tuple items, value => value ∈ items

instance : (container : Container) → (value : String) → Decidable (container.Holds value)
  | text s, value => inferInstanceAs (Decidable (value.toList <:+: s.toList))
  | tuple items, value => inferInstanceAs (Decidable (value ∈ items))

/-- What labels in a row come to in brackets. -/
def ofLabels : List String → Container
  | [label] => text label
  | labels => tuple labels

/-- The texts in a row up to a closing bracket, and what follows it. A comma may stand behind the last of them. -/
def items? (close : Char) : List Lexeme → Option (List String × List Lexeme)
  | .text s :: .mark ',' :: rest => (items? close rest).map fun (items, rest) => (s :: items, rest)
  | .text s :: .mark c :: rest => if c = close then some ([s], rest) else none
  | .mark c :: rest => if c = close then some ([], rest) else none
  | _ => none

/-- The container that ends with a closing bracket, and what follows it. -/
def read? : List Lexeme → Option (Container × List Lexeme)
  | .text s :: .mark ')' :: rest => some (text s, rest)
  | ls => (items? ')' ls).map fun (items, rest) => (tuple items, rest)

end Container

/-- A function that asks whether the text under a key of the state is in a container. -/
structure RoutingFunction where
  name : String
  returns : List String
  key : String
  container : Container
  deriving DecidableEq

namespace RoutingFunction

/-- What the function gives back, given the texts under the keys of the state. Otherwise it raises an error. -/
def run (f : RoutingFunction) (state : String → Option String) : Option String := do
  let value ← state f.key
  if f.container.Holds value then some value else none

/-- The function gives back what is one of some labels, and raises an error for any other text. -/
def Accepts (f : RoutingFunction) (labels : List String) : Prop :=
  ∀ state value, state f.key = some value → f.run state = if value ∈ labels then some value else none

/-- The name in the head of a function, and the texts that it says are returned. There is at least one, for the brackets of a `Literal`
may not be empty. -/
def head? : List Lexeme → Option (String × List String)
  | .name "def" :: .name name :: .mark '(' :: .name "state" :: .mark ':' :: .name _ :: .mark ')' :: .mark '-' :: .mark '>' ::
      .name "Literal" :: .mark '[' :: rest =>
    match Container.items? ']' rest with
    | some (label :: labels, [.mark ':']) => some (name, label :: labels)
    | _ => none
  | _ => none

/-- The key whose value is looked up. -/
def key? : List Lexeme → Option String
  | [.name "value", .mark '=', .name "state", .mark '.', .name "get", .mark '(', .text key, .mark ')'] => some key
  | _ => none

/-- The container that the value is looked up in. -/
def test? : List Lexeme → Option Container
  | .name "if" :: .name "value" :: .name "in" :: .mark '(' :: rest =>
    match Container.read? rest with
    | some (container, [.mark ':']) => some container
    | _ => none
  | _ => none

/-- The function that some rows are. What it gives back stands below the question, and the error behind that. -/
def ofRows? : List Row → Option RoutingFunction
  | [head, value, test, back, failure] => do
    let (name, returns) ← head? head.lexemes
    let key ← key? value.lexemes
    let container ← test? test.lexemes
    if head.depth < value.depth ∧ value.depth = test.depth ∧ test.depth < back.depth ∧ failure.depth = test.depth ∧
        back.lexemes = [.name "return", .name "value"] ∧ failure.lexemes.head? = some (.name "raise") then
      some ⟨name, returns, key, container⟩
    else none
  | _ => none

/-- The line that a function of a name begins with. -/
def opening (name : String) : String := "def " ++ name ++ "("

/-- The function of a name in the text of a file. -/
def ofText? (name text : String) : Option RoutingFunction := (rows? .empty (block (opening name) text)).bind ofRows?

end RoutingFunction

/-! ## Rows of labels -/

namespace Container

theorem items?_rowLexemes {close : Char} (hclose : close ≠ ',') (labels : List String) (rest : List Lexeme) :
    items? close (rowLexemes labels ++ .mark close :: rest) = some (labels, rest) := by
  induction labels with
  | nil => simp [rowLexemes, items?]
  | cons label labels ih =>
    cases labels with
    | nil =>
      have hrow : rowLexemes [label] = [.text label] := rfl
      rw [hrow, List.singleton_append, items?]
      · rw [if_pos rfl]
      · exact fun h => hclose h
    | cons next labels =>
      have hrow : rowLexemes (label :: next :: labels) = .text label :: .mark ',' :: rowLexemes (next :: labels) := rfl
      rw [hrow, List.cons_append, List.cons_append, items?, ih]
      rfl

theorem read?_rowLexemes (labels : List String) (rest : List Lexeme) :
    read? (rowLexemes labels ++ .mark ')' :: rest) = some (ofLabels labels, rest) := by
  have hitems : items? ')' (rowLexemes labels ++ .mark ')' :: rest) = some (labels, rest) :=
    items?_rowLexemes (by decide) labels rest
  match labels, hitems with
  | [], _ => rfl
  | [_], _ => rfl
  | label :: next :: labels, hitems =>
    have hrow : rowLexemes (label :: next :: labels) = .text label :: .mark ',' :: rowLexemes (next :: labels) := rfl
    have hread : ∀ ls, read? (.text label :: .mark ',' :: ls) =
        (items? ')' (.text label :: .mark ',' :: ls)).map fun (items, rest) => (tuple items, rest) := fun _ => rfl
    rw [hrow, List.cons_append, List.cons_append] at hitems ⊢
    rw [hread, hitems]
    rfl

/-- Labels that are not just one make a tuple. -/
theorem ofLabels_eq_tuple {labels : List String} (h : labels.length ≠ 1) : ofLabels labels = tuple labels := by
  match labels, h with
  | [], _ => rfl
  | _ :: _ :: _, _ => rfl

end Container

namespace Package

variable {g : Graph} {l : Layout} {options : Options}

/-! ## The rows of a routing function -/

/-- The lines of a routing function below its head. -/
def routeBody (n : Node) (on : String) (t : BranchTable) : List Line :=
  [inner ("value = state.get(" ++ stringLiteral on ++ ")"), inner ("if value in (" ++ labelRow t ++ "):"), inner2 "return value",
   inner ("raise ValueError(" ++ stringLiteral ("no branch of node '" ++ n.id ++ "' matches ") ++ " + repr(value))")]

/-- The head of a routing function. -/
def routeHeading (l : Layout) (t : BranchTable) : String :=
  "def " ++ routeFunction (l.slug t.node) ++ "(state: " ++ l.stateClass ++ ") -> Literal[" ++ labelRow t ++ "]:"

/-- A routing function begins as a function of its name does. -/
theorem routeHeading_eq (l : Layout) (t : BranchTable) :
    routeHeading l t = RoutingFunction.opening (routeFunction (l.slug t.node)) ++
      ("state: " ++ l.stateClass ++ ") -> Literal[" ++ labelRow t ++ "]:") := by
  simp only [routeHeading, RoutingFunction.opening, String.append_assoc]
  rfl

theorem routeLines_eq (l : Layout) (n : Node) (on : String) (t : BranchTable) :
    routeLines l n on t = blankLine :: blankLine :: top (routeHeading l t) :: routeBody n on t := rfl

theorem oneLine_routeHeading {t : BranchTable} (hslug : isIdentifier (l.slug t.node) = true) (hstate : IsNameText l.stateClass) :
    OneLine (routeHeading l t) :=
  oneLine_routeHead (isIdentifier_iff.mp (isIdentifier_routeFunction hslug)).1 hstate t

theorem head?_routeHeading (l : Layout) (t : BranchTable) : (routeHeading l t).toList.head? = some 'd' :=
  head?_append (head?_append (head?_append (head?_append (head?_append (head?_append (c := 'd') (by decide) _) _) _) _) _) _

/-- The rows of a routing function. -/
def routeRows (l : Layout) (n : Node) (on : String) (t : BranchTable) : List Row :=
  List.zipWith Row.mk [0, 4, 4, 8, 4] (routeStatements l n on t)

/-- A line with one literal in it that is a statement is a row. -/
theorem hasRows_literal {depth : Nat} {before after text : String} {statement : List Lexeme} {c : Char} (hbefore : OneLine before)
    (hafter : OneLine after) (hhead : before.toList.head? = some c) (hc : c ≠ ' ')
    (h : States [⟨depth, before ++ stringLiteral text ++ after⟩] [statement]) :
    HasRows [⟨depth, before ++ stringLiteral text ++ after⟩] [⟨4 * depth, statement⟩] :=
  hasRows_statement ((hbefore.append (oneLine_stringLiteral text)).append hafter) (head?_append (head?_append hhead _) _) hc h

theorem hasRows_route {n : Node} {on : String} {t : BranchTable} (hslug : isIdentifier (l.slug t.node) = true)
    (hstate : IsNameText l.stateClass) : HasRows (top (routeHeading l t) :: routeBody n on t) (routeRows l n on t) := by
  have hroute : IsNameText (routeFunction (l.slug t.node)) := (isIdentifier_iff.mp (isIdentifier_routeFunction hslug)).1
  have hif : ("if value in (" ++ labelRow t ++ "):").toList.head? = some 'i' :=
    head?_append (head?_append (c := 'i') (by decide) _) _
  have hhead : HasRows [top (routeHeading l t)] [⟨0, routeHead (routeFunction (l.slug t.node)) l.stateClass t.labels⟩] :=
    hasRows_statement (oneLine_routeHeading hslug hstate) (head?_routeHeading l t) (by decide) (states_routeHead hroute hstate t)
  have hvalue := hasRows_literal (c := 'v') (by decide) (by decide) (by decide) (by decide) (states_routeValue on)
  have htest : HasRows [inner ("if value in (" ++ labelRow t ++ "):")] [⟨4, routeTest t.labels⟩] :=
    hasRows_statement (oneLine_routeTest t) hif (by decide) (states_routeTest t)
  have hreturn : HasRows [inner2 "return value"] [⟨8, [.name "return", .name "value"]⟩] :=
    hasRows_statement (c := 'r') (by decide) (by decide) (by decide) states_routeReturn
  have hraise := hasRows_literal (c := 'r') (by decide) (by decide) (by decide) (by decide)
    (states_routeRaise ("no branch of node '" ++ n.id ++ "' matches "))
  exact hhead.append (hvalue.append (htest.append (hreturn.append hraise)))

/-- The function that the rows of a routing function are. -/
theorem ofRows?_routeRows (l : Layout) (n : Node) (on : String) {t : BranchTable} (hne : t.labels ≠ []) :
    RoutingFunction.ofRows? (routeRows l n on t) =
      some ⟨routeFunction (l.slug t.node), t.labels, on, Container.ofLabels t.labels⟩ := by
  obtain ⟨label, labels, hlabels⟩ := List.exists_cons_of_ne_nil hne
  have hreturns : Container.items? ']' (rowLexemes t.labels ++ [.mark ']', .mark ':']) = some (t.labels, [.mark ':']) :=
    Container.items?_rowLexemes (by decide) t.labels [.mark ':']
  have hhead : RoutingFunction.head? (routeHead (routeFunction (l.slug t.node)) l.stateClass t.labels) =
      some (routeFunction (l.slug t.node), t.labels) := by
    simp only [routeHead, List.cons_append, List.nil_append, RoutingFunction.head?, hreturns]
    rw [hlabels]
    rfl
  have htest : RoutingFunction.test? (routeTest t.labels) = some (Container.ofLabels t.labels) := by
    simp only [routeTest, List.cons_append, List.nil_append, RoutingFunction.test?, Container.read?_rowLexemes]
  simp only [routeRows, routeStatements, List.zipWith_cons_cons, List.zipWith_nil_left, RoutingFunction.ofRows?, hhead, htest,
    RoutingFunction.key?, Option.bind_eq_bind, Option.bind_some]
  rfl

/-! ## Where a routing function stands -/

section

variable {name : String}

/-- A function begins with `def`. -/
theorem head?_opening (name : String) : (RoutingFunction.opening name).toList.head? = some 'd' :=
  head?_append (head?_append (c := 'd') (by decide) _) _

/-- No function begins in the comment at the head of a file. -/
theorem lacks_header {what : String} (hwhat : OneLine what) : Lacks (RoutingFunction.opening name) (header g options what) := by
  have hversion : OneLine options.framework.text := by cases options.framework <;> decide
  have hfirst : OneLine ("# " ++ what ++ " for workflow '" ++ foldBlank g.name ++ "'.") :=
    (((OneLine.append (by decide) hwhat).append (by decide)).append (oneLine_foldBlank g.name)).append (by decide)
  have hsecond : OneLine ("# Generated by flowc (framework API " ++ options.framework.text ++ "). Do not edit by hand.") :=
    (OneLine.append (by decide) hversion).append (by decide)
  refine lacks_of_head (head?_opening name) (by decide) fun l hl => Or.inr ?_
  rw [header] at hl
  split at hl
  · simp only [List.mem_cons, List.not_mem_nil, or_false] at hl
    rcases hl with rfl | rfl | rfl
    · refine ⟨hfirst, ?_⟩
      rw [top, head?_append (head?_append (head?_append (head?_append (c := '#') (by decide) _) _) _) _]
      decide
    · refine ⟨hsecond, ?_⟩
      rw [top, head?_append (head?_append (c := '#') (by decide) _) _]
      decide
    · decide
  · cases hl

/-- No function begins among the imports. -/
theorem lacks_assemblyImports (hstate : IsNameText l.stateClass) :
    Lacks (RoutingFunction.opening name) (assemblyImports g l options) := by
  have hclosed : ∀ text ∈ ["from typing import Literal", "from langgraph.graph import END, START, StateGraph",
      "from langgraph.graph import StateGraph", "from . import nodes", ""], OneLine text ∧ text.toList.head? ≠ some 'd' := by decide
  have hmodule : OneLine ("from .state import " ++ l.stateClass) := OneLine.append (by decide) hstate.oneLine
  refine lacks_of_head (head?_opening name) (by decide) fun line hline => Or.inr ?_
  rw [assemblyImports, List.mem_append] at hline
  rcases hline with hline | hline
  · split at hline
    · cases hline
    · simp only [List.mem_cons, List.not_mem_nil, or_false] at hline
      rcases hline with rfl | rfl <;> exact hclosed _ (by decide)
  · simp only [List.mem_cons, List.not_mem_nil, or_false] at hline
    rcases hline with rfl | rfl | rfl | rfl
    · cases options.framework <;> exact hclosed _ (by decide)
    · exact hclosed _ (by decide)
    · exact hclosed _ (by decide)
    · refine ⟨hmodule, ?_⟩
      rw [top, head?_append (c := 'f') (by decide)]
      decide

/-- Function names that differ begin on different lines. -/
theorem not_opening_of_ne {other rest : String} (hname : IsNameText name) (hother : IsNameText other) (hne : other ≠ name) :
    ¬(RoutingFunction.opening name).toList <+: (RoutingFunction.opening other ++ rest).toList := by
  intro hprefix
  obtain ⟨more, hmore⟩ := hprefix
  simp only [RoutingFunction.opening, String.toList_append, List.append_assoc, List.append_cancel_left_eq] at hmore
  have htake : ∀ {s : String} {cs : List Char}, IsNameText s → (s.toList ++ ("(".toList ++ cs)).takeWhile isNameChar = s.toList := by
    intro s cs hs
    rw [List.takeWhile_append_of_pos hs.2]
    exact List.append_nil _
  have heq := congrArg (List.takeWhile isNameChar) hmore
  rw [htake hname, htake hother, String.toList_inj] at heq
  exact hne heq.symm

/-- The lines of a routing function below its head are indented. -/
theorem depth_of_mem_routeBody {n : Node} {on : String} {t : BranchTable} : ∀ line ∈ routeBody n on t, line.depth ≠ 0 := by
  have hdepths : ∀ depth ∈ [1, 1, 2, 1], depth ≠ 0 := by decide
  exact fun line hline => hdepths _ (List.mem_map_of_mem (f := Line.depth) hline)

theorem lacks_blankLines : Lacks (RoutingFunction.opening name) [blankLine, blankLine] :=
  lacks_of_head (head?_opening name) (by decide) (by decide)

/-- The function of another node does not begin like that of a node. -/
theorem lacks_routeLines {n : Node} {on : String} {t : BranchTable} (hslug : isIdentifier (l.slug t.node) = true)
    (hstate : IsNameText l.stateClass) (hname : IsNameText name) (hne : routeFunction (l.slug t.node) ≠ name) :
    Lacks (RoutingFunction.opening name) (routeLines l n on t) := by
  have hroute : IsNameText (routeFunction (l.slug t.node)) := (isIdentifier_iff.mp (isIdentifier_routeFunction hslug)).1
  have hphysical : (top (routeHeading l t)).physical = [routeHeading l t] := physical_top (oneLine_routeHeading hslug hstate)
  have hhead : Lacks (RoutingFunction.opening name) [top (routeHeading l t)] := by
    refine List.forall_mem_singleton.mpr fun s hs => ?_
    rw [hphysical, List.mem_singleton] at hs
    rw [hs, routeHeading_eq]
    exact not_opening_of_ne hname hroute hne
  have hbody : Lacks (RoutingFunction.opening name) (routeBody n on t) :=
    lacks_of_head (head?_opening name) (by decide) fun line hline => Or.inl (depth_of_mem_routeBody line hline)
  exact lacks_blankLines.append (hhead.append hbody)

end

section

variable {d : Document} {s : Nat}

theorem node_lt_of_mem (h : Build.issues d = []) {t : BranchTable} (ht : t ∈ (Build.graphAt d s).branchTables) :
    t.node < (Build.graphAt d s).nodes.length := by
  obtain ⟨n, hn, -⟩ := ((Build.mem_branchTables h).mp ht).1
  exact (List.getElem?_eq_some_iff.mp hn).1

/-- The slug of a node with a table is an identifier. -/
theorem isIdentifier_slug_of_mem (h : Build.issues d = []) {t : BranchTable} (ht : t ∈ (Build.graphAt d s).branchTables) :
    isIdentifier ((Layout.ofGraph (Build.graphAt d s) options).slug t.node) = true :=
  Layout.isIdentifier_of_mem_slugs _ (Layout.slug_mem_slugs (node_lt_of_mem h ht))

/-- The lines of a table of a graph that is built are those of a routing function. -/
theorem exists_tableLines (h : Build.issues d = []) {t : BranchTable} (ht : t ∈ (Build.graphAt d s).branchTables) (l : Layout) :
    ∃ n b, d.nodes[t.node]? = some n ∧ n.spec = .conditionalBranch b ∧
      tableLines (Build.graphAt d s) l t = routeLines l n b.on t := by
  obtain ⟨n, hn, hk⟩ := ((Build.mem_branchTables h).mp ht).1
  obtain ⟨b, hb⟩ := Build.kind_eq_conditionalBranch_iff.mp hk
  have hnode : (Build.graphAt d s).nodes[t.node]? = some n := hn
  exact ⟨n, b, hn, hb, by simp only [tableLines, hnode, hb]⟩

/-- The table of a branching node of a graph that is built has a label, for the node is no end and some edge leaves it. -/
theorem labels_ne_nil (h : Build.issues d = []) {t : BranchTable} (ht : t ∈ (Build.graphAt d s).branchTables) {n : Node}
    {b : Branching} (hn : d.nodes[t.node]? = some n) (hb : n.spec = .conditionalBranch b) : t.labels ≠ [] := by
  have hsound : d.Sound := Build.sound_of_issues_eq_nil h
  have hmem : n ∈ d.nodes := List.mem_of_getElem? hn
  have hkind : n.kind ≠ .finish := by
    rw [Node.kind, hb]
    exact NodeKind.noConfusion
  obtain ⟨e, he⟩ := List.exists_mem_of_ne_nil _ (mt (hsound.ends n hmem).mpr hkind)
  obtain ⟨label, hlabel, -⟩ := (hsound.branching n hmem b hb).declared e.condition (List.mem_map_of_mem he)
  exact List.ne_nil_of_mem (((Build.table_mirrors h ht hn hb).labels label).mpr hlabel)

/-- Behind a routing function there are two empty lines and the head of a function. -/
theorem exists_next (h : Build.issues d = []) {tables : List BranchTable} (htables : ∀ t ∈ tables, t ∈ (Build.graphAt d s).branchTables)
    (rest : List Line) :
    ∃ next more, tables.flatMap (tableLines (Build.graphAt d s) (Layout.ofGraph (Build.graphAt d s) options)) ++
        (blankLine :: blankLine :: top heading :: rest) = blankLine :: blankLine :: top next :: more ∧
      OneLine next ∧ isBodyLine next.toList = false := by
  cases tables with
  | nil => exact ⟨heading, rest, rfl, by decide, rfl⟩
  | cons t tables =>
    have ht := htables t List.mem_cons_self
    obtain ⟨n, b, hn, -, hlines⟩ := exists_tableLines h ht (Layout.ofGraph (Build.graphAt d s) options)
    rw [List.flatMap_cons, hlines, routeLines_eq]
    exact ⟨_, _, rfl, oneLine_routeHeading (isIdentifier_slug_of_mem h ht) Layout.isNameText_stateClass,
      isBodyLine_of_head (head?_routeHeading _ t) (by decide)⟩

/-- The routing functions of the tables before one do not begin like its own, for their nodes have other slugs. -/
theorem lacks_earlier (h : Build.issues d = []) {t : BranchTable} {earlier later : List BranchTable}
    (hsplit : (Build.graphAt d s).branchTables = earlier ++ t :: later) :
    Lacks (RoutingFunction.opening (routeFunction ((Layout.ofGraph (Build.graphAt d s) options).slug t.node)))
      (earlier.flatMap (tableLines (Build.graphAt d s) (Layout.ofGraph (Build.graphAt d s) options))) := by
  have hpairwise := Build.branchTables_pairwise h s
  rw [hsplit, List.pairwise_append] at hpairwise
  have ht : t ∈ (Build.graphAt d s).branchTables := by
    rw [hsplit]
    exact List.mem_append_right _ List.mem_cons_self
  intro line hline
  obtain ⟨u, hu, hline⟩ := List.mem_flatMap.mp hline
  have hmem : u ∈ (Build.graphAt d s).branchTables := by
    rw [hsplit]
    exact List.mem_append_left _ hu
  have hbefore : u.node < t.node := hpairwise.2.2 u hu t List.mem_cons_self
  obtain ⟨m, c, -, -, hlines⟩ := exists_tableLines h hmem (Layout.ofGraph (Build.graphAt d s) options)
  rw [hlines] at hline
  refine lacks_routeLines (isIdentifier_slug_of_mem h hmem) Layout.isNameText_stateClass
    (isIdentifier_iff.mp (isIdentifier_routeFunction (isIdentifier_slug_of_mem h ht))).1 (fun heq => ?_) line hline
  have hnode := Layout.slug_injective (node_lt_of_mem h hmem) (node_lt_of_mem h ht) (routeFunction_injective heq)
  omega

/-- The file that assembles a graph, cut at the routing function of a table. No line before begins like the function, and what comes
behind it and two empty lines is the head of a function. -/
theorem exists_assemblyLines (options : Options) (h : Build.issues d = []) {t : BranchTable}
    (ht : t ∈ (Build.graphAt d s).branchTables) {n : Node} {b : Branching} (hn : d.nodes[t.node]? = some n)
    (hb : n.spec = .conditionalBranch b) :
    ∃ before next more, assemblyLines (Build.graphAt d s) (Layout.ofGraph (Build.graphAt d s) options) options =
        before ++ (top (routeHeading (Layout.ofGraph (Build.graphAt d s) options) t) ::
          ((routeBody n b.on t ++ [blankLine, blankLine]) ++ (top next :: more))) ∧
      Lacks (RoutingFunction.opening (routeFunction ((Layout.ofGraph (Build.graphAt d s) options).slug t.node))) before ∧
      OneLine next ∧ isBodyLine next.toList = false := by
  obtain ⟨earlier, later, hsplit⟩ := List.append_of_mem ht
  set g := Build.graphAt d s with hg
  set l := Layout.ofGraph g options with hl
  have hlater : ∀ u ∈ later, u ∈ g.branchTables := fun u hu => by
    rw [hsplit]
    exact List.mem_append_right _ (List.mem_cons_of_mem _ hu)
  obtain ⟨next, more, hnext, hclean, hhead⟩ : ∃ next more, later.flatMap (tableLines g l) ++ (blankLine :: blankLine :: top heading ::
      (buildLines g l options ++ [blankLine, blankLine, top "graph = build_graph().compile()"])) =
        blankLine :: blankLine :: top next :: more ∧ OneLine next ∧ isBodyLine next.toList = false := exists_next h hlater _
  have htable : tableLines g l t = routeLines l n b.on t := by
    have hnode : g.nodes[t.node]? = some n := hn
    simp only [tableLines, hnode, hb]
  refine ⟨header g options "Graph assembly" ++ assemblyImports g l options ++ earlier.flatMap (tableLines g l) ++ [blankLine, blankLine],
    next, more, ?_, ?_, hclean, hhead⟩
  · rw [assemblyLines, hsplit, List.flatMap_append, List.flatMap_cons, htable, routeLines_eq]
    simp only [List.append_assoc, List.cons_append, List.nil_append]
    simp only [← hnext]
    rfl
  · exact (((lacks_header (by decide)).append (lacks_assemblyImports Layout.isNameText_stateClass)).append
      (lacks_earlier h hsplit)).append lacks_blankLines

/-- The routing function of a branching node is read in the file that assembles the graph. -/
theorem routing_assemblyLines (h : Build.issues d = []) {t : BranchTable} (ht : t ∈ (Build.graphAt d s).branchTables) {n : Node}
    {b : Branching} (hn : d.nodes[t.node]? = some n) (hb : n.spec = .conditionalBranch b) :
    RoutingFunction.ofText? (routeFunction ((Layout.ofGraph (Build.graphAt d s) options).slug t.node))
        (renderLines (assemblyLines (Build.graphAt d s) (Layout.ofGraph (Build.graphAt d s) options) options)) =
      some ⟨routeFunction ((Layout.ofGraph (Build.graphAt d s) options).slug t.node), t.labels, b.on,
        Container.ofLabels t.labels⟩ := by
  obtain ⟨before, next, more, hlines, hlacks, hclean, hnext⟩ := exists_assemblyLines options h ht hn hb
  set l := Layout.ofGraph (Build.graphAt d s) options with hl
  have hslug : isIdentifier (l.slug t.node) = true := isIdentifier_slug_of_mem h ht
  have hstate : IsNameText l.stateClass := Layout.isNameText_stateClass
  have hopening : (RoutingFunction.opening (routeFunction (l.slug t.node))).toList <+: (routeHeading l t).toList := by
    rw [routeHeading_eq, String.toList_append]
    exact List.prefix_append _ _
  have hbody : ∀ line ∈ routeBody n b.on t ++ [blankLine, blankLine], ∀ x ∈ line.physical, isBodyLine x.toList = true := by
    have hblank : ∀ x ∈ blankLine.physical, isBodyLine x.toList = true := by decide
    refine List.forall_mem_append.mpr ⟨fun line hline => isBodyLine_of_depth (depth_of_mem_routeBody line hline), ?_⟩
    exact List.forall_mem_cons.mpr ⟨hblank, List.forall_mem_singleton.mpr hblank⟩
  have hafter : (top next :: more).flatMap Line.physical = next :: more.flatMap Line.physical := by
    rw [List.flatMap_cons, physical_top hclean, List.singleton_append]
  have hrows : HasRows (top (routeHeading l t) :: (routeBody n b.on t ++ [blankLine, blankLine])) (routeRows l n b.on t) := by
    have hblank : HasRows [blankLine, blankLine] [] := hasRows_nil (states_blankLine.append states_blankLine)
    have hroute : HasRows (top (routeHeading l t) :: routeBody n b.on t) (routeRows l n b.on t) := hasRows_route hslug hstate
    have hall := hroute.append hblank
    rwa [List.append_nil] at hall
  have hblock := block_renderLines hlacks (oneLine_routeHeading hslug hstate) hopening hbody hafter hnext
  rw [RoutingFunction.ofText?, hlines, hblock, hrows]
  exact ofRows?_routeRows l n b.on (labels_ne_nil h ht hn hb)

end

end Package

/-! ## What routing functions accept -/

/-- A routing function is that of a branching node with a table. It takes its labels for a tuple unless it is only one, which it takes
for a text. -/
structure RoutingFunction.Follows (f : RoutingFunction) (b : Branching) (t : BranchTable) : Prop where
  key : f.key = b.on
  returns : f.returns = t.labels
  distinct : t.labels.Nodup
  labels : t.labels.Perm b.branches
  several : b.branches.length ≠ 1 → f.container = .tuple t.labels ∧ f.Accepts b.branches
  alone : ∀ label, b.branches = [label] → f.container = .text label ∧ ∀ state value, state b.on = some value →
    f.run state = if value.toList <:+: label.toList then some value else none

namespace Package

open Build

/-- The function that is read for a table follows it. -/
theorem follows_of_mirrors {g : Graph} {t : BranchTable} {b : Branching} (h : t.Mirrors g b) (hnd : b.branches.Nodup) (name : String) :
    RoutingFunction.Follows ⟨name, t.labels, b.on, Container.ofLabels t.labels⟩ b t := by
  have hperm : t.labels.Perm b.branches := (List.perm_ext_iff_of_nodup h.distinct hnd).mpr h.labels
  have hrun : ∀ (container : Container) (state : String → Option String) (value : String), state b.on = some value →
      RoutingFunction.run ⟨name, t.labels, b.on, container⟩ state = if container.Holds value then some value else none := by
    intro container state value hvalue
    rw [RoutingFunction.run]
    simp only [hvalue, Option.bind_eq_bind, Option.bind_some]
  refine ⟨rfl, rfl, h.distinct, hperm, fun hlength => ?_, fun label hlabel => ?_⟩
  · have htuple : Container.ofLabels t.labels = .tuple t.labels := Container.ofLabels_eq_tuple (by rwa [hperm.length_eq])
    rw [htuple]
    refine ⟨rfl, fun state value hvalue => ?_⟩
    rw [hrun _ _ _ hvalue]
    simp only [Container.Holds, h.labels]
  · rw [hlabel, List.perm_singleton] at hperm
    have htext : Container.ofLabels t.labels = .text label := by rw [hperm, Container.ofLabels]
    rw [htext]
    exact ⟨rfl, hrun _⟩

end Package

open Build Package

/-- The routing function of each branching node of a graph that has its package is read back from the file that assembles the graph: it
has the labels of the branch table in its annotation, and it gives back exactly these if they are not just one. So it is for every
document that was read. A label that is the only one is no tuple, and every part of it is given back. -/
theorem routing_read_back (d : Document) (g : Graph) (options : Options) (files : List Artifact) (hbuild : Graph.build d = .ok g)
    (hgenerate : generate g options = .ok files) (i : Nat) (n : Node) (b : Branching) (hn : g.nodes[i]? = some n)
    (hb : n.spec = .conditionalBranch b) :
    ∃ t f, g.branchTable? i = some t ∧ (∃ a ∈ files, a.path = (Layout.ofGraph g options).file ["graph.py"]) ∧
      (∀ a ∈ files, a.path = (Layout.ofGraph g options).file ["graph.py"] →
        RoutingFunction.ofText? (routeFunction ((Layout.ofGraph g options).slug i)) a.contents = some f) ∧
      f.Follows b t ∧ ∀ tree, Schema.check? tree = some d → f.Accepts b.branches := by
  obtain ⟨hdefect, rfl⟩ := generate_eq_ok_iff.mp hgenerate
  have hlabels := (defect?_eq_none_iff hbuild).mp hdefect
  obtain ⟨hnil, s, -, rfl⟩ := build_eq_ok_iff.mp hbuild
  obtain ⟨t, ht, rfl, -, hmirrors⟩ := branchTable?_routes hnil (s := s) hn hb
  have hmem := List.mem_of_find?_eq_some ht
  have hfollows := follows_of_mirrors hmirrors (hlabels n (List.mem_of_getElem? hn) b hb)
    (routeFunction ((Layout.ofGraph (graphAt d s) options).slug t.node))
  refine ⟨t, _, ht, ⟨_, List.mem_append_right _ (List.mem_singleton_self _), rfl⟩, fun a ha hpath => ?_, hfollows, fun tree htree => ?_⟩
  · rw [contents_of_path_eq ha hpath]
    exact routing_assemblyLines hnil hmem hn hb
  · have hlength := (Schema.labels_of_check? htree (List.mem_of_getElem? hn) hb).1
    exact (hfollows.several (by omega)).2

/-- The loop has two outcomes, and its routing function gives back these and no part of one. -/
theorem routing_read_back_reviewLoop :
    ∃ g files f, Graph.build reviewLoop = .ok g ∧ generate g {} = .ok files ∧
      (∀ a ∈ files, a.path = (Layout.ofGraph g {}).file ["graph.py"] → RoutingFunction.ofText? "route_review" a.contents = some f) ∧
      f.container = .tuple ["done", "again"] ∧ f.run (fun _ => some "again") = some "again" ∧ f.run (fun _ => some "a") = none := by
  obtain ⟨g, hg⟩ : ∃ g, Graph.build reviewLoop = .ok g := ⟨_, rfl⟩
  obtain ⟨files, hfiles⟩ : ∃ files, generate g {} = .ok files := by
    cases hg
    exact ⟨_, rfl⟩
  obtain ⟨n, b, hn, hb, hbranches⟩ : ∃ n b, g.nodes[3]? = some n ∧ n.spec = .conditionalBranch b ∧ b.branches = ["again", "done"] := by
    cases hg
    exact ⟨_, _, rfl, rfl, rfl⟩
  obtain ⟨t, f, ht, -, hread, hfollows, -⟩ := routing_read_back reviewLoop g {} files hg hfiles 3 n b hn hb
  have hname : routeFunction ((Layout.ofGraph g {}).slug 3) = "route_review" := by
    cases hg
    decide
  have htable : t.labels = ["done", "again"] := by
    cases hg
    cases ht
    rfl
  obtain ⟨hcontainer, haccepts⟩ := hfollows.several (by rw [hbranches]; decide)
  rw [hname] at hread
  rw [htable] at hcontainer
  refine ⟨g, files, f, hg, hfiles, hread, hcontainer, ?_, ?_⟩
  · rw [haccepts _ "again" rfl, hbranches]
    decide
  · rw [haccepts _ "a" rfl, hbranches]
    decide

/-- A fork in the road with only one way to go. -/
def oneWay : Document where
  name := "one way"
  description := none
  version := none
  entry := "begin"
  nodes := [⟨"begin", .start [], none⟩, ⟨"fork", .conditionalBranch ⟨"turn", ["left"]⟩, none⟩, ⟨"finish", .finish [], none⟩]
  edges := [⟨"begin", "fork", none⟩, ⟨"fork", "finish", some "left"⟩]

/-- The fork gives back a text that is not its label. -/
theorem routing_takes_part_oneWay :
    ∃ g files, Graph.build oneWay = .ok g ∧ generate g {} = .ok files ∧
      ∀ a ∈ files, a.path = (Layout.ofGraph g {}).file ["graph.py"] →
        ∃ f, RoutingFunction.ofText? "route_fork" a.contents = some f ∧ f.key = "turn" ∧ f.returns = ["left"] ∧
          f.container = .text "left" ∧ f.run (fun _ => some "ef") = some "ef" := by
  obtain ⟨g, hg⟩ : ∃ g, Graph.build oneWay = .ok g := ⟨_, rfl⟩
  obtain ⟨files, hfiles⟩ : ∃ files, generate g {} = .ok files := by
    cases hg
    exact ⟨_, rfl⟩
  obtain ⟨-, rfl⟩ := generate_eq_ok_iff.mp hfiles
  obtain ⟨hnil, s, -, rfl⟩ := build_eq_ok_iff.mp hg
  have hmem : ⟨1, [("left", 2)]⟩ ∈ (graphAt oneWay s).branchTables := (mem_branchTables hnil).mpr ⟨⟨_, rfl, rfl⟩, rfl⟩
  have hread : RoutingFunction.ofText? "route_fork"
      (renderLines (assemblyLines (graphAt oneWay s) (Layout.ofGraph (graphAt oneWay s) {}) {})) =
      some ⟨"route_fork", ["left"], "turn", .text "left"⟩ := routing_assemblyLines hnil hmem rfl rfl
  refine ⟨_, _, hg, hfiles, fun a ha hpath => ⟨⟨"route_fork", ["left"], "turn", .text "left"⟩, ?_, rfl, rfl, rfl, by decide⟩⟩
  rw [contents_of_path_eq ha hpath]
  exact hread

end Workflow
