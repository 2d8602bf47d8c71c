import Mathlib
import Workflow.Proofs.Package.Assembly

/-!
# Names bound in a package

The names that the statements of a source bind, read from the statements alone: what is imported, what is defined with which
parameters, what is assigned. In the file that assembles a graph the routing functions have names of their own
(`filter_name_bindings`).
-/

namespace Workflow

/-- A name bound in a source. -/
inductive Binding
  | imported (name : String)
  | function (name : String)
  | parameter (name : String)
  | assigned (name : String)
  deriving DecidableEq

namespace Binding

/-- The name that is bound. -/
def name : Binding → String
  | imported s | function s | parameter s | assigned s => s

/-- The name of a function that is defined. -/
def function? : Binding → Option String
  | function s => some s
  | _ => none

/-- The names that are imported, one after the other. Renamed imports are not read. -/
def imports? : List Lexeme → Option (List Binding)
  | [.name s] => some [imported s]
  | .name s :: .mark ',' :: rest => (imports? rest).map (imported s :: ·)
  | _ => none

/-- The parameters of a function, each with its type, and what follows them. -/
def parameters? : List Lexeme → Option (List Binding × List Lexeme)
  | .mark ')' :: rest => some ([], rest)
  | .mark ',' :: rest => parameters? rest
  | .name s :: .mark ':' :: .name _ :: rest => (parameters? rest).map fun (found, rest) => (parameter s :: found, rest)
  | _ => none

/-- What a statement binds where it begins, and the rest of it. -/
def head? : List Lexeme → Option (List Binding × List Lexeme)
  | .name "from" :: rest => (imports? (rest.dropWhile (· != .name "import")).tail).map fun found => (found, [])
  | .name "def" :: .name s :: .mark '(' :: rest => (parameters? rest).map fun (found, rest) => (function s :: found, rest)
  | .name "if" :: rest => some ([], rest)
  | .name "return" :: rest => some ([], rest)
  | .name "raise" :: rest => some ([], rest)
  | .name s :: .mark '=' :: rest => some ([assigned s], rest)
  | .name _ :: .mark '.' :: rest => some ([], rest)
  | _ => none

/-- The words that bind names, or change what binding them means. -/
def bindingWords : List String := ["import", "def", "class", "for", "as", "lambda", "global", "nonlocal", "del"]

/-- Whether a lexeme may bind names in the midst of a statement. -/
def mayBind : Lexeme → Bool
  | .name s => s ∈ bindingWords
  | .mark c => c == '='
  | .text _ => false

/-- The names that a statement binds. A statement that may bind more than it does where it begins is not read. -/
def ofStatement? (statement : List Lexeme) : Option (List Binding) :=
  (head? statement).bind fun (found, rest) => if rest.any mayBind then none else some found

end Binding

open Binding

/-- A statement binds what it binds where it begins, if nothing after that may bind names. -/
theorem ofStatement?_of_head {statement rest : List Lexeme} {found : List Binding} (h : head? statement = some (found, rest))
    (hrest : rest.any mayBind = false) : Binding.ofStatement? statement = some found := by
  rw [Binding.ofStatement?, h, Option.bind_some]
  simp only [hrest, Bool.false_eq_true, if_false]

/-! ## Lexemes that bind nothing -/

/-- An identifier is none of the words that bind names. -/
theorem mayBind_name {s : String} (h : isIdentifier s = true) : mayBind (.name s) = false := by
  have hwords : ∀ word ∈ bindingWords, word ∈ keywords := by decide
  rw [mayBind, decide_eq_false_iff_not]
  exact fun hmem => (isIdentifier_iff.mp h).2.2 (hwords s hmem)

/-- Texts in a row bind nothing, and neither do they with what may stand around them. -/
theorem any_mayBind_row (labels : List String) {before after : List Lexeme} (hbefore : before.any mayBind = false)
    (hafter : after.any mayBind = false) : (before ++ rowLexemes labels ++ after).any mayBind = false := by
  have hrow : (rowLexemes labels).any mayBind = false := by
    induction labels with
    | nil => rfl
    | cons label labels ih =>
      cases labels with
      | nil => rfl
      | cons next labels => exact ih
  rw [List.any_append, List.any_append, hbefore, hrow, hafter]
  rfl

/-- Identifiers with points between them bind nothing. -/
theorem any_mayBind_dotted {names : List String} (h : ∀ s ∈ names, isIdentifier s = true) :
    (dotted names).any mayBind = false := by
  induction names with
  | nil => rfl
  | cons s names ih =>
    rw [List.forall_mem_cons] at h
    cases names with
    | nil => rw [dotted, List.any_cons, mayBind_name h.1]; rfl
    | cons next names =>
      rw [dotted, List.any_cons, List.any_cons, mayBind_name h.1, ih h.2]
      · rfl
      · exact List.cons_ne_nil _ _

/-- The entries of a table bind nothing. -/
theorem any_mayBind_routes (routes : List (String × String)) : (routes.flatMap routeLexemes).any mayBind = false := by
  rw [List.any_flatMap, List.any_eq_false]
  intro r _
  exact Bool.false_ne_true

/-! ## Statements of a package -/

namespace Call

/-- The names that a call is made with. -/
def names : Call → List String
  | addNode _ runner => runner
  | addBranch _ routing _ => [routing]
  | _ => []

/-- A call of the builder binds nothing. -/
theorem bindings_statement (framework : FrameworkVersion) {call : Call} (h : ∀ s ∈ call.names, isIdentifier s = true) :
    Binding.ofStatement? (call.statement framework) = some [] := by
  have hbuilder : ∀ method arguments, (arguments.any mayBind = false) → mayBind (.name method) = false →
      Binding.ofStatement? (onBuilder method arguments) = some [] := by
    intro method arguments harguments hmethod
    have hhead : head? (onBuilder method arguments) =
        some ([], .name method :: .mark '(' :: (arguments ++ [.mark ')'])) := rfl
    refine ofStatement?_of_head hhead ?_
    rw [List.any_cons, List.any_cons, List.any_append, hmethod, harguments]
    rfl
  cases call with
  | addNode id runner =>
    refine hbuilder _ _ ?_ (by decide)
    have hrunner : (dotted runner).any mayBind = false := any_mayBind_dotted h
    rw [List.any_append, hrunner]
    rfl
  | entry id => cases framework <;> exact hbuilder _ _ rfl (by decide)
  | addEdge source target => exact hbuilder _ _ rfl (by decide)
  | addBranch id routing routes =>
    refine hbuilder _ _ ?_ (by decide)
    have hrouting := mayBind_name (h routing (List.mem_singleton_self _))
    rw [List.any_append, List.any_append, any_mayBind_routes, List.any_cons, List.any_cons, List.any_cons, hrouting]
    rfl
  | finish id => cases framework <;> exact hbuilder _ _ rfl (by decide)

end Call

namespace Package

/-- The names that are imported from a version of the framework. -/
def frameworkBindings : FrameworkVersion → List Binding
  | .newer => [.imported "END", .imported "START", .imported "StateGraph"]
  | .older => [.imported "StateGraph"]

/-- The names that the imports of the file which assembles a graph bind. -/
def importBindings (g : Graph) (l : Layout) (framework : FrameworkVersion) : List Binding :=
  (if g.branchTables.isEmpty then [] else [.imported "Literal"]) ++
    (frameworkBindings framework ++ [.imported "nodes", .imported l.stateClass])

/-- The names of the routing functions, one for each branch table. -/
def routeNames (g : Graph) (l : Layout) : List String := g.branchTables.map fun t => routeFunction (l.slug t.node)

/-- The names that a routing function binds. -/
def routeBindings (l : Layout) (t : BranchTable) : List Binding :=
  [.function (routeFunction (l.slug t.node)), .parameter "state", .assigned "value"]

/-- The names that the file which assembles a graph binds. -/
def assemblyBindings (g : Graph) (l : Layout) (framework : FrameworkVersion) : List Binding :=
  importBindings g l framework ++ g.branchTables.flatMap (routeBindings l) ++
    [.function "build_graph", .assigned "builder", .assigned "graph"]

/-- The names that the imports bind. -/
theorem bindings_importStatements (g : Graph) (l : Layout) (framework : FrameworkVersion) :
    readAll? Binding.ofStatement? (importStatements g l framework) = some (importBindings g l framework) := by
  have htyping : readAll? Binding.ofStatement?
      (if g.branchTables.isEmpty then [] else [[.name "from", .name "typing", .name "import", .name "Literal"]]) =
        some (if g.branchTables.isEmpty then [] else [.imported "Literal"]) := by
    split <;> rfl
  rw [importStatements, importBindings]
  refine readAll?_append htyping ?_
  cases framework <;> rfl

/-- The names that a routing function binds. -/
theorem bindings_tableStatements {g : Graph} {l : Layout} {t : BranchTable} {n : Node} (hn : g.nodes[t.node]? = some n)
    (hk : n.kind = .conditionalBranch) :
    readAll? Binding.ofStatement? (tableStatements g l t) = some (routeBindings l t) := by
  have hhead : Binding.ofStatement? (routeHead (routeFunction (l.slug t.node)) l.stateClass t.labels) =
      some [.function (routeFunction (l.slug t.node)), .parameter "state"] := ofStatement?_of_head rfl (any_mayBind_row _ rfl rfl)
  have htest : Binding.ofStatement? (routeTest t.labels) = some [] := ofStatement?_of_head rfl (any_mayBind_row _ rfl rfl)
  obtain ⟨b, hb⟩ := Build.kind_eq_conditionalBranch_iff.mp hk
  rw [tableStatements, hn]
  simp only [hb]
  rw [routeStatements, readAll?, hhead, readAll?, readAll?, htest]
  rfl

/-! ## The file that assembles the graph -/

section

variable {d : Document} {s : Nat} {options : Options}

/-- The calls of the graph of a document without issues are made with identifiers. -/
theorem isIdentifier_of_mem_names {call : Call}
    (hcall : call ∈ (Build.graphAt d s).calls (Layout.ofGraph (Build.graphAt d s) options)) :
    ∀ name ∈ call.names, isIdentifier name = true := by
  have hslug : ∀ {i : Nat} {n : Node}, (Build.graphAt d s).nodes[i]? = some n →
      isIdentifier ((Layout.ofGraph (Build.graphAt d s) options).slug i) = true := fun hn =>
    Layout.isIdentifier_of_mem_slugs _ (Layout.slug_mem_slugs (List.getElem?_eq_some_iff.mp hn).1)
  rcases mem_calls hcall with ⟨i, n, hn, rfl⟩ | rfl | ⟨k, e, he, hcall⟩ | ⟨i, rfl⟩
  · have hnodes : isIdentifier "nodes" = true := by decide
    have hrun : isIdentifier "run" = true := by decide
    exact List.forall_mem_cons.mpr ⟨hnodes, List.forall_mem_cons.mpr ⟨hslug hn, List.forall_mem_singleton.mpr hrun⟩⟩
  · exact List.forall_mem_nil _
  · rcases edgeCall?_eq_some hcall with rfl | ⟨-, rfl⟩
    · exact List.forall_mem_nil _
    · obtain ⟨n, hn⟩ := exists_source (List.mem_of_getElem? he)
      exact List.forall_mem_singleton.mpr (isIdentifier_routeFunction (hslug hn))
  · exact List.forall_mem_nil _

/-- The names that are bound in the file which assembles the graph of a document without issues. -/
theorem bindings_assemblyStatements (h : Build.issues d = []) :
    readAll? Binding.ofStatement?
        (assemblyStatements (Build.graphAt d s) (Layout.ofGraph (Build.graphAt d s) options) options.framework) =
      some (assemblyBindings (Build.graphAt d s) (Layout.ofGraph (Build.graphAt d s) options) options.framework) := by
  set g := Build.graphAt d s with hg
  set l := Layout.ofGraph g options with hl
  have htables : readAll? Binding.ofStatement? (g.branchTables.flatMap (tableStatements g l)) =
      some (g.branchTables.flatMap (routeBindings l)) := by
    refine readAll?_flatMap fun t ht => ?_
    obtain ⟨n, hn, hk⟩ := ((Build.mem_branchTables h).mp ht).1
    exact bindings_tableStatements hn hk
  have hhead : readAll? Binding.ofStatement? [buildHead] = some [.function "build_graph"] := rfl
  have hbuilder : readAll? Binding.ofStatement? [builderStatement l.stateClass] = some [.assigned "builder"] := by
    have hstate : mayBind (.name l.stateClass) = false := mayBind_name Layout.isIdentifier_stateClass
    have hrest : [.name "StateGraph", .mark '(', .name l.stateClass, .mark ')'].any mayBind = false := by
      rw [List.any_cons, List.any_cons, List.any_cons, hstate]
      rfl
    exact (readAll?_singleton _ _).trans (ofStatement?_of_head rfl hrest)
  have hcalls : readAll? Binding.ofStatement? ((g.calls l).map (Call.statement options.framework)) =
      some ((g.calls l).flatMap fun _ => []) :=
    readAll?_map fun call hcall => Call.bindings_statement options.framework (isIdentifier_of_mem_names hcall)
  have hreturn : readAll? Binding.ofStatement? [returnStatement] = some [] := rfl
  have hcompile : readAll? Binding.ofStatement? [compileStatement] = some [.assigned "graph"] := rfl
  have hbody := readAll?_append (readAll?_append hbuilder hcalls) hreturn
  have hall := readAll?_append (readAll?_append (readAll?_append (readAll?_append
    (bindings_importStatements g l options.framework) htables) hhead) hbody) hcompile
  rw [assemblyStatements, hall, assemblyBindings]
  simp

end

/-! ## Routing functions -/

/-- What does not begin like the name of a routing function is not one. -/
theorem ne_routeFunction {name : String} (h : name.toList.head? ≠ some 'r') (slug : String) : name ≠ routeFunction slug := by
  intro heq
  rw [heq, routeFunction, String.toList_append] at h
  exact h rfl

/-- Slugs that differ have routing functions that differ. -/
theorem routeFunction_injective : Function.Injective routeFunction := fun _ _ h => (String.append_right_inj _).mp h

/-- The functions that are defined: one for each branch table, in order, and the one that builds the graph. -/
theorem filterMap_function? (g : Graph) (l : Layout) (framework : FrameworkVersion) :
    (assemblyBindings g l framework).filterMap function? = routeNames g l ++ ["build_graph"] := by
  have himports : (importBindings g l framework).filterMap function? = [] := by
    rw [importBindings]
    cases framework <;> split <;> rfl
  have htables : (g.branchTables.flatMap (routeBindings l)).filterMap function? = routeNames g l := by
    rw [List.filterMap_flatMap, routeNames, List.map_eq_flatMap]
    rfl
  rw [assemblyBindings, List.filterMap_append, List.filterMap_append, himports, htables]
  rfl

section

variable {d : Document} {s : Nat} {options : Options}

/-- The routing functions of the branch tables of a document without issues have names that differ. -/
theorem nodup_routeNames (h : Build.issues d = []) :
    (routeNames (Build.graphAt d s) (Layout.ofGraph (Build.graphAt d s) options)).Nodup := by
  refine List.Pairwise.map _ (fun t u h => h) ((Build.branchTables_pairwise h s).imp_of_mem fun {t u} ht hu hlt heq => ?_)
  obtain ⟨n, hn, -⟩ := ((Build.mem_branchTables h).mp ht).1
  obtain ⟨m, hm, -⟩ := ((Build.mem_branchTables h).mp hu).1
  have hnode : t.node = u.node := Layout.slug_injective (List.getElem?_eq_some_iff.mp hn).1 (List.getElem?_eq_some_iff.mp hm).1
    (routeFunction_injective heq)
  omega

/-- In the file that assembles a graph nothing but the routing function of a branch table has its name. -/
theorem filter_name_bindings (h : Build.issues d = []) (framework : FrameworkVersion) :
    ∀ route ∈ routeNames (Build.graphAt d s) (Layout.ofGraph (Build.graphAt d s) options),
      (assemblyBindings (Build.graphAt d s) (Layout.ofGraph (Build.graphAt d s) options) framework).filter (·.name == route) =
        [.function route] := by
  intro route hmem
  set g := Build.graphAt d s with hg
  set l := Layout.ofGraph g options with hl
  have hother : ∀ bindings : List Binding, (∀ b ∈ bindings, b.name.toList.head? ≠ some 'r') →
      bindings.filter (·.name == route) = [] := by
    intro bindings hall
    obtain ⟨t, -, rfl⟩ := List.mem_map.mp hmem
    exact List.filter_eq_nil_iff.mpr fun b hb heq => ne_routeFunction (hall b hb) _ (beq_iff_eq.mp heq)
  have himports : (importBindings g l framework).filter (·.name == route) = [] := by
    refine hother _ ?_
    have hstate : l.stateClass.toList.head? ≠ some 'r' := Layout.head?_stateClass_ne (by decide)
    have hframework : ∀ b ∈ frameworkBindings framework, b.name.toList.head? ≠ some 'r' := by
      cases framework <;> decide
    refine List.forall_mem_append.mpr ⟨?_, List.forall_mem_append.mpr ⟨hframework, ?_⟩⟩
    · split <;> decide
    · exact List.forall_mem_cons.mpr ⟨by decide, List.forall_mem_singleton.mpr hstate⟩
  have htables : (g.branchTables.flatMap (routeBindings l)).filter (·.name == route) =
      ((routeNames g l).filter (· == route)).map .function := by
    have hone : ∀ t, (routeBindings l t).filter (·.name == route) =
        ([routeFunction (l.slug t.node)].filter (· == route)).map .function := by
      intro t
      have hlast := hother [.parameter "state", .assigned "value"] (by decide)
      rw [routeBindings, List.filter_cons, hlast, List.filter_singleton]
      cases heq : routeFunction (l.slug t.node) == route <;> simp [Binding.name, heq]
    have hroutes : routeNames g l = g.branchTables.flatMap fun t => [routeFunction (l.slug t.node)] := List.map_eq_flatMap
    rw [hroutes, List.filter_flatMap, List.filter_flatMap, List.map_flatMap]
    exact List.flatMap_congr fun t _ => hone t
  have hcount : (routeNames g l).count route = 1 := List.count_eq_one_of_mem (nodup_routeNames h) hmem
  have hlast := hother [.function "build_graph", .assigned "builder", .assigned "graph"] (by decide)
  rw [assemblyBindings, List.filter_append, List.filter_append, himports, htables, hlast, List.filter_beq, hcount]
  rfl

end

end Package

end Workflow
