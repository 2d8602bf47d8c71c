import Mathlib
import Workflow.Proofs.Package.Bindings
import Workflow.Proofs.Package.Paths

/-!
# Packages that hold together

The files of a package agree on its names, whatever the workflow, its nodes and the package are called
(`generate_consistent`): every name is an identifier, every file has a place of its own, every routing function a name of its own,
and every node module that is imported or run is there.
-/

namespace Workflow

/-! ## The node modules that are run -/

/-- The node modules whose function `run` is named in some lexemes, in order. -/
def runners : List Lexeme → List String
  | .name "nodes" :: .mark '.' :: .name slug :: .mark '.' :: .name "run" :: rest => slug :: runners rest
  | _ :: rest => runners rest
  | [] => []

/-- Where the directory of the node modules is not named, none of them is run. -/
theorem runners_eq_nil {ls : List Lexeme} (h : .name "nodes" ∉ ls) : runners ls = [] := by
  induction ls using runners.induct with
  | case1 slug rest ih => exact absurd List.mem_cons_self h
  | case2 l rest hno ih =>
    rw [runners]
    · exact ih fun hmem => h (List.mem_cons_of_mem _ hmem)
    · exact hno
  | case3 => rfl

/-- A name in a row of names with points between them is one of them. -/
theorem mem_of_mem_dotted {s : String} {names : List String} (h : .name s ∈ dotted names) : s ∈ names := by
  induction names with
  | nil => cases h
  | cons first names ih =>
    cases names with
    | nil => exact List.mem_singleton.mpr (Lexeme.name.inj (List.mem_singleton.mp h))
    | cons next names =>
      rw [dotted, List.mem_cons, List.mem_cons] at h
      · rcases h with heq | heq | hmem
        · exact List.mem_cons.mpr (Or.inl (Lexeme.name.inj heq))
        · cases heq
        · exact List.mem_cons_of_mem _ (ih hmem)
      · exact List.cons_ne_nil _ _

/-- Labels in a row are texts and no names. -/
theorem name_not_mem_row (s : String) (labels : List String) : .name s ∉ rowLexemes labels := by
  induction labels with
  | nil => exact List.not_mem_nil
  | cons label labels ih =>
    cases labels with
    | nil => exact fun hmem => Lexeme.noConfusion (List.mem_singleton.mp hmem)
    | cons next labels =>
      intro hmem
      rcases List.mem_cons.mp hmem with heq | hmem
      · cases heq
      · rcases List.mem_cons.mp hmem with heq | hmem
        · cases heq
        · exact ih hmem

namespace Call

/-- A call that is not made with the directory of the node modules does not name it. -/
theorem nodes_not_mem_statement (framework : FrameworkVersion) {call : Call} (h : "nodes" ∉ call.names) :
    .name "nodes" ∉ call.statement framework := by
  have hbuilder : ∀ method arguments, method ≠ "nodes" → .name "nodes" ∉ arguments →
      .name "nodes" ∉ onBuilder method arguments := by
    intro method arguments hmethod harguments
    simp [onBuilder, harguments, hmethod.symm]
  cases call with
  | addNode id runner =>
    have hrunner : .name "nodes" ∉ dotted runner := fun hmem => h (mem_of_mem_dotted hmem)
    refine hbuilder _ _ (by decide) ?_
    simp [hrunner]
  | entry id => cases framework <;> exact hbuilder _ _ (by decide) (by simp)
  | addEdge source target => exact hbuilder _ _ (by decide) (by simp)
  | addBranch id routing routes =>
    have hrouting : "nodes" ≠ routing := fun heq => h (List.mem_singleton.mpr heq)
    refine hbuilder _ _ (by decide) ?_
    simp [hrouting, routeLexemes]
  | finish id => cases framework <;> exact hbuilder _ _ (by decide) (by simp)

/-- A call that adds a node runs the function of its module. -/
theorem runners_addNode (framework : FrameworkVersion) (id slug : String) :
    runners ((addNode id ["nodes", slug, "run"]).statement framework) = [slug] := by
  rfl

end Call

namespace Package

variable {g : Graph} {options : Options}

/-- The calls of a graph run the modules of its nodes. -/
theorem runners_calls (g : Graph) (options : Options) (framework : FrameworkVersion) :
    ((g.calls (Layout.ofGraph g options)).map (Call.statement framework)).flatMap runners =
      (Layout.ofGraph g options).slugs := by
  set l := Layout.ofGraph g options with hl
  have hnone : ∀ calls : List Call, (∀ call ∈ calls, "nodes" ∉ call.names) →
      (calls.map (Call.statement framework)).flatMap runners = [] := by
    intro calls hall
    rw [List.flatMap_map, List.flatMap_eq_nil_iff]
    exact fun call hcall => runners_eq_nil (Call.nodes_not_mem_statement framework (hall call hcall))
  have hnodes : ((g.nodes.zipIdx.map fun x => Call.addNode x.1.id ["nodes", l.slug x.2, "run"]).map
      (Call.statement framework)).flatMap runners = l.slugs := by
    rw [List.map_map, List.flatMap_map, ← Layout.map_slug_zipIdx, List.map_eq_flatMap]
    exact List.flatMap_congr fun x _ => Call.runners_addNode framework x.1.id (l.slug x.2)
  have hedges : ∀ call ∈ g.edgeCalls l, "nodes" ∉ call.names := by
    intro call hcall
    obtain ⟨x, -, hcall⟩ := List.mem_filterMap.mp hcall
    rcases edgeCall?_eq_some hcall with rfl | ⟨-, rfl⟩
    · exact List.not_mem_nil
    · exact fun hmem => ne_routeFunction (by decide) _ (List.mem_singleton.mp hmem)
  have hfinish : ∀ call ∈ g.terminals.map fun i => Call.finish (g.idAt i), "nodes" ∉ call.names := by
    intro call hcall
    obtain ⟨i, -, rfl⟩ := List.mem_map.mp hcall
    exact List.not_mem_nil
  have hentry : ∀ call ∈ [Call.entry (g.idAt g.entry)], "nodes" ∉ call.names :=
    List.forall_mem_singleton.mpr List.not_mem_nil
  have hcalls : g.calls l = (g.nodes.zipIdx.map fun x => Call.addNode x.1.id ["nodes", l.slug x.2, "run"]) ++
      [.entry (g.idAt g.entry)] ++ g.edgeCalls l ++ g.terminals.map fun i => .finish (g.idAt i) := rfl
  rw [hcalls]
  simp only [List.map_append, List.flatMap_append]
  rw [hnodes, hnone _ hentry, hnone _ hedges, hnone _ hfinish, List.append_nil, List.append_nil, List.append_nil]

/-- The statements of a routing function do not name the directory of the node modules. -/
theorem nodes_not_mem_tableStatements {l : Layout} (hstate : "nodes" ≠ l.stateClass) (t : BranchTable) :
    ∀ statement ∈ tableStatements g l t, .name "nodes" ∉ statement := by
  have hroute : "nodes" ≠ routeFunction (l.slug t.node) := ne_routeFunction (by decide) _
  have hall : ∀ n on, ∀ statement ∈ routeStatements l n on t, .name "nodes" ∉ statement := by
    intro n on
    simp [routeStatements, routeHead, routeTest, name_not_mem_row, hstate, hroute]
  rw [tableStatements]
  split
  · split
    · exact hall _ _
    · exact List.forall_mem_nil _
  · exact List.forall_mem_nil _

/-- The class of the state has not the name of the directory of the node modules. -/
theorem nodes_ne_stateClass : "nodes" ≠ (Layout.ofGraph g options).stateClass := by
  have hhead : "nodes".toList.head? = some 'n' := rfl
  intro heq
  rw [heq] at hhead
  exact Layout.head?_stateClass_ne (by decide) hhead

/-- The node modules that the file which assembles a graph runs are those of the nodes, in order. -/
theorem flatMap_runners (g : Graph) (options : Options) (framework : FrameworkVersion) :
    (assemblyStatements g (Layout.ofGraph g options) framework).flatMap runners = (Layout.ofGraph g options).slugs := by
  set l := Layout.ofGraph g options with hl
  have hstate : "nodes" ≠ l.stateClass := nodes_ne_stateClass
  have hnone : ∀ statements : List (List Lexeme), (∀ statement ∈ statements, .name "nodes" ∉ statement) →
      statements.flatMap runners = [] := fun statements hall =>
    List.flatMap_eq_nil_iff.mpr fun statement hs => runners_eq_nil (hall statement hs)
  have himports : (importStatements g l framework).flatMap runners = [] := by
    have hsibling : runners (siblingImport "nodes") = [] := rfl
    have hlast : runners [.name "from", .mark '.', .name "state", .name "import", .name l.stateClass] = [] :=
      runners_eq_nil (by simp [hstate])
    rw [importStatements]
    cases framework <;> split <;> simp [hsibling, hlast, frameworkImport, runners]
  have htables : (g.branchTables.flatMap (tableStatements g l)).flatMap runners = [] := by
    refine hnone _ fun statement hs => ?_
    obtain ⟨t, -, hs⟩ := List.mem_flatMap.mp hs
    exact nodes_not_mem_tableStatements hstate t statement hs
  have hbuilder : runners (builderStatement l.stateClass) = [] := runners_eq_nil (by simp [builderStatement, hstate])
  have hhead : runners buildHead = [] := runners_eq_nil (by decide)
  have hreturn : runners returnStatement = [] := runners_eq_nil (by decide)
  have hcompile : runners compileStatement = [] := runners_eq_nil (by decide)
  have hcalls : ((g.calls l).map (Call.statement framework)).flatMap runners = l.slugs := runners_calls g options framework
  simp only [assemblyStatements, List.flatMap_append, himports, htables, hcalls, List.flatMap_singleton, hbuilder, hhead, hreturn,
    hcompile, List.nil_append, List.append_nil]

/-! ## A package that holds together -/

/-- The file that assembles a graph defines one routing function for each branch table, each with a name that nothing else in the
file has, and runs the module of each node. -/
structure Routes (g : Graph) (l : Layout) (text : String) : Prop where
  distinct : (routeNames g l).Nodup
  read : ∃ (statements : List (List Lexeme)) (bindings : List Binding), statementsOf? text = some statements ∧
    readAll? Binding.ofStatement? statements = some bindings ∧
    bindings.filterMap Binding.function? = routeNames g l ++ ["build_graph"] ∧
    (∀ route ∈ routeNames g l, bindings.filter (·.name == route) = [.function route]) ∧
    statements.flatMap runners = l.slugs

/-- The files of a package agree on its names. -/
structure Consistent (g : Graph) (l : Layout) (files : List Artifact) : Prop where
  module : isIdentifier l.module = true
  stateClass : isIdentifier l.stateClass = true
  slugs : ∀ slug ∈ l.slugs, isIdentifier slug = true
  perNode : l.slugs.length = g.nodes.length
  distinct : l.slugs.Nodup
  distinctLower : (l.slugs.map String.toLower).Nodup
  notInit : "__init__" ∉ l.slugs
  ownPaths : (files.map fun a => Path.ofText a.path).Nodup
  leadDown : ∀ a ∈ files, (∀ part ∈ Path.ofText a.path, Path.LeadsDown part) ∧
    ∃ second rest, Path.ofText a.path = l.module :: second :: rest
  root : packageRoot none files = .ok l.module
  assembly : ∃ a ∈ files, a.path = l.file ["graph.py"] ∧ Routes g l a.contents
  index : ∃ a ∈ files, a.path = l.file ["nodes", "__init__.py"] ∧ statementsOf? a.contents = some (l.slugs.map siblingImport)
  modules : ∀ slug ∈ l.slugs, ∃ a ∈ files, a.path = l.file ["nodes", slug ++ ".py"]

variable {d : Document} {s : Nat}

/-- The file that assembles the graph of a document without issues. -/
theorem routes_assemblyLines (h : Build.issues d = []) :
    Routes (Build.graphAt d s) (Layout.ofGraph (Build.graphAt d s) options)
      (renderLines (assemblyLines (Build.graphAt d s) (Layout.ofGraph (Build.graphAt d s) options) options)) where
  distinct := nodup_routeNames h
  read := ⟨_, _, statementsOf?_assemblyLines h, bindings_assemblyStatements h, filterMap_function? _ _ _,
    filter_name_bindings h _, flatMap_runners _ _ _⟩

/-- Every slug has the module of its node in the package. -/
theorem exists_module {slug : String} (h : slug ∈ (Layout.ofGraph g options).slugs) :
    ∃ a ∈ artifacts g options, a.path = (Layout.ofGraph g options).file ["nodes", slug ++ ".py"] := by
  rw [← Layout.map_slug_zipIdx] at h
  obtain ⟨x, hx, rfl⟩ := List.mem_map.mp h
  exact ⟨_, List.mem_append_left _ (List.mem_append_right _ (List.mem_map_of_mem hx)), rfl⟩

/-- The package of the graph of a document without issues holds together. -/
theorem consistent_artifacts (h : Build.issues d = []) :
    Consistent (Build.graphAt d s) (Layout.ofGraph (Build.graphAt d s) options) (artifacts (Build.graphAt d s) options) where
  module := Layout.isIdentifier_module
  stateClass := Layout.isIdentifier_stateClass
  slugs := Layout.isIdentifier_of_mem_slugs
  perNode := Layout.length_slugs
  distinct := Layout.nodup_slugs
  distinctLower := nodup_toLower_slugs
  notInit := init_not_mem_slugs
  ownPaths := nodup_paths
  leadDown := fun _ ha => leadsDown_of_mem_artifacts ha
  root := packageRoot_artifacts
  assembly := ⟨_, List.mem_append_right _ (List.mem_singleton_self _), rfl, routes_assemblyLines h⟩
  index := ⟨_, List.mem_append_left _ (List.mem_append_left _ (List.getLast_mem (List.cons_ne_nil _ _))), rfl,
    statementsOf?_nodeIndexLines _ _⟩
  modules := fun _ hslug => exists_module hslug

end Package

open Package

/-- Every package that is generated for a built graph holds together, whatever the workflow, the package and the nodes are
called. -/
theorem generate_consistent (d : Document) (g : Graph) (options : Options) (files : List Artifact)
    (hbuild : Graph.build d = .ok g) (hgenerate : generate g options = .ok files) :
    Consistent g (Layout.ofGraph g options) files := by
  obtain ⟨-, rfl⟩ := generate_eq_ok_iff.mp hgenerate
  obtain ⟨hnil, s, -, rfl⟩ := Build.build_eq_ok_iff.mp hbuild
  exact consistent_artifacts hnil

/-- A workflow whose name has no letter that an identifier may hold, with nodes whose ids become the same words, a keyword, or words
that begin with a digit. -/
def namesakes : Document where
  name := "Опрос"
  description := none
  version := none
  entry := "a"
  nodes := [⟨"a", .start [⟨"topic", .string⟩], none⟩, ⟨"A", .conditionalBranch ⟨"verdict", ["yes", "no"]⟩, none⟩,
    ⟨"a-2", .transform [], none⟩, ⟨"class", .conditionalBranch ⟨"verdict", ["again", "done"]⟩, none⟩, ⟨"3x", .finish [], none⟩]
  edges := [⟨"a", "A", none⟩, ⟨"A", "a-2", some "yes"⟩, ⟨"A", "class", some "no"⟩, ⟨"a-2", "3x", none⟩,
    ⟨"class", "A", some "again"⟩, ⟨"class", "3x", some "done"⟩]

/-- The package of such a workflow holds together, with names that had to be found for it. -/
theorem generate_consistent_namesakes :
    ∃ g files, Graph.build namesakes = .ok g ∧ generate g {} = .ok files ∧ Consistent g (Layout.ofGraph g {}) files ∧
      (Layout.ofGraph g {}).module = "workflow" ∧ (Layout.ofGraph g {}).slugs = ["a", "a_2", "a_2_2", "class_", "n_3x"] ∧
      routeNames g (Layout.ofGraph g {}) = ["route_a_2", "route_class_"] := by
  obtain ⟨g, hg⟩ : ∃ g, Graph.build namesakes = .ok g := ⟨_, rfl⟩
  obtain ⟨files, hfiles⟩ : ∃ files, generate g {} = .ok files := by
    cases hg
    exact ⟨_, rfl⟩
  refine ⟨g, files, hg, hfiles, generate_consistent namesakes g {} files hg hfiles, ?_⟩
  cases hg
  decide

end Workflow
