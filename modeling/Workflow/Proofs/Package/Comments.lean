import Mathlib
import Workflow.Package.Generate
import Workflow.Proofs.Package.Body
import Workflow.Proofs.Package.CodeLine
import Workflow.Proofs.Package.Defect
import Workflow.Proofs.Package.Sealed

/-!
# Comments of a package

Comments never change the program (`comments_change_nothing`). A package with comments and one without them differ in whole lines.
Each place that writes a comment gives it lines of its own which begin with `#`, whatever the texts of the workflow are, so that the
rest of a file is the same in both packages; and no line of this rest begins so, whatever names and literals it is made of.
-/

namespace Workflow

/-! ## The same program -/

/-- The lines that are no comments. -/
def withoutComments (lines : List (List Char)) : List (List Char) := lines.filter (!isComment ·)

/-- The lines that are not blank. -/
def withoutBlanks (lines : List (List Char)) : List (List Char) := lines.filter (!·.all isBlank)

/-- A file with comments and a file without them hold the same program: they have the same path, the lines of the one but its
comments are those of the other, blank lines aside, and the other has no comment. -/
structure SameProgram (commented plain : Artifact) : Prop where
  path : commented.path = plain.path
  lines : withoutBlanks (withoutComments (linesOf commented.contents)) = withoutBlanks (linesOf plain.contents)
  uncommented : ∀ line ∈ linesOf plain.contents, isComment line = false

/-! ## Code with comments -/

/-- The lines of code that a line of a source stands for: neither comments nor blank. -/
def Line.code (l : Line) : List (List Char) := withoutBlanks (withoutComments (l.physical.map String.toList))

/-- The lines of code of a source are those of its lines. -/
theorem code_renderLines (lines : List Line) :
    withoutBlanks (withoutComments (linesOf (renderLines lines))) = lines.flatMap Line.code := by
  rw [lines_renderLines, withoutComments, withoutBlanks, List.filter_append, List.filter_append, List.map_flatMap,
    List.filter_flatMap, List.filter_flatMap]
  exact List.append_nil _

/-- A line whose text begins with `#` stands for no code. -/
theorem code_of_head {l : Line} (hclean : OneLine l.text) (hhead : l.text.toList.head? = some '#') : l.code = [] := by
  have hcomment : isComment (indentation l.depth ++ l.text).toList = true := by
    obtain ⟨rest, hrest⟩ := List.head?_eq_some_iff.mp hhead
    rw [isComment_indented, hrest]
    rfl
  rw [Line.code, physical_eq hclean hhead, List.map_singleton, withoutComments, List.filter_singleton, hcomment]
  rfl

/-- An empty line stands for no code. -/
theorem code_blankLine : blankLine.code = [] := by decide

/-- The same options with or without comments. -/
def Options.commenting (options : Options) (comments : Bool) : Options := { options with includeComments := comments }

namespace Package

variable {g : Graph} {options : Options} {l : Layout} {comments : Bool}

/-- The comment that says what a file is is on one line, whatever the name of the workflow is. -/
theorem oneLine_subject {what : String} (hwhat : OneLine what) :
    OneLine ("# " ++ what ++ " for workflow '" ++ foldBlank g.name ++ "'.") :=
  (((OneLine.append (by decide) hwhat).append (by decide)).append (oneLine_foldBlank g.name)).append (by decide)

/-- So is the comment on the origin of a file. -/
theorem oneLine_origin (framework : FrameworkVersion) :
    OneLine ("# Generated by flowc (framework API " ++ framework.text ++ "). Do not edit by hand.") := by
  have hversion : OneLine framework.text := by cases framework <;> decide
  exact (OneLine.append (by decide) hversion).append (by decide)

/-- So is the comment that names a node, whatever its id is. -/
theorem oneLine_source (n : Node) : OneLine ("# Source node '" ++ foldBlank n.id ++ "' (" ++ n.kind.text ++ ").") := by
  have hkind : OneLine n.kind.text := by cases n.kind <;> decide
  exact (((OneLine.append (by decide) (oneLine_foldBlank n.id)).append (by decide)).append hkind).append (by decide)

/-- The comment at the head of a file holds no code. -/
theorem code_header {what : String} (hwhat : OneLine what) : (header g options what).flatMap Line.code = [] := by
  rw [header]
  split
  · have hsubject : (top ("# " ++ what ++ " for workflow '" ++ foldBlank g.name ++ "'.")).code = [] :=
      code_of_head (oneLine_subject hwhat)
        (head?_append (head?_append (head?_append (head?_append (c := '#') (by decide) _) _) _) _)
    have horigin : (top ("# Generated by flowc (framework API " ++ options.framework.text ++ "). Do not edit by hand.")).code = [] :=
      code_of_head (oneLine_origin _) (head?_append (head?_append (c := '#') (by decide) _) _)
    rw [List.flatMap_cons, List.flatMap_cons, List.flatMap_singleton, hsubject, horigin, code_blankLine]
    rfl
  · rfl

/-- The comment with the description of the workflow holds no code. -/
theorem code_descriptionComment : (descriptionComment g options).flatMap Line.code = [] := by
  rw [descriptionComment]
  split
  · next description _ _ =>
    have htext : (top ("# " ++ foldBlank description)).code = [] :=
      code_of_head (OneLine.append (by decide) (oneLine_foldBlank description)) (head?_append (c := '#') (by decide) _)
    rw [List.flatMap_cons, List.flatMap_singleton, htext, code_blankLine]
    rfl
  · rfl

/-- The comment that names a node holds no code. -/
theorem code_nodeComment (n : Node) (depth : Nat) : (nodeComment n options depth).flatMap Line.code = [] := by
  rw [nodeComment]
  split
  · rw [List.flatMap_singleton]
    exact code_of_head (oneLine_source n) (head?_append (head?_append (head?_append (head?_append (c := '#') (by decide) _) _) _) _)
  · rfl

/-! ## The files with and without comments -/

/-- The code of the package's own file does not depend on comments. -/
theorem code_packageLines :
    (packageLines g l (options.commenting comments)).flatMap Line.code = (packageLines g l options).flatMap Line.code := by
  have hwhat : OneLine "Package entry point" := by decide
  simp only [packageLines, List.flatMap_append, code_header hwhat, code_descriptionComment]

/-- The code of the state does not depend on comments. -/
theorem code_stateLines :
    (stateLines g l (options.commenting comments)).flatMap Line.code = (stateLines g l options).flatMap Line.code := by
  have hwhat : OneLine "Shared state schema" := by decide
  simp only [stateLines, List.flatMap_append, code_header hwhat]

/-- The code of the runtime does not depend on comments. -/
theorem code_runtimeLines :
    (runtimeLines g (options.commenting comments)).flatMap Line.code = (runtimeLines g options).flatMap Line.code := by
  have hwhat : OneLine "Runtime hooks" := by decide
  simp only [runtimeLines, List.flatMap_append, code_header hwhat]

/-- The code that gathers the node modules does not depend on comments. -/
theorem code_nodeIndexLines :
    (nodeIndexLines g l (options.commenting comments)).flatMap Line.code = (nodeIndexLines g l options).flatMap Line.code := by
  have hwhat : OneLine "Node modules" := by decide
  simp only [nodeIndexLines, List.flatMap_append, code_header hwhat]

/-- The code of a node does not depend on comments. -/
theorem code_nodeLines (n : Node) :
    (nodeLines g n l (options.commenting comments)).flatMap Line.code = (nodeLines g n l options).flatMap Line.code := by
  have hwhat : OneLine "Node module" := by decide
  simp only [nodeLines, List.flatMap_append, code_header hwhat, code_nodeComment]

/-- The code that assembles the graph does not depend on comments. -/
theorem code_assemblyLines :
    (assemblyLines g l (options.commenting comments)).flatMap Line.code = (assemblyLines g l options).flatMap Line.code := by
  have hwhat : OneLine "Graph assembly" := by decide
  have himports : assemblyImports g l (options.commenting comments) = assemblyImports g l options := rfl
  have hframework : (options.commenting comments).framework = options.framework := rfl
  simp only [assemblyLines, buildLines, addNodeLines, List.flatMap_append, List.flatMap_assoc, code_header hwhat,
    code_nodeComment, himports, hframework]

end Package

/-! ## The files without comments -/

/-- Lines of a source that are all code. -/
def CodeOnly (lines : List Line) : Prop := ∀ l ∈ lines, l.IsCode

namespace CodeOnly

variable {lines lines' : List Line} {l : Line}

/-- Where there is no line there is no comment. -/
theorem nil : CodeOnly [] := fun _ h => absurd h List.not_mem_nil

/-- A line of code before others. -/
theorem cons (h : l.IsCode) (h' : CodeOnly lines) : CodeOnly (l :: lines) := List.forall_mem_cons.mpr ⟨h, h'⟩

/-- A line of code by itself. -/
theorem one (h : l.IsCode) : CodeOnly [l] := cons h nil

/-- Code after code. -/
theorem append (h : CodeOnly lines) (h' : CodeOnly lines') : CodeOnly (lines ++ lines') := List.forall_mem_append.mpr ⟨h, h'⟩

end CodeOnly

/-- An empty line is no comment. -/
theorem isCode_blankLine : blankLine.IsCode := by
  have hempty : readCode true [] = some true := rfl
  exact isCode_of_readCode hempty 0

/-- The lines that stand in a package as they are are code. -/
theorem isCode_statement {s : String} (hs : s ∈ statements) (depth : Nat) : (Line.mk depth s).IsCode := by
  have hall : ∀ s ∈ statements, ∃ cs, s = String.ofList cs ∧ readCode true cs = some false := by
    unfold statements
    repeat refine List.forall_mem_cons.mpr ⟨⟨_, rfl, by decide⟩, ?_⟩
    exact fun s hs => absurd hs List.not_mem_nil
  obtain ⟨cs, rfl, hcs⟩ := hall s hs
  exact isCode_of_readCode hcs depth

namespace Package

open CodeOnly (nil cons one append)

variable {g : Graph} {options : Options} {l : Layout}

/-- Without comments there is none at the head of a file. -/
theorem header_eq_nil (h : options.includeComments = false) (what : String) : header g options what = [] := by
  rw [header, h]
  rfl

/-- Without comments there is none that names a node. -/
theorem nodeComment_eq_nil (h : options.includeComments = false) (n : Node) (depth : Nat) : nodeComment n options depth = [] := by
  rw [nodeComment, h]
  rfl

/-- Without comments there is none with the description of the workflow. -/
theorem descriptionComment_eq_nil (h : options.includeComments = false) : descriptionComment g options = [] := by
  rw [descriptionComment, h]

/-- Without comments the file of the package itself is code alone. -/
theorem codeOnly_packageLines (h : options.includeComments = false) (hstate : OneLine l.stateClass) :
    CodeOnly (packageLines g l options) := by
  have hrow : OneLine (", ".intercalate ([l.stateClass, "build_graph", "graph"].map stringLiteral)) := by
    refine oneLine_intercalate (by decide) fun part hp => ?_
    obtain ⟨name, -, rfl⟩ := List.mem_map.mp hp
    exact LexMode.oneLine_stringLiteral name
  have himport : Solid ("from .state import " ++ l.stateClass) := Solid.append (by decide) hstate
  have hall : Solid ("__all__ = [" ++ ", ".intercalate ([l.stateClass, "build_graph", "graph"].map stringLiteral) ++ "]") :=
    (Solid.append (by decide) hrow).append (by decide)
  rw [packageLines, header_eq_nil h, descriptionComment_eq_nil h]
  exact cons (isCode_statement (by simp [statements]) 0) (cons (himport.isCode 0) (cons isCode_blankLine (one (hall.isCode 0))))

/-- The state as a class is code alone. -/
theorem codeOnly_stateClassLines (hstate : OneLine l.stateClass) {state : Keyed FieldType}
    (hkeys : state.keys.all isIdentifier = true) : CodeOnly (stateClassLines l state) := by
  have hhead : Solid ("class " ++ l.stateClass ++ "(TypedDict, total=False):") :=
    (Solid.append (by decide) hstate).append (by decide)
  rw [stateClassLines]
  refine cons (hhead.isCode 0) ?_
  split
  · exact one (isCode_statement (by simp [statements]) 1)
  · intro line hline
    obtain ⟨⟨key, type⟩, hkey, rfl⟩ := List.mem_map.mp hline
    have hname : IsNameText key := (isIdentifier_iff.mp (List.all_eq_true.mp hkeys key (List.mem_map_of_mem hkey))).1
    have htype : OneLine type.annotation := by cases type <;> decide
    exact (((Solid.of_isNameText hname).append (by decide)).append htype).isCode 1

/-- The state as a call is code alone, whatever its keys are. -/
theorem codeOnly_stateCallLines (hstate : IsNameText l.stateClass) (state : Keyed FieldType) :
    CodeOnly (stateCallLines l state) := by
  have hhead : Solid (l.stateClass ++ " = TypedDict(") := (Solid.of_isNameText hstate).append (by decide)
  have hname : Solid (stringLiteral l.stateClass ++ ",") := (Solid.stringLiteral _).append (by decide)
  rw [stateCallLines]
  refine append (append (cons (hhead.isCode 0) (cons (hname.isCode 1) (one (isCode_statement (by simp [statements]) 1)))) ?_) ?_
  · intro line hline
    obtain ⟨⟨key, type⟩, -, rfl⟩ := List.mem_map.mp hline
    have htype : OneLine type.annotation := by cases type <;> decide
    exact ((((Solid.stringLiteral key).append (by decide)).append htype).append (by decide)).isCode 2
  · exact cons (isCode_statement (by simp [statements]) 1) (cons (isCode_statement (by simp [statements]) 1)
      (one (isCode_statement (by simp [statements]) 0)))

/-- Without comments the file of the state is code alone. -/
theorem codeOnly_stateLines (h : options.includeComments = false) (hstate : IsNameText l.stateClass) :
    CodeOnly (stateLines g l options) := by
  rw [stateLines, header_eq_nil h]
  refine append (append nil (cons ?_ (cons isCode_blankLine (one isCode_blankLine)))) ?_
  · split <;> exact isCode_statement (by simp [statements]) 0
  · split
    · next hkeys => exact codeOnly_stateClassLines hstate.oneLine hkeys
    · exact codeOnly_stateCallLines hstate _

/-- Without comments the file of the runtime is code alone. -/
theorem codeOnly_runtimeLines (h : options.includeComments = false) : CodeOnly (runtimeLines g options) := by
  have hall : ∀ s ∈ runtimeBody, ∃ cs, s = String.ofList cs ∧ ∃ fresh, readCode true cs = some fresh := by
    unfold runtimeBody
    repeat refine List.forall_mem_cons.mpr ⟨⟨_, rfl, by decide⟩, ?_⟩
    exact fun s hs => absurd hs List.not_mem_nil
  rw [runtimeLines, header_eq_nil h]
  refine append nil fun line hline => ?_
  obtain ⟨s, hs, rfl⟩ := List.mem_map.mp hline
  obtain ⟨cs, rfl, fresh, hcs⟩ := hall s hs
  exact isCode_of_readCode hcs 0

/-- Without comments the file that gathers the node modules is code alone. -/
theorem codeOnly_nodeIndexLines (h : options.includeComments = false) (hslugs : ∀ slug ∈ l.slugs, OneLine slug) :
    CodeOnly (nodeIndexLines g l options) := by
  rw [nodeIndexLines, header_eq_nil h]
  refine append nil fun line hline => ?_
  obtain ⟨slug, hslug, rfl⟩ := List.mem_map.mp hline
  have himport : Solid ("from . import " ++ slug) := Solid.append (by decide) (hslugs slug hslug)
  exact himport.isCode 0

/-- The lines that give back the result of a call are code. -/
theorem codeOnly_resultLines (outputKey : Option String) {call : String} (hcall : call ∈ statements) (hclean : OneLine call) :
    CodeOnly (resultLines outputKey call) := by
  have hresult : Solid ("result = " ++ call) := Solid.append (by decide) hclean
  cases outputKey with
  | none => exact cons (isCode_statement hcall 1) (one (isCode_statement (by simp [statements]) 1))
  | some key => exact cons (hresult.isCode 1) (one (isCode_statement (by simp [statements]) 1))

/-- The body of the function that runs a node is code alone. -/
theorem codeOnly_runLines (spec : NodeSpec) : CodeOnly (runLines spec) := by
  cases spec with
  | start inputs =>
    exact cons (isCode_statement (by simp [statements]) 1) (cons (isCode_statement (by simp [statements]) 1)
      (cons (isCode_statement (by simp [statements]) 2) (one (isCode_statement (by simp [statements]) 1))))
  | llmCall call => exact cons (isCode_statement (by simp [statements]) 1) (codeOnly_resultLines _ (by simp [statements]) (by decide))
  | toolCall call => exact codeOnly_resultLines _ (by simp [statements]) (by decide)
  | conditionalBranch b => exact one (isCode_statement (by simp [statements]) 1)
  | transform assign => exact one (isCode_statement (by simp [statements]) 1)
  | finish outputs => exact one (isCode_statement (by simp [statements]) 1)

/-- Without comments the file of a node is code alone. Only here literals spread over lines. -/
theorem codeOnly_nodeLines (h : options.includeComments = false) (hstate : OneLine l.stateClass) (n : Node) :
    CodeOnly (nodeLines g n l options) := by
  have himport : Solid ("from ..state import " ++ l.stateClass) := Solid.append (by decide) hstate
  have hid : Solid ("NODE_ID = " ++ stringLiteral n.id) := Solid.append_solid (by decide) (Solid.stringLiteral _)
  have hkind : Solid ("KIND = " ++ stringLiteral n.kind.text) := Solid.append_solid (by decide) (Solid.stringLiteral _)
  have hconfig : Solid ("CONFIG = " ++ literal 0 n.spec.payload) := Solid.append_solid (by decide) (Solid.literal 0 _)
  have hdisplay : Solid ("DISPLAY = " ++ displayLiteral n) := by
    refine Solid.append_solid (by decide) ?_
    rw [displayLiteral]
    cases n.display with
    | none => decide
    | some v => exact Solid.literal 0 v
  have hrun : Solid ("def run(state: " ++ l.stateClass ++ ") -> Dict[str, Any]:") :=
    (Solid.append (by decide) hstate).append (by decide)
  rw [nodeLines, nodeComment_eq_nil h, header_eq_nil h]
  refine append (append (append (append (append (append nil nil) ?_) ?_) ?_) ?_) (codeOnly_runLines n.spec)
  · split
    · exact one (isCode_statement (by simp [statements]) 0)
    · exact nil
  · exact cons (isCode_statement (by simp [statements]) 0) (one isCode_blankLine)
  · rw [nodeImports.eq_def]
    split
    · exact one (isCode_statement (by simp [statements]) 0)
    · exact one (isCode_statement (by simp [statements]) 0)
    · exact nil
  · exact cons (himport.isCode 0) (cons isCode_blankLine (cons (hid.isCode 0) (cons (hkind.isCode 0) (cons (hconfig.isCode 0)
      (cons (hdisplay.isCode 0) (cons isCode_blankLine (cons isCode_blankLine (one (hrun.isCode 0)))))))))

/-- The routing function of a branching node is code alone. -/
theorem codeOnly_routeLines (hstate : OneLine l.stateClass) (hslugs : ∀ i, OneLine (l.slug i)) (n : Node) (on : String)
    (t : BranchTable) : CodeOnly (routeLines l n on t) := by
  have hroute : OneLine (routeFunction (l.slug t.node)) := OneLine.append (by decide) (hslugs t.node)
  have hhead : Solid ("def " ++ routeFunction (l.slug t.node) ++ "(state: " ++ l.stateClass ++ ") -> Literal[" ++
      labelRow t ++ "]:") :=
    (((((Solid.append (by decide) hroute).append (by decide)).append hstate).append (by decide)).append
      (oneLine_labelRow t)).append (by decide)
  have hvalue : Solid ("value = state.get(" ++ stringLiteral on ++ ")") := Solid.around (by decide) on (by decide)
  have htest : Solid ("if value in (" ++ labelRow t ++ "):") :=
    (Solid.append (by decide) (oneLine_labelRow t)).append (by decide)
  have hraise : Solid ("raise ValueError(" ++ stringLiteral ("no branch of node '" ++ n.id ++ "' matches ") ++
      " + repr(value))") := Solid.around (by decide) _ (by decide)
  rw [routeLines]
  exact cons isCode_blankLine (cons isCode_blankLine (cons (hhead.isCode 0) (cons (hvalue.isCode 1) (cons (htest.isCode 1)
    (cons (isCode_statement (by simp [statements]) 2) (one (hraise.isCode 1)))))))

/-- The routing function of a table is code alone. -/
theorem codeOnly_tableLines (hstate : OneLine l.stateClass) (hslugs : ∀ i, OneLine (l.slug i)) (t : BranchTable) :
    CodeOnly (tableLines g l t) := by
  rw [tableLines]
  split
  · split
    · exact codeOnly_routeLines hstate hslugs _ _ t
    · exact nil
  · exact nil

/-- Without comments the call that adds a node is code alone. -/
theorem codeOnly_addNodeLines (h : options.includeComments = false) (hslugs : ∀ i, OneLine (l.slug i)) (n : Node) (i : Nat) :
    CodeOnly (addNodeLines l options n i) := by
  have hcall : Solid ("builder.add_node(" ++ stringLiteral n.id ++ ", nodes." ++ l.slug i ++ ".run)") :=
    ((Solid.around (by decide) n.id (by decide)).append (hslugs i)).append (by decide)
  rw [addNodeLines, nodeComment_eq_nil h]
  exact one (hcall.isCode 1)

/-- The call that declares the entry is code. -/
theorem isCode_entryLine (framework : FrameworkVersion) : (entryLine g framework).IsCode := by
  cases framework <;> exact (Solid.around (by decide) _ (by decide)).isCode 1

/-- The call that declares an end is code. -/
theorem isCode_finishLine (framework : FrameworkVersion) (i : Nat) : (finishLine g framework i).IsCode := by
  cases framework <;> exact (Solid.around (by decide) _ (by decide)).isCode 1

/-- The call that adds the conditional edges of a branching node is code alone. -/
theorem codeOnly_conditionalLines (hslugs : ∀ i, OneLine (l.slug i)) (t : BranchTable) : CodeOnly (conditionalLines g l t) := by
  have hnode : Solid (stringLiteral (g.idAt t.node) ++ ",") := (Solid.stringLiteral _).append (by decide)
  have hroute : Solid (routeFunction (l.slug t.node) ++ ",") :=
    (Solid.append (by decide) (hslugs t.node)).append (by decide)
  rw [conditionalLines]
  refine append (append ?_ fun line hline => ?_) ?_
  · exact cons (isCode_statement (by simp [statements]) 1) (cons (hnode.isCode 2) (cons (hroute.isCode 2)
      (one (isCode_statement (by simp [statements]) 2))))
  · obtain ⟨⟨label, target⟩, -, rfl⟩ := List.mem_map.mp hline
    have hentry : Solid (stringLiteral label ++ ": " ++ stringLiteral (g.idAt target) ++ ",") :=
      (((Solid.stringLiteral label).append (by decide)).append_solid (Solid.stringLiteral _)).append (by decide)
    exact hentry.isCode 3
  · exact cons (isCode_statement (by simp [statements]) 2) (one (isCode_statement (by simp [statements]) 1))

/-- The calls of an edge are code. -/
theorem codeOnly_edgeLines (hslugs : ∀ i, OneLine (l.slug i)) (earlier : List Edge) (e : Edge) :
    CodeOnly (edgeLines g l earlier e) := by
  have hcall : Solid ("builder.add_edge(" ++ stringLiteral (g.idAt e.source) ++ ", " ++ stringLiteral (g.idAt e.target) ++ ")") :=
    ((Solid.around (by decide) _ (by decide)).append_solid (Solid.stringLiteral _)).append (by decide)
  rw [edgeLines]
  split
  · exact one (hcall.isCode 1)
  · split
    · exact nil
    · split
      · exact codeOnly_conditionalLines hslugs _
      · exact nil

/-- The imports of the file that assembles the graph are code. -/
theorem codeOnly_assemblyImports (hstate : OneLine l.stateClass) : CodeOnly (assemblyImports g l options) := by
  have himport : Solid ("from .state import " ++ l.stateClass) := Solid.append (by decide) hstate
  rw [assemblyImports]
  refine append ?_ (cons ?_ (cons isCode_blankLine (cons (isCode_statement (by simp [statements]) 0) (one (himport.isCode 0)))))
  · split
    · exact nil
    · exact cons (isCode_statement (by simp [statements]) 0) (one isCode_blankLine)
  · split <;> exact isCode_statement (by simp [statements]) 0

/-- Without comments the body of the function that builds the graph is code alone. -/
theorem codeOnly_buildLines (h : options.includeComments = false) (hstate : OneLine l.stateClass)
    (hslugs : ∀ i, OneLine (l.slug i)) : CodeOnly (buildLines g l options) := by
  have hbuilder : Solid ("builder = StateGraph(" ++ l.stateClass ++ ")") :=
    (Solid.append (by decide) hstate).append (by decide)
  rw [buildLines]
  refine append (append (append (append (append (one (hbuilder.isCode 1)) fun line hline => ?_) ?_) fun line hline => ?_)
    fun line hline => ?_) ?_
  · obtain ⟨⟨n, i⟩, -, hline⟩ := List.mem_flatMap.mp hline
    exact codeOnly_addNodeLines h hslugs n i line hline
  · exact cons isCode_blankLine (one (isCode_entryLine _))
  · obtain ⟨⟨e, k⟩, -, hline⟩ := List.mem_flatMap.mp hline
    exact codeOnly_edgeLines hslugs _ e line hline
  · obtain ⟨i, -, rfl⟩ := List.mem_map.mp hline
    exact isCode_finishLine _ i
  · exact one (isCode_statement (by simp [statements]) 1)

/-- Without comments the file that assembles the graph is code alone. -/
theorem codeOnly_assemblyLines (h : options.includeComments = false) (hstate : OneLine l.stateClass)
    (hslugs : ∀ i, OneLine (l.slug i)) : CodeOnly (assemblyLines g l options) := by
  have htables : CodeOnly (g.branchTables.flatMap (tableLines g l)) := by
    intro line hline
    obtain ⟨t, -, hline⟩ := List.mem_flatMap.mp hline
    exact codeOnly_tableLines hstate hslugs t line hline
  rw [assemblyLines, header_eq_nil h]
  refine append (append (append (append (append nil (codeOnly_assemblyImports hstate)) htables) ?_)
    (codeOnly_buildLines h hstate hslugs)) ?_
  · exact cons isCode_blankLine (cons isCode_blankLine (one (isCode_statement (by simp [statements]) 0)))
  · exact cons isCode_blankLine (cons isCode_blankLine (one (isCode_statement (by simp [statements]) 0)))

/-! ## The files of both packages -/

/-- Every slug is on one line. -/
theorem oneLine_of_mem_slugs : ∀ slug ∈ (Layout.ofGraph g options).slugs, OneLine slug := fun slug hslug =>
  (isIdentifier_iff.mp (Layout.isIdentifier_of_mem_slugs slug hslug)).1.oneLine

/-- So is the slug at any position, for where there is none it is empty. -/
theorem oneLine_slug (i : Nat) : OneLine ((Layout.ofGraph g options).slug i) := by
  rw [Layout.slug]
  cases hslug : (Layout.ofGraph g options).slugs[i]? with
  | none => decide
  | some slug => exact oneLine_of_mem_slugs slug (List.mem_of_getElem? hslug)

/-- Two files at one path hold the same program if their lines stand for the same code and those of the second for nothing else. -/
theorem sameProgram_artifact (parts : List String) {lines lines' : List Line}
    (hcode : lines.flatMap Line.code = lines'.flatMap Line.code) (hplain : CodeOnly lines') :
    SameProgram (artifact l parts lines) (artifact l parts lines') := by
  have huncommented : ∀ line ∈ linesOf (artifact l parts lines').contents, isComment line = false :=
    not_isComment_renderLines hplain
  have hwithout : withoutComments (linesOf (artifact l parts lines').contents) = linesOf (artifact l parts lines').contents :=
    List.filter_eq_self.mpr fun line hline => by rw [huncommented line hline]; rfl
  refine ⟨rfl, ?_, huncommented⟩
  rw [← hwithout]
  exact (code_renderLines lines).trans (hcode.trans (code_renderLines lines').symm)

/-- The files of the package with comments and without them hold the same program, one by one. -/
theorem forall₂_artifacts (g : Graph) (options : Options) :
    List.Forall₂ SameProgram (artifacts g (options.commenting true)) (artifacts g (options.commenting false)) := by
  have hstate : IsNameText (Layout.ofGraph g options).stateClass := Layout.isNameText_stateClass
  have hlayout : ∀ comments, Layout.ofGraph g (options.commenting comments) = Layout.ofGraph g options := fun _ => rfl
  rw [artifacts, artifacts, hlayout, hlayout]
  refine List.rel_append (List.rel_append ?_ ?_) ?_
  · exact .cons (sameProgram_artifact _ (code_packageLines.trans code_packageLines.symm) (codeOnly_packageLines rfl hstate.oneLine))
      (.cons (sameProgram_artifact _ (code_stateLines.trans code_stateLines.symm) (codeOnly_stateLines rfl hstate))
        (.cons (sameProgram_artifact _ (code_runtimeLines.trans code_runtimeLines.symm) (codeOnly_runtimeLines rfl))
          (.cons (sameProgram_artifact _ (code_nodeIndexLines.trans code_nodeIndexLines.symm)
            (codeOnly_nodeIndexLines rfl oneLine_of_mem_slugs)) .nil)))
  · rw [List.forall₂_map_left_iff, List.forall₂_map_right_iff, List.forall₂_same]
    intro ⟨n, i⟩ _
    exact sameProgram_artifact _ ((code_nodeLines n).trans (code_nodeLines n).symm) (codeOnly_nodeLines rfl hstate.oneLine n)
  · exact .cons (sameProgram_artifact _ (code_assemblyLines.trans code_assemblyLines.symm)
      (codeOnly_assemblyLines rfl hstate.oneLine oneLine_slug)) .nil

end Package

/-- Comments never change the program. Whatever the graph and the other options are, generating with comments and without them
fails with the same defect, or gives files that hold the same program one by one: at the same paths in the same order, and with
the same lines, comments and blank lines aside. Without comments no line is one. -/
theorem comments_change_nothing (g : Graph) (options : Options) :
    (∃ defect, generate g { options with includeComments := true } = .error defect ∧
        generate g { options with includeComments := false } = .error defect) ∨
      ∃ commented plain, generate g { options with includeComments := true } = .ok commented ∧
        generate g { options with includeComments := false } = .ok plain ∧ List.Forall₂ SameProgram commented plain := by
  cases hdefect : Package.defect? g with
  | some defect => exact Or.inl ⟨defect, by rw [generate, hdefect], by rw [generate, hdefect]⟩
  | none =>
    exact Or.inr ⟨_, _, Package.generate_eq_ok_iff.mpr ⟨hdefect, rfl⟩, Package.generate_eq_ok_iff.mpr ⟨hdefect, rfl⟩,
      Package.forall₂_artifacts g options⟩

end Workflow
