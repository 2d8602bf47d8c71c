import Mathlib
import Workflow.Package.Generate
import Workflow.Proofs.Graph.Drawing
import Workflow.Proofs.Package.Constants
import Workflow.Proofs.Package.Defect

/-!
# Drawings in packages

Display values mean nothing to a workflow (`display_not_semantic`). Workflows that differ in them alone are refused with the same
report or have the same overview, and their packages are the same but for the literals that the modules of the nodes assign to
`DISPLAY`: no other line of any file looks at a display value.
-/

namespace Workflow

namespace Package

variable {g : Graph} {l : Layout} {options : Options}

/-! ## The files without display values -/

@[simp] theorem layout_undrawn : Layout.ofGraph g.undrawn options = Layout.ofGraph g options := by
  simp [Layout.ofGraph, Function.comp_def, Graph.undrawn]

@[simp] theorem stateSchema_undrawn : stateSchema g.undrawn = stateSchema g := by
  simp [stateSchema, List.flatMap_map]

/-- The file of the state does not depend on display values. -/
theorem stateLines_undrawn : stateLines g.undrawn l options = stateLines g l options := by
  rw [stateLines, stateSchema_undrawn]
  rfl

@[simp] theorem tableLines_undrawn (t : BranchTable) : tableLines g.undrawn l t = tableLines g l t := by
  rw [tableLines, tableLines, Graph.undrawn_nodes, List.getElem?_map]
  cases g.nodes[t.node]? <;> rfl

@[simp] theorem edgeLines_undrawn (earlier : List Edge) (e : Edge) :
    edgeLines g.undrawn l earlier e = edgeLines g l earlier e := by
  have htable : g.undrawn.branchTable? = g.branchTable? := rfl
  rw [edgeLines, edgeLines, htable]
  simp only [Graph.idAt_undrawn, conditionalLines]

theorem flatMap_addNodeLines_undrawn :
    (g.undrawn.nodes.zipIdx.flatMap fun (n, i) => addNodeLines l options n i) =
      g.nodes.zipIdx.flatMap fun (n, i) => addNodeLines l options n i := by
  rw [Graph.undrawn_nodes, List.zipIdx_map, List.flatMap_map]
  rfl

@[simp] theorem buildLines_undrawn : buildLines g.undrawn l options = buildLines g l options := by
  have hentry : entryLine g.undrawn = entryLine g := by
    funext framework
    cases framework <;> simp [entryLine]
  have hfinish : finishLine g.undrawn = finishLine g := by
    funext framework i
    cases framework <;> simp [finishLine]
  have hedges : edgeLines g.undrawn l = edgeLines g l := funext fun earlier => funext fun e => edgeLines_undrawn earlier e
  rw [buildLines, flatMap_addNodeLines_undrawn, hentry, hedges, hfinish]
  rfl

/-- The file that assembles the graph does not depend on display values. -/
theorem assemblyLines_undrawn : assemblyLines g.undrawn l options = assemblyLines g l options := by
  have htables : tableLines g.undrawn l = tableLines g l := funext fun t => tableLines_undrawn t
  rw [assemblyLines, htables, buildLines_undrawn]
  rfl

theorem findSome?_nodeDefect?_undrawn :
    (g.undrawn.nodes.zipIdx.findSome? fun (n, i) => nodeDefect? g.undrawn n i) =
      g.nodes.zipIdx.findSome? fun (n, i) => nodeDefect? g n i := by
  rw [Graph.undrawn_nodes, List.zipIdx_map, List.findSome?_map]
  rfl

/-- Without display values a graph has the same defect. -/
theorem defect?_undrawn : defect? g.undrawn = defect? g := by
  have hentry : entryDefect? g.undrawn = entryDefect? g := by
    have hnode : g.undrawn.nodes[g.undrawn.entry]? = g.nodes[g.entry]?.map Node.undrawn := List.getElem?_map
    rw [entryDefect?, entryDefect?, hnode]
    cases g.nodes[g.entry]? <;> rfl
  rw [defect?, hentry, findSome?_nodeDefect?_undrawn]
  rfl

/-! ## The module of a node -/

/-- The lines of the module of a node before its configuration and its display value. -/
def linesBeforeConstants (g : Graph) (n : Node) (l : Layout) (options : Options) : List Line :=
  nodeComment n options 0 ++ header g options "Node module" ++ (if copies n.kind then [top "import copy"] else []) ++
    [top "from typing import Any, Dict", blankLine] ++ nodeImports n.kind ++
    [top ("from ..state import " ++ l.stateClass), blankLine, top ("NODE_ID = " ++ stringLiteral n.id),
     top ("KIND = " ++ stringLiteral n.kind.text)]

/-- The lines after them. -/
def linesAfterConstants (n : Node) (l : Layout) : List Line :=
  [blankLine, blankLine, top ("def run(state: " ++ l.stateClass ++ ") -> Dict[str, Any]:")] ++ runLines n.spec

/-- The module of a node is its display value as a literal between texts that do not depend on it. -/
theorem renderLines_nodeLines (g : Graph) (l : Layout) (options : Options) (n : Node) :
    renderLines (nodeLines g n l options) =
      renderLines (linesBeforeConstants g n l options) ++ "CONFIG = " ++ literal 0 n.spec.payload ++ "\nDISPLAY = " ++
        displayLiteral n ++ "\n" ++ renderLines (linesAfterConstants n l) := by
  have hlines : nodeLines g n l options = linesBeforeConstants g n l options ++ [top ("CONFIG = " ++ literal 0 n.spec.payload)] ++
      [top ("DISPLAY = " ++ displayLiteral n)] ++ linesAfterConstants n l := by
    simp [nodeLines, linesBeforeConstants, linesAfterConstants]
  have hfeed : "\nDISPLAY = " = "\n" ++ "DISPLAY = " := rfl
  rw [hlines, renderLines_append, renderLines_append, renderLines_append, renderLines_top, renderLines_top, hfeed]
  simp only [String.append_assoc]

/-! ## Packages apart in drawings -/

/-- Two files are the modules of one node that is drawn in two ways: they say the same before the display value, which `DISPLAY` is
assigned, and the same after it. -/
structure DrawnApart (l : Layout) (i : Nat) (n n' : Node) (file file' : Artifact) : Prop where
  display : n.display ≠ n'.display
  path : file.path = l.file ["nodes", l.slug i ++ ".py"]
  samePath : file'.path = file.path
  contents : ∃ before after, file.contents = before ++ "\nDISPLAY = " ++ displayLiteral n ++ "\n" ++ after ∧
    file'.contents = before ++ "\nDISPLAY = " ++ displayLiteral n' ++ "\n" ++ after
  assigned : assignedValue? file.contents "DISPLAY" = some (n.display.getD .null)
  assigned' : assignedValue? file'.contents "DISPLAY" = some (n'.display.getD .null)

/-- Two files at one place of two packages are the same, or the modules of one node that is drawn in two ways. -/
def SameButDrawing (l : Layout) (nodes nodes' : List Node) (file file' : Artifact) : Prop :=
  file = file' ∨ ∃ i n n', nodes[i]? = some n ∧ nodes'[i]? = some n' ∧ DrawnApart l i n n' file file'

/-- The modules of nodes at one position that are the same without their display values. -/
theorem sameButDrawing_node {g' : Graph} (hg : g.undrawn = g'.undrawn) (hstate : IsNameText l.stateClass) {i : Nat} {n n' : Node}
    (hn : g.nodes[i]? = some n) (hn' : g'.nodes[i]? = some n') (hsame : n.undrawn = n'.undrawn) :
    SameButDrawing l g.nodes g'.nodes (artifact l ["nodes", l.slug i ++ ".py"] (nodeLines g n l options))
      (artifact l ["nodes", l.slug i ++ ".py"] (nodeLines g' n' l options)) := by
  have hspec : n.undrawn.spec = n'.undrawn.spec := congrArg Node.spec hsame
  rw [Node.undrawn_spec, Node.undrawn_spec] at hspec
  have hbefore : linesBeforeConstants g n l options = linesBeforeConstants g' n' l options :=
    calc linesBeforeConstants g n l options = linesBeforeConstants g.undrawn n.undrawn l options := rfl
      _ = linesBeforeConstants g'.undrawn n'.undrawn l options := by rw [hg, hsame]
      _ = linesBeforeConstants g' n' l options := rfl
  have hafter : linesAfterConstants n l = linesAfterConstants n' l := by rw [linesAfterConstants, linesAfterConstants, hspec]
  have hcontents := renderLines_nodeLines g l options n
  have hcontents' := renderLines_nodeLines g' l options n'
  rw [← hbefore, ← hafter, ← hspec] at hcontents'
  by_cases hdisplay : n.display = n'.display
  · left
    have hliteral : displayLiteral n = displayLiteral n' := by rw [displayLiteral, displayLiteral, hdisplay]
    rw [artifact, artifact, hcontents, hcontents', hliteral]
  · exact Or.inr ⟨i, n, n', hn, hn', hdisplay, rfl, rfl, ⟨_, _, hcontents, hcontents'⟩,
      assignedValue?_nodeLines hstate n (by simp [constants]), assignedValue?_nodeLines hstate n' (by simp [constants])⟩

/-- The packages of graphs that are the same without display values are the same but for drawings. -/
theorem forall₂_sameButDrawing {g' : Graph} (hg : g.undrawn = g'.undrawn) (options : Options) :
    List.Forall₂ (SameButDrawing (Layout.ofGraph g options) g.nodes g'.nodes) (artifacts g options) (artifacts g' options) := by
  have hlayout : Layout.ofGraph g' options = Layout.ofGraph g options := by rw [← layout_undrawn, ← hg, layout_undrawn]
  have hstate : IsNameText (Layout.ofGraph g options).stateClass := Layout.isNameText_stateClass
  have hnodes : g.nodes.map Node.undrawn = g'.nodes.map Node.undrawn := congrArg Graph.nodes hg
  rw [artifacts, artifacts, hlayout]
  generalize Layout.ofGraph g options = l at hstate
  have hsame (lines : Graph → List Line) (hlines : ∀ g : Graph, lines g.undrawn = lines g) (parts : List String) :
      SameButDrawing l g.nodes g'.nodes (artifact l parts (lines g)) (artifact l parts (lines g')) := by
    left
    rw [← hlines g, hg, hlines g']
  refine List.rel_append (List.rel_append ?_ ?_) ?_
  · exact .cons (hsame (packageLines · l options) (fun _ => rfl) _)
      (.cons (hsame (stateLines · l options) (fun _ => stateLines_undrawn) _)
        (.cons (hsame (runtimeLines · options) (fun _ => rfl) _)
          (.cons (hsame (nodeIndexLines · l options) (fun _ => rfl) _) .nil)))
  · rw [List.forall₂_map_left_iff, List.forall₂_map_right_iff, List.forall₂_iff_get]
    refine ⟨by simpa using congrArg List.length hnodes, fun i hi hi' => ?_⟩
    have hnode : (g.nodes.map Node.undrawn)[i]? = (g'.nodes.map Node.undrawn)[i]? := by rw [hnodes]
    rw [List.length_zipIdx] at hi hi'
    simp only [List.length_map, hi, hi', getElem?_pos, List.getElem_map, Option.some.injEq, List.get_eq_getElem, List.getElem_zipIdx,
      zero_add] at hnode ⊢
    exact sameButDrawing_node hg hstate (List.getElem?_eq_getElem hi) (List.getElem?_eq_getElem hi') hnode
  · exact .cons (hsame (assemblyLines · l options) (fun _ => assemblyLines_undrawn) _) .nil

end Package

open Package

/-- Display values mean nothing to a workflow. Of two documents that are the same without them, either both are refused, with the same
report, or both have graphs, with the same overview. Then for all options both packages have the same defect, or the same files but for
drawings: each pair of files at one place is one file, or the two modules of a node that is drawn in two ways, at one path and the same
but for the literal that is assigned to `DISPLAY`. -/
theorem display_not_semantic {d d' : Document} (h : d.undrawn = d'.undrawn) :
    (∃ r, Graph.build d = .error r ∧ Graph.build d' = .error r) ∨
      ∃ g g', Graph.build d = .ok g ∧ Graph.build d' = .ok g' ∧ g.summary = g'.summary ∧
        ∀ options, (∃ defect, generate g options = .error defect ∧ generate g' options = .error defect) ∨
          ∃ files files', generate g options = .ok files ∧ generate g' options = .ok files' ∧
            List.Forall₂ (SameButDrawing (Layout.ofGraph g options) d.nodes d'.nodes) files files' := by
  rcases build_of_undrawn_eq h with hrefused | ⟨g, g', hg, hg', hsame⟩
  · exact Or.inl hrefused
  · have hsummary : g.summary = g'.summary := by rw [← Graph.summary_undrawn, hsame, Graph.summary_undrawn]
    have hdefect : defect? g' = defect? g := by rw [← defect?_undrawn, ← hsame, defect?_undrawn]
    refine Or.inr ⟨g, g', hg, hg', hsummary, fun options => ?_⟩
    cases hfound : defect? g with
    | some defect => exact Or.inl ⟨defect, by rw [generate, hfound], by rw [generate, hdefect, hfound]⟩
    | none =>
      have hfiles := forall₂_sameButDrawing hsame options
      rw [Build.nodes_eq_of_build hg, Build.nodes_eq_of_build hg'] at hfiles
      exact Or.inr ⟨_, _, generate_eq_ok_iff.mpr ⟨hfound, rfl⟩, generate_eq_ok_iff.mpr ⟨hdefect.trans hfound, rfl⟩, hfiles⟩

/-- The review loop with a display value for the node that writes. -/
def reviewLoopDrawn (display : Json) : Document :=
  { reviewLoop with nodes := reviewLoop.nodes.map fun n => if n.id = "write" then { n with display := some display } else n }

/-- The review loop with a display value that spreads over lines. -/
def reviewLoopPlaced : Document :=
  reviewLoopDrawn (.obj [("at", .arr [.int 3, .int 4]), ("notes", .obj [("faces", .arr []), ("tone", .str "calm")])])

/-- The review loop with a display value on one line. -/
def reviewLoopLabelled : Document := reviewLoopDrawn (.str "write\nDISPLAY = None")

/-- Both drawings of the review loop have one overview and the same package but for them. -/
theorem display_not_semantic_reviewLoop :
    reviewLoopPlaced.undrawn = reviewLoopLabelled.undrawn ∧
      ∃ g g' files files', Graph.build reviewLoopPlaced = .ok g ∧ Graph.build reviewLoopLabelled = .ok g' ∧ g.summary = g'.summary ∧
        generate g {} = .ok files ∧ generate g' {} = .ok files' ∧
        List.Forall₂ (SameButDrawing (Layout.ofGraph g {}) reviewLoopPlaced.nodes reviewLoopLabelled.nodes) files files' := by
  have hsame : reviewLoopPlaced.undrawn = reviewLoopLabelled.undrawn := rfl
  obtain ⟨g, hg⟩ : ∃ g, Graph.build reviewLoopPlaced = .ok g := ⟨_, rfl⟩
  obtain ⟨files, hfiles⟩ : ∃ files, generate g {} = .ok files := by
    cases hg
    exact ⟨_, rfl⟩
  refine ⟨hsame, ?_⟩
  rcases display_not_semantic hsame with ⟨r, hr, -⟩ | ⟨g₁, g', hg₁, hg', hsummary, hpackages⟩
  · rw [hg] at hr
    cases hr
  · rw [hg] at hg₁
    cases hg₁
    rcases hpackages {} with ⟨defect, hdefect, -⟩ | ⟨files₁, files', hfiles₁, hfiles', halike⟩
    · rw [hfiles] at hdefect
      cases hdefect
    · exact ⟨g, g', files₁, files', hg, hg', hsummary, hfiles₁, hfiles', halike⟩

end Workflow
