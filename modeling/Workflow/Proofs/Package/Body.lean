import Mathlib
import Workflow.Package.Generate
import Workflow.Proofs.Package.Calls

/-!
# The body in its file

The body of the function that builds the graph is found below its heading, whatever ids and labels stand in the lines before:
none of these lines is the heading, all lines of the body are empty or indented, and what comes after the body is not
(`ofText?_assemblyLines`).
-/

namespace Workflow

open Call

/-! ## Lines of a body -/

/-- What an indented line stands for may belong to a body. -/
theorem isBodyLine_of_depth {l : Line} (h : l.depth ≠ 0) : ∀ s ∈ l.physical, isBodyLine s.toList = true := by
  intro s hs
  rw [Line.physical, List.mem_map] at hs
  obtain ⟨part, -, rfl⟩ := hs
  split
  · rfl
  · obtain ⟨depth, hd⟩ := Nat.exists_eq_succ_of_ne_zero h
    rw [hd, String.toList_append, indentation, List.replicate_succ, String.toList_join, List.flatMap_cons]
    rfl

/-- The heading does not belong to a body. -/
theorem isBodyLine_heading : isBodyLine heading.toList = false := rfl

/-- An indented line does not stand for the heading. -/
theorem heading_not_mem_of_depth {l : Line} (h : l.depth ≠ 0) : heading ∉ l.physical := by
  intro hmem
  exact absurd (isBodyLine_of_depth h _ hmem) (by rw [isBodyLine_heading]; exact Bool.false_ne_true)

/-- A line that is not indented stands for itself. -/
theorem physical_top {text : String} (h : OneLine text) : (top text).physical = [text] := by
  have hphysical : (top text).physical = [if text = "" then "" else indentation 0 ++ text] := Line.physical_of_oneLine h
  rw [hphysical]
  split
  · next hempty => rw [hempty]
  · exact congrArg (fun s => [s]) String.empty_append

/-- A line that is not indented does not stand for the heading if it begins differently. -/
theorem heading_not_mem_top {first rest : String} (hclean : OneLine (first ++ rest))
    (h : ¬first.toList <+: heading.toList) : heading ∉ (top (first ++ rest)).physical := by
  rw [physical_top hclean, List.mem_singleton]
  intro heq
  exact h ⟨rest.toList, by rw [heq, String.toList_append]⟩

/-- An empty line does not stand for the heading. -/
theorem heading_not_mem_blankLine : heading ∉ blankLine.physical := by
  have hphysical : blankLine.physical = [""] := physical_top (by decide)
  rw [hphysical]
  decide

namespace Package

variable {g : Graph} {options : Options}

/-! ## The lines before the body -/

/-- The comment at the head of a file does not hold the heading. -/
theorem heading_not_mem_header {what : String} (hwhat : OneLine what) :
    ∀ l ∈ header g options what, heading ∉ l.physical := by
  have hversion : OneLine options.framework.text := by cases options.framework <;> decide
  rw [header]
  split
  · simp only [String.append_assoc]
    refine List.forall_mem_cons.mpr ⟨?_, List.forall_mem_cons.mpr ⟨?_, List.forall_mem_singleton.mpr heading_not_mem_blankLine⟩⟩
    · refine heading_not_mem_top (OneLine.append (by decide) (hwhat.append (OneLine.append (by decide) ?_))) (by decide)
      exact (oneLine_foldBlank g.name).append (by decide)
    · exact heading_not_mem_top (OneLine.append (by decide) (hversion.append (by decide))) (by decide)
  · exact fun l hl => absurd hl List.not_mem_nil

/-- The imports do not hold the heading. -/
theorem heading_not_mem_assemblyImports :
    ∀ l ∈ assemblyImports g (Layout.ofGraph g options) options, heading ∉ l.physical := by
  have hclosed : ∀ text ∈ ["from typing import Literal", "from langgraph.graph import END, START, StateGraph",
      "from langgraph.graph import StateGraph", "from . import nodes"], heading ∉ (top text).physical := by decide
  have hstate : heading ∉ (top ("from .state import " ++ (Layout.ofGraph g options).stateClass)).physical :=
    heading_not_mem_top (OneLine.append (by decide) Layout.isNameText_stateClass.oneLine) (by decide)
  rw [assemblyImports]
  refine List.forall_mem_append.mpr ⟨?_, ?_⟩
  · split
    · exact fun l hl => absurd hl List.not_mem_nil
    · exact List.forall_mem_cons.mpr
        ⟨hclosed _ (by decide), List.forall_mem_singleton.mpr heading_not_mem_blankLine⟩
  · refine List.forall_mem_cons.mpr ⟨?_, List.forall_mem_cons.mpr ⟨heading_not_mem_blankLine,
      List.forall_mem_cons.mpr ⟨hclosed _ (by decide), List.forall_mem_singleton.mpr hstate⟩⟩⟩
    cases options.framework <;> exact hclosed _ (by decide)

/-- The labels of a table in a row are on one line. -/
theorem oneLine_labelRow (t : BranchTable) : OneLine (labelRow t) := by
  refine oneLine_intercalate (by decide) fun part hp => ?_
  obtain ⟨label, -, rfl⟩ := List.mem_map.mp hp
  exact LexMode.oneLine_stringLiteral label

/-- The routing functions do not hold the heading. -/
theorem heading_not_mem_tableLines {t : BranchTable} (h : t.node < g.nodes.length) :
    ∀ l ∈ tableLines g (Layout.ofGraph g options) t, heading ∉ l.physical := by
  have hnone : ∀ l ∈ ([] : List Line), heading ∉ l.physical := fun l hl => absurd hl List.not_mem_nil
  rw [tableLines]
  split
  · split
    · next n _ b _ =>
      have hslug : OneLine ((Layout.ofGraph g options).slug t.node) := (Layout.isNameText_slug h).oneLine
      have hstate : OneLine (Layout.ofGraph g options).stateClass := Layout.isNameText_stateClass.oneLine
      have hdef : "def " ++ routeFunction ((Layout.ofGraph g options).slug t.node) ++ "(state: " ++
          (Layout.ofGraph g options).stateClass ++ ") -> Literal[" ++ labelRow t ++ "]:" =
          "def route_" ++ ((Layout.ofGraph g options).slug t.node ++ ("(state: " ++
            ((Layout.ofGraph g options).stateClass ++ (") -> Literal[" ++ (labelRow t ++ "]:"))))) := by
        simp only [routeFunction, String.append_assoc]
        rw [← String.append_assoc]
        rfl
      rw [routeLines, hdef]
      refine List.forall_mem_cons.mpr ⟨heading_not_mem_blankLine, List.forall_mem_cons.mpr ⟨heading_not_mem_blankLine,
        List.forall_mem_cons.mpr ⟨heading_not_mem_top (OneLine.append (by decide) ?_) (by decide), fun l hl => ?_⟩⟩⟩
      · exact hslug.append (OneLine.append (by decide) (hstate.append (OneLine.append (by decide)
          ((oneLine_labelRow t).append (by decide)))))
      · have hdepths : ∀ depth ∈ [1, 1, 2, 1], depth ≠ 0 := by decide
        exact heading_not_mem_of_depth (hdepths _ (List.mem_map_of_mem (f := Line.depth) hl))
    · exact hnone
  · exact hnone

/-! ## The lines of the body -/

/-- The lines of the body may belong to one. -/
theorem isBodyLine_of_mem_buildLines {l : Layout} :
    ∀ line ∈ buildLines g l options, ∀ s ∈ line.physical, isBodyLine s.toList = true := by
  have hcomment : ∀ n, ∀ line ∈ nodeComment n options 1, line.depth ≠ 0 := by
    intro n line hline
    rw [nodeComment] at hline
    split at hline
    · rw [List.mem_singleton.mp hline]
      exact Nat.one_ne_zero
    · cases hline
  have hentry : (entryLine g options.framework).depth ≠ 0 := by
    cases options.framework <;> exact Nat.one_ne_zero
  have hfinish : ∀ i, (finishLine g options.framework i).depth ≠ 0 := by
    intro i
    cases options.framework <;> exact Nat.one_ne_zero
  have hblock : ∀ t, ∀ line ∈ conditionalLines g l t, line.depth ≠ 0 := by
    intro t
    rw [conditionalLines]
    simp only [List.forall_mem_append, List.forall_mem_cons, List.forall_mem_map, inner, inner2]
    simp
  have hedge : ∀ earlier e, ∀ line ∈ edgeLines g l earlier e, line.depth ≠ 0 := by
    intro earlier e line hline
    rw [edgeLines] at hline
    split at hline
    · rw [List.mem_singleton.mp hline]
      exact Nat.one_ne_zero
    · split at hline
      · cases hline
      · split at hline
        · exact hblock _ line hline
        · cases hline
  have hblank : ∀ s ∈ blankLine.physical, isBodyLine s.toList = true := by
    have hphysical : blankLine.physical = [""] := physical_top (by decide)
    rw [hphysical]
    exact List.forall_mem_singleton.mpr rfl
  intro line hline
  simp only [buildLines, addNodeLines, List.mem_append, List.mem_flatMap, List.mem_map, List.mem_cons, List.not_mem_nil,
    or_false] at hline
  rcases hline with ((((rfl | ⟨x, -, hline | rfl⟩) | rfl | rfl) | ⟨x, -, hline⟩) | ⟨i, -, rfl⟩) | rfl
  · exact isBodyLine_of_depth Nat.one_ne_zero
  · exact isBodyLine_of_depth (hcomment _ _ hline)
  · exact isBodyLine_of_depth Nat.one_ne_zero
  · exact hblank
  · exact isBodyLine_of_depth hentry
  · exact isBodyLine_of_depth (hedge _ _ _ hline)
  · exact isBodyLine_of_depth (hfinish i)
  · exact isBodyLine_of_depth Nat.one_ne_zero

/-! ## The body in the text of the file -/

/-- The lines of the body in the text of the file are those that it is written with, and the empty ones behind it. -/
theorem bodyLines_assemblyLines (h : ∀ t ∈ g.branchTables, t.node < g.nodes.length) :
    bodyLines (renderLines (assemblyLines g (Layout.ofGraph g options) options)) =
      ((buildLines g (Layout.ofGraph g options) options).flatMap Line.physical).map String.toList ++ [[], []] := by
  set l := Layout.ofGraph g options with hl
  obtain ⟨before, hbefore⟩ : ∃ before, before = header g options "Graph assembly" ++ assemblyImports g l options ++
    g.branchTables.flatMap (tableLines g l) ++ [blankLine, blankLine] := ⟨_, rfl⟩
  have hother : ∀ line ∈ (before.flatMap Line.physical).map String.toList, (line != heading.toList) = true := by
    have hnot : ∀ line ∈ before, heading ∉ line.physical := by
      rw [hbefore]
      refine List.forall_mem_append.mpr ⟨List.forall_mem_append.mpr ⟨List.forall_mem_append.mpr ⟨?_, ?_⟩, ?_⟩, ?_⟩
      · exact heading_not_mem_header (by decide)
      · exact heading_not_mem_assemblyImports
      · intro line hline
        obtain ⟨t, ht, hline⟩ := List.mem_flatMap.mp hline
        exact heading_not_mem_tableLines (h t ht) line hline
      · exact List.forall_mem_cons.mpr ⟨heading_not_mem_blankLine, List.forall_mem_singleton.mpr heading_not_mem_blankLine⟩
    intro line hline
    obtain ⟨s, hs, rfl⟩ := List.mem_map.mp hline
    obtain ⟨origin, ho, hs⟩ := List.mem_flatMap.mp hs
    rw [bne_iff_ne, ne_eq, String.toList_inj]
    exact fun heq => hnot origin ho (heq ▸ hs)
  have hbody : ∀ line ∈ ((buildLines g l options).flatMap Line.physical).map String.toList, isBodyLine line = true := by
    intro line hline
    obtain ⟨s, hs, rfl⟩ := List.mem_map.mp hline
    obtain ⟨origin, ho, hs⟩ := List.mem_flatMap.mp hs
    exact isBodyLine_of_mem_buildLines origin ho s hs
  have hlines : assemblyLines g l options =
      before ++ (top heading :: (buildLines g l options ++ [blankLine, blankLine, top "graph = build_graph().compile()"])) := by
    rw [hbefore, assemblyLines]
    simp only [List.append_assoc, List.cons_append, List.nil_append]
    rfl
  have hheading : (top heading).physical = [heading] := physical_top (by decide)
  have hafter : [blankLine, blankLine, top "graph = build_graph().compile()"].flatMap Line.physical =
      ["", "", "graph = build_graph().compile()"] := by decide
  rw [bodyLines, lines_renderLines, hlines, List.flatMap_append, List.flatMap_cons, List.flatMap_append, hheading, hafter,
    List.map_append, List.append_assoc, List.dropWhile_append_of_pos hother, List.singleton_append, List.map_cons,
    List.cons_append, List.dropWhile_cons_of_neg (by simp), List.tail_cons, List.map_append, List.append_assoc,
    List.takeWhile_append_of_pos hbody]
  rfl

end Package

end Workflow
