import Mathlib
import Workflow.Package.Generate
import Workflow.Proofs.Package.Defect
import Workflow.Proofs.Package.Lexeme
import Workflow.Proofs.Package.Sealed
import Workflow.Proofs.Package.SealedLine
import Workflow.Proofs.Number.Numeral

/-!
# Control characters

Which control characters the files of a package hold (`controls_of_comments`). The code of a package has none: literals escape them,
and names, annotations and numerals have no room for them. The comments fold blank characters only, so every other control character
of the name, the description and the ids of a workflow stands in them as it is.
-/

namespace Workflow

/-- A control character that ends no line. -/
def IsControl (c : Char) : Prop := ¬LexMode.IsPlain c ∧ c ≠ '\n'

instance : DecidablePred IsControl := fun _ => inferInstanceAs (Decidable (_ ∧ _))

/-- A control character is no space. -/
theorem IsControl.ne_space {c : Char} (h : IsControl c) : c ≠ ' ' := by
  rintro rfl
  exact absurd h (by decide)

/-! ## Texts without control characters -/

/-- A text without control characters, line feeds aside. -/
def Clean (s : String) : Prop := ∀ c ∈ s.toList, ¬IsControl c

instance : DecidablePred Clean := fun s => List.decidableBAll _ s.toList

/-- Two texts have no control characters together exactly if neither has. -/
@[simp] theorem clean_append {s t : String} : Clean (s ++ t) ↔ Clean s ∧ Clean t := by
  rw [Clean, String.toList_append, List.forall_mem_append]
  rfl

/-- The literal of a text has no control characters, whatever the text is. -/
@[simp] theorem clean_stringLiteral (s : String) : Clean (stringLiteral s) := fun c hc hcontrol =>
  hcontrol.1 (LexMode.isPlain_of_mem_stringLiteral s c hc)

/-- An annotation has no control characters. -/
@[simp] theorem clean_annotation (type : FieldType) : Clean type.annotation := by cases type <;> decide

/-- Indentation has no control characters. -/
@[simp] theorem clean_indentation (depth : Nat) : Clean (indentation depth) := by
  intro c hc
  rw [indentation, String.toList_join, List.mem_flatMap] at hc
  obtain ⟨s, hs, hc⟩ := hc
  have hindent : Clean indent := by decide
  exact hindent c (List.eq_of_mem_replicate hs ▸ hc)

/-- A letter or digit is no control character. -/
theorem not_isControl_of_isAlphanum {c : Char} (h : c.isAlphanum = true) : ¬IsControl c := by
  simp only [Char.isAlphanum, Char.isAlpha, Char.isUpper, Char.isLower, Char.isDigit, Bool.or_eq_true, Bool.and_eq_true,
    decide_eq_true_eq, UInt32.le_iff_toNat_le, ge_iff_le, Char.reduceVal, UInt32.reduceToNat] at h
  rintro ⟨hplain, -⟩
  refine hplain ⟨?_, ?_⟩ <;> rw [Char.toNat] <;> omega

/-- A name has no control characters. -/
theorem IsNameText.clean {s : String} (h : IsNameText s) : Clean s := by
  intro c hc
  have hname := h.2 c hc
  rw [isNameChar, Bool.or_eq_true, beq_iff_eq] at hname
  rcases hname with rfl | halnum
  · decide
  · exact not_isControl_of_isAlphanum halnum

/-- A numeral has no control characters. -/
theorem IsNumeral.clean {s : String} (h : IsNumeral s) : Clean s := by
  have hmarks : Clean "+-.e" := by decide
  refine h.forall_mem (fun c hc => not_isControl_of_isAlphanum ?_) hmarks
  rw [Char.isAlphanum, hc, Bool.or_true]

/-- Texts joined have no control characters if none of them has. -/
theorem clean_join {texts : List String} (h : ∀ s ∈ texts, Clean s) : Clean (String.join texts) := by
  intro c hc
  rw [String.toList_join, List.mem_flatMap] at hc
  obtain ⟨s, hs, hc⟩ := hc
  exact h s hs c hc

/-- The lines of elements without control characters have none. -/
theorem clean_elementLines (depth : Nat) {elements : List String} (h : ∀ e ∈ elements, Clean e) :
    Clean (elementLines depth elements) := by
  refine clean_join fun s hs => ?_
  obtain ⟨e, he, rfl⟩ := List.mem_map.mp hs
  simp +decide [h e he]

/-- The wordings of a package have no control characters but the line feeds after them. -/
theorem clean_wording {s : String} (hs : s ∈ wordings) : Clean s := by
  have hall : ∀ s ∈ wordings, ∃ cs, s = String.ofList cs ∧ cs.all (fun c => !decide (IsControl c)) = true := by
    unfold wordings Package.runtimeBody statements remarks fragments joints
    repeat refine List.forall_mem_cons.mpr ⟨⟨_, rfl, by decide⟩, ?_⟩
    exact fun s hs => absurd hs List.not_mem_nil
  obtain ⟨cs, rfl, hcs⟩ := hall s hs
  intro c hc
  rw [String.toList_ofList] at hc
  simpa using List.all_eq_true.mp hcs c hc

/-- The lines that stand in a package as they are have none either. -/
theorem clean_statement {s : String} (hs : s ∈ statements) : Clean s := clean_wording (mem_wordings_of_statement hs)

mutual

/-- The literal of a value has no control characters but the line feeds between its elements. -/
theorem clean_literal (depth : Nat) (v : Json) : Clean (literal depth v) := by
  cases v with
  | null => rw [literal]; decide
  | bool b => cases b <;> rw [literal] <;> decide
  | int n => rw [literal]; exact (isNumeral_toString n).clean
  | real x => rw [literal]; exact (isNumeral_finiteText x).clean
  | str s => rw [literal]; exact clean_stringLiteral s
  | arr items =>
    cases items with
    | nil => rw [literal]; decide
    | cons item items =>
      have hitems := clean_elementLines depth (clean_literalItems (depth + 1) (item :: items))
      simp +decide [literal, hitems]
  | obj entries =>
    cases entries with
    | nil => rw [literal]; decide
    | cons entry entries =>
      have hentries := clean_elementLines depth (clean_literalEntries (depth + 1) (entry :: entries))
      simp +decide [literal, hentries]

/-- Neither have the literals of the items of an array. -/
theorem clean_literalItems (depth : Nat) (items : List Json) : ∀ e ∈ literalItems depth items, Clean e := by
  cases items with
  | nil => exact fun e he => absurd he List.not_mem_nil
  | cons item items =>
    rw [literalItems, List.forall_mem_cons]
    exact ⟨clean_literal depth item, clean_literalItems depth items⟩

/-- Neither have the literals of the entries of an object. -/
theorem clean_literalEntries (depth : Nat) (entries : List (String × Json)) : ∀ e ∈ literalEntries depth entries, Clean e := by
  cases entries with
  | nil => exact fun e he => absurd he List.not_mem_nil
  | cons entry entries =>
    obtain ⟨k, v⟩ := entry
    rw [literalEntries, List.forall_mem_cons]
    refine ⟨?_, clean_literalEntries depth entries⟩
    simp +decide [clean_literal depth v]

end

/-! ## Lines without control characters -/

/-- Lines without control characters. -/
def CleanLines (lines : List Line) : Prop := ∀ l ∈ lines, Clean l.text

instance : DecidablePred CleanLines := fun lines => List.decidableBAll _ lines

@[simp] theorem cleanLines_nil : CleanLines [] := fun _ hline => absurd hline List.not_mem_nil

@[simp] theorem cleanLines_cons {line : Line} {lines : List Line} : CleanLines (line :: lines) ↔ Clean line.text ∧ CleanLines lines :=
  List.forall_mem_cons

@[simp] theorem cleanLines_append {lines lines' : List Line} : CleanLines (lines ++ lines') ↔ CleanLines lines ∧ CleanLines lines' :=
  List.forall_mem_append

namespace Package

variable {g : Graph} {l : Layout} {options : Options}

/-- Literals in a row have no control characters. -/
@[simp] theorem clean_row (texts : List String) : Clean (", ".intercalate (texts.map stringLiteral)) := by
  have hseparator : Clean ", " := by decide
  intro c hc
  rw [String.toList_intercalate] at hc
  refine forall_mem_intercalate (p := (¬IsControl ·)) hseparator ?_ c hc
  intro part hp
  obtain ⟨s, hs, rfl⟩ := List.mem_map.mp hp
  obtain ⟨text, -, rfl⟩ := List.mem_map.mp hs
  exact clean_stringLiteral text

/-- The state as a class has no control characters if its keys are identifiers. -/
theorem cleanLines_stateClassLines (hstate : Clean l.stateClass) {state : Keyed FieldType}
    (hkeys : state.keys.all isIdentifier = true) : CleanLines (stateClassLines l state) := by
  have hfields : ∀ field ∈ state, Clean field.1 := fun field hfield =>
    (isIdentifier_iff.mp (List.all_eq_true.mp hkeys field.1 (List.mem_map_of_mem hfield))).1.clean
  rw [stateClassLines]
  refine cleanLines_cons.mpr ⟨by simp +decide [top, hstate], ?_⟩
  split
  · decide
  · intro line hline
    obtain ⟨⟨key, type⟩, hfield, rfl⟩ := List.mem_map.mp hline
    simp +decide [inner, hfields _ hfield]

/-- The fields of the state in a call have no control characters. -/
theorem cleanLines_fieldLines (state : Keyed FieldType) :
    CleanLines (state.map fun (key, type) => inner2 (stringLiteral key ++ ": " ++ type.annotation ++ ",")) := by
  intro line hline
  obtain ⟨⟨key, type⟩, -, rfl⟩ := List.mem_map.mp hline
  simp +decide [inner2]

/-- The state as a call has no control characters, whatever its keys are. -/
theorem cleanLines_stateCallLines (hstate : Clean l.stateClass) (state : Keyed FieldType) :
    CleanLines (stateCallLines l state) := by
  simp +decide [stateCallLines, top, inner, hstate, cleanLines_fieldLines]

/-- The state has no control characters. -/
theorem cleanLines_state (hstate : Clean l.stateClass) (state : Keyed FieldType) :
    CleanLines (if state.keys.all isIdentifier then stateClassLines l state else stateCallLines l state) := by
  split
  · next hkeys => exact cleanLines_stateClassLines hstate hkeys
  · exact cleanLines_stateCallLines hstate state

/-- The runtime has no control characters. -/
theorem cleanLines_runtimeBody : CleanLines (runtimeBody.map top) := by
  intro line hline
  obtain ⟨s, hs, rfl⟩ := List.mem_map.mp hline
  exact clean_wording (mem_wordings_of_runtime hs)

/-- The lines that give back the result of a call have no control characters if the call is a statement. -/
theorem cleanLines_resultLines (outputKey : Option String) {call : String} (hcall : call ∈ statements) :
    CleanLines (resultLines outputKey call) := by
  have hresult : Clean "result = " := by decide
  have hreturn : Clean "return \x7bCONFIG[\"output_key\"]: result\x7d" := clean_statement (by simp [statements])
  have hnone : Clean "return \x7b\x7d" := clean_statement (by simp [statements])
  cases outputKey <;> simp [resultLines, inner, clean_statement hcall, hresult, hreturn, hnone]

/-- The body of the function that runs a node has no control characters. -/
theorem cleanLines_runLines (spec : NodeSpec) : CleanLines (runLines spec) := by
  have hnone : Clean "return \x7b\x7d" := clean_statement (by simp [statements])
  cases spec with
  | start inputs =>
    have hmissing : Clean "missing = [key for key in CONFIG[\"inputs\"] if key not in state]" :=
      clean_statement (by simp [statements])
    have hraise : Clean "raise ValueError(\"missing workflow input(s): \" + \", \".join(missing))" :=
      clean_statement (by simp [statements])
    have htest : Clean "if missing:" := by decide
    simp [runLines, inner, inner2, hmissing, htest, hraise, hnone]
  | llmCall call =>
    have hprompt : Clean "prompt = render_prompt(CONFIG, dict(state))" := clean_statement (by simp [statements])
    exact cleanLines_cons.mpr ⟨hprompt, cleanLines_resultLines _ (by simp [statements])⟩
  | toolCall call => exact cleanLines_resultLines _ (by simp [statements])
  | conditionalBranch branching => simp [runLines, inner, hnone]
  | transform assign =>
    have hassign : Clean "return copy.deepcopy(CONFIG[\"assign\"])" := clean_statement (by simp [statements])
    simp [runLines, inner, hassign]
  | finish outputs => simp [runLines, inner, hnone]

/-- The routing function of a table has no control characters. -/
theorem cleanLines_tableLines (hstate : Clean l.stateClass) (hslugs : ∀ i, Clean (l.slug i)) (t : BranchTable) :
    CleanLines (tableLines g l t) := by
  rw [tableLines]
  split
  · split
    · simp +decide [routeLines, routeFunction, labelRow, top, inner, inner2, blankLine, hstate, hslugs]
    · exact cleanLines_nil
  · exact cleanLines_nil

/-- The routes of a branch have no control characters. -/
theorem cleanLines_routeLines (t : BranchTable) :
    CleanLines (t.routes.map fun (label, target) => ⟨3, stringLiteral label ++ ": " ++ stringLiteral (g.idAt target) ++ ","⟩) := by
  intro line hline
  obtain ⟨⟨label, target⟩, -, rfl⟩ := List.mem_map.mp hline
  simp +decide

/-- The calls of an edge have no control characters. -/
theorem cleanLines_edgeLines (hslugs : ∀ i, Clean (l.slug i)) (earlier : List Edge) (e : Edge) :
    CleanLines (edgeLines g l earlier e) := by
  rw [edgeLines]
  split
  · simp +decide [inner]
  · split
    · exact cleanLines_nil
    · split
      · simp +decide [conditionalLines, inner, inner2, routeFunction, hslugs, cleanLines_routeLines]
      · exact cleanLines_nil

/-- The edges have no control characters. -/
theorem cleanLines_flatMap_edgeLines (hslugs : ∀ i, Clean (l.slug i)) :
    CleanLines (g.edges.zipIdx.flatMap fun (e, k) => edgeLines g l (g.edges.take k) e) := by
  intro line hline
  obtain ⟨⟨e, k⟩, -, hline⟩ := List.mem_flatMap.mp hline
  exact cleanLines_edgeLines hslugs _ e line hline

end Package

/-- What is made of the items of a list is made of them with their positions. -/
theorem map_zipIdx_fst {α β : Type} (items : List α) (f : α → β) : (items.zipIdx.map fun item => f item.1) = items.map f :=
  calc (items.zipIdx.map fun item => f item.1) = (items.zipIdx.map (·.1)).map f := List.map_map.symm
    _ = items.map f := by rw [List.zipIdx_map_fst]

/-! ## Control characters of lines -/

/-- A line adds the control characters of its text to a script. -/
theorem mem_script_iff {l : Line} {c : Char} (hc : IsControl c) : c ∈ l.script.toList ↔ c ∈ l.text.toList := by
  have hpart : ∀ part : List Char,
      c ∈ (if part = [] then "" else indentation l.depth ++ String.ofList part).toList ↔ c ∈ part := by
    intro part
    have hindent : c ∉ (indentation l.depth).toList := fun hmem => clean_indentation l.depth c hmem hc
    split
    · next hempty => simp [hempty]
    · simp [hindent]
  have hparts : (∃ part ∈ partsBetween '\n' l.text.toList, c ∈ part) ↔ c ∈ l.text.toList := exists_mem_partsBetween_iff hc.2
  rw [Line.script, Line.physical, String.toList_join, List.map_map, List.mem_flatMap, ← hparts]
  simp [hpart, hc.2]

/-- A script holds the control characters of the texts of its lines. -/
theorem mem_renderLines_iff {lines : List Line} {c : Char} (hc : IsControl c) :
    c ∈ (renderLines lines).toList ↔ ∃ l ∈ lines, c ∈ l.text.toList := by
  rw [renderLines_eq, String.toList_join, List.mem_flatMap]
  simp [mem_script_iff hc]

/-- A control character comes from a comment on some texts: there are comments, one of the texts holds it, and it is not folded
away with the blank ones. -/
def FromComment (options : Options) (texts : List String) (c : Char) : Prop :=
  options.includeComments = true ∧ isBlank c = false ∧ ∃ t ∈ texts, c ∈ t.toList

/-- The control characters of some lines are those of their comments on some texts. -/
def Remarks (options : Options) (lines : List Line) (texts : List String) : Prop :=
  ∀ c, IsControl c → ((∃ l ∈ lines, c ∈ l.text.toList) ↔ FromComment options texts c)

namespace Remarks

variable {options : Options} {lines lines' : List Line} {texts texts' : List String}

/-- Lines without control characters have no comment on any text. -/
theorem of_clean (h : CleanLines lines) : Remarks options lines [] := by
  intro c hc
  have hnone : ¬∃ l ∈ lines, c ∈ l.text.toList := by
    rintro ⟨l, hl, hmem⟩
    exact h l hl c hmem hc
  simp [FromComment, hnone]

/-- Lines after lines have the comments of both. -/
theorem append (h : Remarks options lines texts) (h' : Remarks options lines' texts') :
    Remarks options (lines ++ lines') (texts ++ texts') := by
  intro c hc
  simp only [List.mem_append, or_and_right, exists_or, h c hc, h' c hc, FromComment, and_or_left]

/-- Lines without control characters after lines change nothing. -/
theorem append_clean (h : Remarks options lines texts) (h' : CleanLines lines') : Remarks options (lines ++ lines') texts := by
  have hall := h.append (of_clean h')
  rwa [List.append_nil] at hall

/-- Without comments there are no lines for them. -/
theorem uncommented (h : options.includeComments = false) : Remarks options [] texts := by
  intro c _
  simp [FromComment, h]

/-- A comment on a text is a line with the text folded. -/
theorem comment (h : options.includeComments = true) {depth : Nat} {before after text : String} (hbefore : Clean before)
    (hafter : Clean after) : Remarks options [⟨depth, before ++ foldBlank text ++ after⟩] [text] := by
  intro c hc
  have hleft : c ∉ before.toList := fun hmem => hbefore c hmem hc
  have hright : c ∉ after.toList := fun hmem => hafter c hmem hc
  simp [FromComment, h, hleft, hright, mem_foldBlank_iff hc.ne_space, and_comm]

/-- Groups of lines with a comment on one text each have comments on all of them. -/
theorem flatMap {α : Type} {items : List α} {group : α → List Line} {text : α → String}
    (h : ∀ item, Remarks options (group item) [text item]) :
    Remarks options (items.flatMap group) (items.map text) := by
  induction items with
  | nil => exact of_clean cleanLines_nil
  | cons item items ih => exact (h item).append ih

end Remarks

namespace Package

variable {g : Graph} {l : Layout} {options : Options}

/-- The comment at the head of a file is about the name of the workflow. -/
theorem remarks_header {what : String} (hwhat : Clean what) : Remarks options (header g options what) [g.name] := by
  have hversion : Clean options.framework.text := by cases options.framework <;> decide
  have hbefore : Clean ("# " ++ what ++ " for workflow '") := by simp +decide [hwhat]
  have horigin : CleanLines
      [top ("# Generated by flowc (framework API " ++ options.framework.text ++ "). Do not edit by hand."), blankLine] := by
    simp +decide [top, hversion]
  rw [header]
  split
  · next hcomments => exact (Remarks.comment hcomments hbefore (by decide)).append_clean horigin
  · next hcomments => exact Remarks.uncommented (Bool.eq_false_iff.mpr hcomments)

/-- The comment with the description of the workflow is about the description, if there is one. -/
theorem remarks_descriptionComment : Remarks options (descriptionComment g options) g.description.toList := by
  have hempty : CleanLines [blankLine] := by decide
  rw [descriptionComment]
  cases hcomments : options.includeComments with
  | false => exact Remarks.uncommented hcomments
  | true =>
    cases hdescription : g.description with
    | none => exact Remarks.of_clean cleanLines_nil
    | some description =>
      have hbefore : Clean "# " := by decide
      have htext : Remarks options [top ("# " ++ foldBlank description ++ "")] [description] :=
        Remarks.comment hcomments hbefore (by decide)
      rw [String.append_empty] at htext
      exact htext.append_clean hempty

/-- The comment that names a node is about its id. -/
theorem remarks_nodeComment (n : Node) (depth : Nat) : Remarks options (nodeComment n options depth) [n.id] := by
  have hkind : Clean n.kind.text := by cases n.kind <;> decide
  rw [nodeComment]
  split
  · next hcomments =>
    have hafter : Clean ("' (" ++ n.kind.text ++ ").") := by simp +decide [hkind]
    simpa only [String.append_assoc] using Remarks.comment hcomments (by decide) hafter
  · next hcomments => exact Remarks.uncommented (Bool.eq_false_iff.mpr hcomments)

/-! ## Control characters of the files -/

/-- The package's own file has comments on the name and the description of the workflow. -/
theorem remarks_packageLines (hstate : Clean l.stateClass) :
    Remarks options (packageLines g l options) (g.name :: g.description.toList) := by
  have hwhat : Clean "Package entry point" := by decide
  have hcode : CleanLines
      [top "from .graph import build_graph, graph", top ("from .state import " ++ l.stateClass), blankLine,
       top ("__all__ = [" ++ ", ".intercalate ([l.stateClass, "build_graph", "graph"].map stringLiteral) ++ "]")] := by
    have hrow := clean_row [l.stateClass, "build_graph", "graph"]
    simp +decide [-List.map_cons, top, hstate, hrow]
  exact ((remarks_header hwhat).append remarks_descriptionComment).append_clean hcode

/-- The file of the state has a comment on the name. -/
theorem remarks_stateLines (hstate : Clean l.stateClass) : Remarks options (stateLines g l options) [g.name] := by
  have hwhat : Clean "Shared state schema" := by decide
  have himports : CleanLines
      [top (if (stateSchema g).any (·.2 == .any) then "from typing import Any, TypedDict" else "from typing import TypedDict"),
       blankLine, blankLine] := by
    split <;> decide
  exact ((remarks_header hwhat).append_clean himports).append_clean (cleanLines_state hstate _)

/-- The file of the runtime has a comment on the name. -/
theorem remarks_runtimeLines : Remarks options (runtimeLines g options) [g.name] := by
  have hwhat : Clean "Runtime hooks" := by decide
  exact (remarks_header hwhat).append_clean cleanLines_runtimeBody

/-- The file that gathers the node modules has a comment on the name. -/
theorem remarks_nodeIndexLines (hslugs : ∀ slug ∈ l.slugs, Clean slug) :
    Remarks options (nodeIndexLines g l options) [g.name] := by
  have hwhat : Clean "Node modules" := by decide
  refine (remarks_header hwhat).append_clean fun line hline => ?_
  obtain ⟨slug, hslug, rfl⟩ := List.mem_map.mp hline
  simp +decide [top, hslugs slug hslug]

/-- The file of a node has comments on the id of the node and the name. -/
theorem remarks_nodeLines (hstate : Clean l.stateClass) (n : Node) : Remarks options (nodeLines g n l options) [n.id, g.name] := by
  have hwhat : Clean "Node module" := by decide
  have hdisplay : Clean (displayLiteral n) := by
    rw [displayLiteral]
    cases n.display with
    | none => decide
    | some v => exact clean_literal 0 v
  have hcopy : CleanLines (if copies n.kind then [top "import copy"] else []) := by split <;> decide
  have htyping : CleanLines [top "from typing import Any, Dict", blankLine] := by decide
  have himports : CleanLines (nodeImports n.kind) := by cases n.kind <;> decide
  have hcode : CleanLines
      [top ("from ..state import " ++ l.stateClass), blankLine, top ("NODE_ID = " ++ stringLiteral n.id),
       top ("KIND = " ++ stringLiteral n.kind.text), top ("CONFIG = " ++ literal 0 n.spec.payload),
       top ("DISPLAY = " ++ displayLiteral n), blankLine, blankLine,
       top ("def run(state: " ++ l.stateClass ++ ") -> Dict[str, Any]:")] := by
    simp +decide [top, blankLine, hstate, hdisplay, clean_literal]
  exact (((((remarks_nodeComment n 0).append (remarks_header hwhat)).append_clean hcopy).append_clean htyping).append_clean
    himports).append_clean hcode |>.append_clean (cleanLines_runLines n.spec)

/-- The function that builds the graph has comments on the ids of the nodes. -/
theorem remarks_buildLines (hstate : Clean l.stateClass) (hslugs : ∀ i, Clean (l.slug i)) :
    Remarks options (buildLines g l options) (g.nodes.map Node.id) := by
  have hadd : ∀ item : Node × Nat, Remarks options (addNodeLines l options item.1 item.2) [item.1.id] := fun item =>
    (remarks_nodeComment item.1 1).append_clean (by simp +decide [inner, hslugs])
  have hbuilder : CleanLines [inner ("builder = StateGraph(" ++ l.stateClass ++ ")")] := by simp +decide [inner, hstate]
  have hentry : CleanLines [blankLine, entryLine g options.framework] := by
    cases options.framework <;> simp +decide [entryLine, inner]
  have hfinish : CleanLines (g.terminals.map (finishLine g options.framework)) := by
    intro line hline
    obtain ⟨i, -, rfl⟩ := List.mem_map.mp hline
    cases options.framework <;> simp +decide [finishLine, inner]
  have hreturn : CleanLines [inner "return builder"] := by decide
  rw [← map_zipIdx_fst g.nodes Node.id]
  exact ((((Remarks.of_clean hbuilder).append (Remarks.flatMap hadd)).append_clean hentry).append_clean
    (cleanLines_flatMap_edgeLines hslugs)).append_clean hfinish |>.append_clean hreturn

/-- The file that assembles the graph has comments on the name and the ids of the nodes. -/
theorem remarks_assemblyLines (hstate : Clean l.stateClass) (hslugs : ∀ i, Clean (l.slug i)) :
    Remarks options (assemblyLines g l options) (g.name :: g.nodes.map Node.id) := by
  have hwhat : Clean "Graph assembly" := by decide
  have himports : CleanLines (assemblyImports g l options) := by
    rw [assemblyImports]
    cases options.framework <;> split <;> simp +decide [top, hstate]
  have htables : CleanLines (g.branchTables.flatMap (tableLines g l)) := by
    intro line hline
    obtain ⟨t, -, hline⟩ := List.mem_flatMap.mp hline
    exact cleanLines_tableLines hstate hslugs t line hline
  have hhead : CleanLines [blankLine, blankLine, top "def build_graph() -> StateGraph:"] := by decide
  have hcompile : CleanLines [blankLine, blankLine, top "graph = build_graph().compile()"] := by decide
  exact (((((remarks_header hwhat).append_clean himports).append_clean htables).append_clean hhead).append
    (remarks_buildLines hstate hslugs)).append_clean hcompile

end Package

/-! ## Control characters of a package -/

namespace Package

/-- The texts of a workflow that the comments of its package are about, file by file: the name everywhere, and besides the
description, the id of the node, or the ids of all nodes. -/
def commentTexts (g : Graph) : List (List String) :=
  [g.name :: g.description.toList, [g.name], [g.name], [g.name]] ++ (g.nodes.map fun n => [n.id, g.name]) ++
    [g.name :: g.nodes.map Node.id]

variable {g : Graph} {l : Layout} {options : Options}

/-- A slug at any position has no control characters, for where there is none it is empty. -/
theorem clean_slug (hslugs : ∀ slug ∈ l.slugs, Clean slug) (i : Nat) : Clean (l.slug i) := by
  rw [Layout.slug]
  cases hslug : l.slugs[i]? with
  | none => decide
  | some slug => exact hslugs slug (List.mem_of_getElem? hslug)

/-- The runtime is among the files of a package. -/
theorem runtime_mem_of_generate {files : List Artifact} (hfiles : generate g options = .ok files) :
    artifact (Layout.ofGraph g options) ["runtime.py"] (runtimeLines g options) ∈ files := by
  rw [← (generate_eq_ok_iff.mp hfiles).2, artifacts]
  simp

/-- A file holds the control characters of its comments. -/
theorem controls_artifact (parts : List String) {lines : List Line} {texts : List String} (h : Remarks options lines texts) :
    ∀ c, IsControl c → (c ∈ (artifact l parts lines).contents.toList ↔ FromComment options texts c) := by
  intro c hc
  rw [artifact, mem_renderLines_iff hc]
  exact h c hc

end Package

open Package

/-- The control characters of a package, line feeds aside, are those of its comments. Without comments no file holds one, whatever
the texts and values of the workflow are. With comments a file holds exactly those that stand in the name of the workflow, in its
description (the package's own file), in the id of the node (the file of a node) or in the ids of all nodes (the file that assembles
the graph), and are not blank. -/
theorem controls_of_comments {g : Graph} {options : Options} {files : List Artifact} (hfiles : generate g options = .ok files) :
    List.Forall₂ (fun file texts => ∀ c, IsControl c → (c ∈ file.contents.toList ↔ FromComment options texts c))
      files (commentTexts g) := by
  have hname : IsNameText (Layout.ofGraph g options).stateClass := Layout.isNameText_stateClass
  have hstate : Clean (Layout.ofGraph g options).stateClass := hname.clean
  have hslugs : ∀ slug ∈ (Layout.ofGraph g options).slugs, Clean slug := fun slug hslug =>
    (isIdentifier_iff.mp (Layout.isIdentifier_of_mem_slugs slug hslug)).1.clean
  obtain ⟨-, rfl⟩ := generate_eq_ok_iff.mp hfiles
  rw [artifacts, commentTexts, ← map_zipIdx_fst g.nodes fun n => [n.id, g.name]]
  refine List.rel_append (List.rel_append ?_ ?_) ?_
  · exact .cons (controls_artifact _ (remarks_packageLines hstate)) (.cons (controls_artifact _ (remarks_stateLines hstate))
      (.cons (controls_artifact _ remarks_runtimeLines) (.cons (controls_artifact _ (remarks_nodeIndexLines hslugs)) .nil)))
  · rw [List.forall₂_map_left_iff, List.forall₂_map_right_iff, List.forall₂_same]
    intro item _
    exact controls_artifact _ (remarks_nodeLines hstate item.1)
  · exact .cons (controls_artifact _ (remarks_assemblyLines hstate (clean_slug hslugs))) .nil

/-- A workflow with control characters in its name, one of them blank, in its description, in an id and in a state key. -/
def nightWatch : Document where
  name := "night\twatch\x00"
  description := some "Rings \x07 at six."
  version := none
  entry := "begin"
  nodes := [⟨"begin", .start [⟨"hour\x01", .integer⟩], none⟩, ⟨"ring\x1b", .finish ["hour\x01"], none⟩]
  edges := [⟨"begin", "ring\x1b", none⟩]

/-- Of its control characters, those of the name, the description and the id stand in its package. The tab and that of the state key
do not. -/
theorem controls_of_comments_nightWatch :
    ∃ g files, Graph.build nightWatch = .ok g ∧ generate g {} = .ok files ∧
      commentTexts g = [["night\twatch\x00", "Rings \x07 at six."], ["night\twatch\x00"], ["night\twatch\x00"],
        ["night\twatch\x00"], ["begin", "night\twatch\x00"], ["ring\x1b", "night\twatch\x00"],
        ["night\twatch\x00", "begin", "ring\x1b"]] ∧
      List.Forall₂ (fun file texts => ∀ c, IsControl c → (c ∈ file.contents.toList ↔ FromComment {} texts c))
        files (commentTexts g) := by
  obtain ⟨g, hg⟩ : ∃ g, Graph.build nightWatch = .ok g := ⟨_, rfl⟩
  obtain ⟨files, hfiles⟩ : ∃ files, generate g {} = .ok files := by
    cases hg
    exact ⟨_, rfl⟩
  refine ⟨g, files, hg, hfiles, ?_, controls_of_comments hfiles⟩
  cases hg
  rfl

/-- The NUL of its name stands in its runtime as it is. -/
theorem nul_written_nightWatch :
    ∃ g files, Graph.build nightWatch = .ok g ∧ generate g {} = .ok files ∧
      ∃ file ∈ files, file.path = "night_watch/runtime.py" ∧ '\x00' ∈ file.contents.toList := by
  obtain ⟨g, hg⟩ : ∃ g, Graph.build nightWatch = .ok g := ⟨_, rfl⟩
  obtain ⟨files, hfiles⟩ : ∃ files, generate g {} = .ok files := by
    cases hg
    exact ⟨_, rfl⟩
  have hnul : '\x00' ∈ (artifact (Layout.ofGraph g {}) ["runtime.py"] (runtimeLines g {})).contents.toList := by
    refine (controls_artifact _ remarks_runtimeLines _ (by decide)).mpr ⟨rfl, by decide, g.name, List.mem_cons_self, ?_⟩
    cases hg
    decide
  refine ⟨g, files, hg, hfiles, _, runtime_mem_of_generate hfiles, ?_, hnul⟩
  cases hg
  decide

end Workflow
