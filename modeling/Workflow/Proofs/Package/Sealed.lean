import Mathlib
import Workflow.Package.Files
import Workflow.Proofs.Package.Script

/-!
# Sealed scripts

A script is sealed if it falls into pieces of which each stands where it may: fixed wordings, which are the same for every
workflow; identifiers, annotations and numerals outside of comments and literals, none of them a part of a longer word; literals
of texts; and folded texts in comments. No piece but a fixed wording ends a line.
-/

namespace Workflow

/-- The lines that stand in a package as they are, apart from those of the runtime. -/
def statements : List String :=
  ["from .graph import build_graph, graph", "from typing import Any, TypedDict", "from typing import TypedDict", "pass",
   "\x7b", "\x7d,", "total=False,", ")", "import copy", "from typing import Any, Dict",
   "from ..runtime import call_llm, render_prompt", "from ..runtime import call_tool",
   "missing = [key for key in CONFIG[\"inputs\"] if key not in state]", "if missing:",
   "raise ValueError(\"missing workflow input(s): \" + \", \".join(missing))", "return \x7b\x7d",
   "prompt = render_prompt(CONFIG, dict(state))", "call_llm(CONFIG, prompt, dict(state))",
   "call_tool(CONFIG[\"tool\"], copy.deepcopy(CONFIG[\"arguments\"]), dict(state))",
   "return \x7bCONFIG[\"output_key\"]: result\x7d", "return copy.deepcopy(CONFIG[\"assign\"])",
   "from typing import Literal", "from langgraph.graph import END, START, StateGraph",
   "from langgraph.graph import StateGraph", "from . import nodes", "return value", "builder.add_conditional_edges(",
   "return builder", "def build_graph() -> StateGraph:", "graph = build_graph().compile()"]

/-- The wordings of comments around folded texts. -/
def remarks : List String :=
  ["# ", "Package entry point", "Shared state schema", "Runtime hooks", "Node modules", "Node module", "Graph assembly",
   " for workflow '", "'.", "# Generated by flowc (framework API ", "0.1", "0.2", "). Do not edit by hand.",
   "# Source node '", "' (", ").", "start", "llm-call", "tool-call", "conditional-branch", "transform", "end"]

/-- The wordings inside lines, around names and literals. -/
def fragments : List String :=
  [indent, "[]", "]", "\x7b\x7d", "\x7d", ",", ": ", ", ", ")", "from .state import ", "__all__ = [", "class ",
   "(TypedDict, total=False):", " = TypedDict(", "from . import ", "from ..state import ", "NODE_ID = ", "KIND = ",
   "CONFIG = ", "DISPLAY = ", "def run(state: ", ") -> Dict[str, Any]:", "result = ", "def ", "(state: ",
   ") -> Literal[", "]:", "value = state.get(", "if value in (", "):", "raise ValueError(", " + repr(value))",
   "builder.add_node(", ", nodes.", ".run)", "builder.add_edge(START, ", "builder.set_entry_point(",
   "builder.add_edge(", ", END)", "builder.set_finish_point(", "builder = StateGraph("]

/-- The wordings that end lines or are words by themselves. -/
def joints : List String := ["\n", "[\n", ",\n", "\x7b\n", "None", "True", "False"]

/-- All wordings of a package, whatever the workflow. -/
def wordings : List String := Package.runtimeBody ++ statements ++ remarks ++ fragments ++ joints

/-- A joint is a wording. -/
theorem mem_wordings_of_joint {s : String} (h : s ∈ joints) : s ∈ wordings := List.mem_append_right _ h

/-- A fragment is a wording. -/
theorem mem_wordings_of_fragment {s : String} (h : s ∈ fragments) : s ∈ wordings :=
  List.mem_append_left _ (List.mem_append_right _ h)

/-- A remark is a wording. -/
theorem mem_wordings_of_remark {s : String} (h : s ∈ remarks) : s ∈ wordings :=
  List.mem_append_left _ (List.mem_append_left _ (List.mem_append_right _ h))

/-- A statement is a wording. -/
theorem mem_wordings_of_statement {s : String} (h : s ∈ statements) : s ∈ wordings :=
  List.mem_append_left _ (List.mem_append_left _ (List.mem_append_left _ (List.mem_append_right _ h)))

/-- A line of the runtime is a wording. -/
theorem mem_wordings_of_runtime {s : String} (h : s ∈ Package.runtimeBody) : s ∈ wordings :=
  List.mem_append_left _ (List.mem_append_left _ (List.mem_append_left _ (List.mem_append_left _ h)))

/-- A piece of a script. -/
inductive Piece
  | fixed (s : String)
  | name (s : String)
  | typed (type : FieldType)
  | number (s : String)
  | literal (s : String)
  | folded (s : String)

namespace Piece

/-- How a piece is written. -/
def text : Piece → String
  | fixed s => s
  | name s => s
  | typed type => type.annotation
  | number s => s
  | literal s => stringLiteral s
  | folded s => foldBlank s

/-- Whether a piece is a fixed wording. -/
def IsFixed : Piece → Prop
  | fixed _ => True
  | _ => False

/-- Where a piece may stand, given the names that may be used. A fixed wording may stand anywhere but does not go on with a word
of the piece before it. -/
def Fits (names : List String) : Piece → List Region → Prop
  | fixed s, marks => s ∈ wordings ∧ marks.head? ≠ some .within
  | name s, marks => (s ∈ names ∧ isIdentifier s = true) ∧ ScriptMode.Bare marks
  | typed _, marks => ScriptMode.Bare marks
  | number s, marks => IsNumeral s ∧ ScriptMode.Bare marks
  | literal _, marks => ∀ r ∈ marks, r = .text
  | folded _, marks => ∀ r ∈ marks, r = .comment

/-- A piece stands where it may, and ends no line unless it is a fixed wording. -/
structure Stands (names : List String) (p : Piece) (marks : List Region) : Prop where
  length : marks.length = p.text.toList.length
  fits : p.Fits names marks
  unbroken : p.IsFixed ∨ ∀ c ∈ p.text.toList, isBreak c = false

end Piece

/-- A script that is read from a mode on to its end, where the reading stands outside, and that falls into pieces of which each
stands where it may. -/
def SealedFrom (names : List String) (m : ScriptMode) (script : String) : Prop :=
  ∃ (pieces : List Piece) (marks : List (List Region)), script = String.join (pieces.map Piece.text) ∧
    m.scan script.toList = some (marks.flatten, .outside) ∧ List.Forall₂ (Piece.Stands names) pieces marks

/-- A script that falls into pieces of which each stands where it may. No literal in it is left open. -/
def Sealed (names : List String) (script : String) : Prop := SealedFrom names .outside script

/-- The characters of a wording are read from one mode to another and do not begin by going on with a word. -/
def ScriptMode.passes (m : ScriptMode) (cs : List Char) (m' : ScriptMode) : Bool :=
  match m.scan cs with
  | some (marks, last) => last == m' && marks.head? != some .within
  | none => false

/-- Every fragment is read from outside to outside and stays on its line. -/
theorem passes_of_fragment : ∀ s ∈ fragments,
    ∃ cs, s = String.ofList cs ∧ (ScriptMode.outside.passes cs .outside && cs.all (!isBreak ·)) = true := by
  unfold fragments
  repeat refine List.forall_mem_cons.mpr ⟨⟨_, rfl, by decide⟩, ?_⟩
  exact fun s hs => absurd hs List.not_mem_nil

/-- A text whose first character ends a word and opens no literal. -/
def Apart (s : String) : Prop := ∃ c cs, s.toList = c :: cs ∧ isNameChar c = false ∧ c ≠ '"'

namespace SealedFrom

variable {names : List String} {m m' : ScriptMode} {s t rest : String}

/-! ## Pieces -/

/-- Nothing is sealed. -/
theorem nil : SealedFrom names .outside "" := ⟨[], [], rfl, rfl, .nil⟩

/-- Two sealed texts after one another. -/
theorem append (h : SealedFrom names m s) (h' : SealedFrom names .outside t) : SealedFrom names m (s ++ t) := by
  obtain ⟨pieces, marks, htext, hscan, hstands⟩ := h
  obtain ⟨pieces', marks', htext', hscan', hstands'⟩ := h'
  refine ⟨pieces ++ pieces', marks ++ marks', ?_, ?_, List.rel_append hstands hstands'⟩
  · rw [List.map_append, String.join_append, ← htext, ← htext']
  · rw [String.toList_append, List.flatten_append]
    exact ScriptMode.scan_append hscan hscan'

/-- A piece before a sealed text. -/
theorem piece {p : Piece} {mark : List Region} (hfits : p.Fits names mark)
    (hunbroken : p.IsFixed ∨ ∀ c ∈ p.text.toList, isBreak c = false) (hscan : m.scan p.text.toList = some (mark, m'))
    (h : SealedFrom names m' rest) : SealedFrom names m (p.text ++ rest) := by
  obtain ⟨pieces, marks, htext, hrest, hstands⟩ := h
  have hp : p.Stands names mark := ⟨ScriptMode.length_of_scan hscan, hfits, hunbroken⟩
  refine ⟨p :: pieces, mark :: marks, ?_, ?_, .cons hp hstands⟩
  · rw [List.map_cons, String.join_cons, ← htext]
  · rw [String.toList_append, List.flatten_cons]
    exact ScriptMode.scan_append hscan hrest

/-- A fixed wording before a sealed text. -/
theorem fixed (m' : ScriptMode) {cs : List Char} (hs : s = String.ofList cs) (hmem : s ∈ wordings)
    (hpasses : m.passes cs m' = true) (h : SealedFrom names m' rest) : SealedFrom names m (s ++ rest) := by
  rw [ScriptMode.passes] at hpasses
  cases hscan : m.scan cs with
  | none =>
    rw [hscan] at hpasses
    cases hpasses
  | some out =>
    obtain ⟨mark, last⟩ := out
    rw [hscan, Bool.and_eq_true, beq_iff_eq, bne_iff_ne] at hpasses
    obtain ⟨rfl, hhead⟩ := hpasses
    have htext : (Piece.fixed s).text.toList = cs := by rw [Piece.text, hs, String.toList_ofList]
    exact piece (p := .fixed s) ⟨hmem, hhead⟩ (Or.inl trivial) (htext ▸ hscan) h

/-- A joint before a sealed text. -/
theorem joint (m' : ScriptMode) {cs : List Char} (hs : s = String.ofList cs) (hmem : s ∈ joints)
    (hpasses : m.passes cs m' = true) (h : SealedFrom names m' rest) : SealedFrom names m (s ++ rest) :=
  fixed m' hs (mem_wordings_of_joint hmem) hpasses h

/-- A fragment before a sealed text. -/
theorem fragment (hs : s ∈ fragments) (h : SealedFrom names .outside rest) : SealedFrom names .outside (s ++ rest) := by
  obtain ⟨cs, hcs, hpasses⟩ := passes_of_fragment s hs
  exact fixed .outside hcs (mem_wordings_of_fragment hs) (Bool.and_eq_true _ _ ▸ hpasses).1 h

/-- A text that is apart is sealed behind a word and behind an empty literal too. -/
theorem of_apart (hm : m = .outside ∨ m = .word ∨ m = .emptied) (hapart : Apart s) (h : SealedFrom names .outside s) :
    SealedFrom names m s := by
  obtain ⟨pieces, marks, htext, hscan, hstands⟩ := h
  obtain ⟨c, cs, hs, hname, hquote⟩ := hapart
  refine ⟨pieces, marks, htext, ?_, hstands⟩
  rw [hs] at hscan ⊢
  rw [ScriptMode.scan_congr (ScriptMode.step_eq_outside hm hname hquote), hscan]

/-- A piece of bare characters before a sealed text that is apart from it. -/
theorem bare {p : Piece} (hfits : ∀ mark, ScriptMode.Bare mark → p.Fits names mark) (hne : p.text.toList ≠ [])
    (hbare : ∀ c ∈ p.text.toList, ScriptMode.isBare c = true ∧ isBreak c = false) (hapart : Apart rest)
    (h : SealedFrom names .outside rest) : SealedFrom names .outside (p.text ++ rest) := by
  obtain ⟨c, cs, hcs⟩ := List.exists_cons_of_ne_nil hne
  have hall : ∀ d ∈ c :: cs, ScriptMode.isBare d = true := fun d hd => (hbare d (hcs ▸ hd)).1
  obtain ⟨mark, m, hm, hmark, hscan⟩ := ScriptMode.scan_outside_of_isBare hall
  refine piece (hfits mark hmark) (Or.inr fun d hd => (hbare d hd).2) (hcs ▸ hscan) (of_apart ?_ hapart h)
  exact hm.imp_right Or.inl

/-- Characters of names are bare and break no line. -/
theorem isBare_of_isNameChar {c : Char} (h : isNameChar c = true) : ScriptMode.isBare c = true ∧ isBreak c = false := by
  have hne : ∀ d, isNameChar d = false → c ≠ d := by
    intro d hd heq
    rw [heq, hd] at h
    cases h
  simp only [ScriptMode.isBare, isBreak, Bool.and_eq_true, bne_iff_ne, Bool.or_eq_false_iff, beq_eq_false_iff_ne]
  exact ⟨⟨⟨⟨hne _ rfl, hne _ rfl⟩, hne _ rfl⟩, hne _ rfl⟩, hne _ rfl, hne _ rfl⟩

/-- A name before a sealed text that is apart from it. -/
theorem name (hmem : s ∈ names) (hs : isIdentifier s = true) (hapart : Apart rest) (h : SealedFrom names .outside rest) :
    SealedFrom names .outside (s ++ rest) := by
  obtain ⟨⟨hne, hall⟩, -, -⟩ := isIdentifier_iff.mp hs
  refine bare (p := .name s) (fun mark hmark => ⟨⟨hmem, hs⟩, hmark⟩) ?_ (fun c hc => isBare_of_isNameChar (hall c hc)) hapart h
  rwa [ne_eq, String.toList_eq_nil_iff]

/-- An annotation before a sealed text that is apart from it. -/
theorem typed (type : FieldType) (hapart : Apart rest) (h : SealedFrom names .outside rest) :
    SealedFrom names .outside ( type.annotation ++ rest) := by
  have hall : type.annotation.toList ≠ [] ∧ type.annotation.toList.all isNameChar = true := by cases type <;> decide
  refine bare (p := .typed type) (fun mark hmark => hmark) hall.1 (fun c hc => ?_) hapart h
  exact isBare_of_isNameChar (List.all_eq_true.mp hall.2 c hc)

/-- The characters of a numeral are bare and break no line. -/
theorem isBare_of_mem_numeral (hs : IsNumeral s) :
    s.toList ≠ [] ∧ ∀ c ∈ s.toList, ScriptMode.isBare c = true ∧ isBreak c = false := by
  refine ⟨hs.ne_nil, hs.forall_mem (fun c hc => isBare_of_isNameChar ?_) ?_⟩
  · rw [isNameChar, Char.isAlphanum, hc, Bool.or_true, Bool.or_true]
  · simp [ScriptMode.isBare, isBreak]

/-- A numeral before a sealed text that is apart from it. -/
theorem number (hs : IsNumeral s) (hapart : Apart rest) (h : SealedFrom names .outside rest) :
    SealedFrom names .outside (s ++ rest) := by
  obtain ⟨hne, hbare⟩ := isBare_of_mem_numeral hs
  exact bare (p := .number s) (fun mark hmark => ⟨hs, hmark⟩) hne hbare hapart h

/-- The literal of a text before a sealed text that is apart from it. -/
theorem literal (s : String) (hapart : Apart rest) (h : SealedFrom names .outside rest) :
    SealedFrom names .outside (stringLiteral s ++ rest) := by
  obtain ⟨m, hm, hscan⟩ := ScriptMode.scan_stringLiteral s
  refine piece (p := .literal s) (fun r hr => ?_) (Or.inr fun c hc => ?_) hscan (of_apart (hm.imp_right Or.inr) hapart h)
  · obtain ⟨c, -, rfl⟩ := List.mem_map.mp hr
    rfl
  · have hplain := LexMode.isPlain_of_mem_stringLiteral s c hc
    simp only [isBreak, Bool.or_eq_false_iff, beq_eq_false_iff_ne]
    exact ⟨fun hfeed => absurd (hfeed ▸ hplain) (by decide), fun hreturn => absurd (hreturn ▸ hplain) (by decide)⟩

/-- A folded text in a comment before a text that is sealed there. -/
theorem folded (s : String) (h : SealedFrom names .comment rest) : SealedFrom names .comment (foldBlank s ++ rest) := by
  have hbreak : ∀ c ∈ (foldBlank s).toList, isBreak c = false := by
    intro c hc
    simp only [isBreak, Bool.or_eq_false_iff, beq_eq_false_iff_ne]
    rcases blank_of_mem_foldBlank c hc with rfl | hblank
    · decide
    · exact ⟨fun hfeed => absurd (hfeed ▸ hblank) (by decide), fun hreturn => absurd (hreturn ▸ hblank) (by decide)⟩
  refine piece (p := .folded s) (fun r hr => ?_) (Or.inr hbreak) (ScriptMode.scan_comment hbreak) h
  obtain ⟨c, -, rfl⟩ := List.mem_map.mp hr
  rfl

/-! ## Literals of values -/

/-- A wording that begins with such a character is apart. -/
theorem apart_append {s t : String} {c : Char} {cs : List Char} (hs : s = String.ofList (c :: cs)) (hname : isNameChar c = false)
    (hquote : c ≠ '"') : Apart (s ++ t) :=
  ⟨c, cs ++ t.toList, by rw [String.toList_append, hs, String.toList_ofList, List.cons_append], hname, hquote⟩

/-- Indentation before a sealed text. -/
theorem indentation (depth : Nat) (h : SealedFrom names .outside rest) :
    SealedFrom names .outside (indentation depth ++ rest) := by
  induction depth with
  | zero => rwa [Workflow.indentation, List.replicate_zero, String.join_nil, String.empty_append]
  | succ depth ih =>
    rw [Workflow.indentation, List.replicate_succ, String.join_cons, String.append_assoc]
    exact fragment (by simp [fragments]) ih

/-- The lines of the elements of a container before a sealed text. -/
theorem elementLines (depth : Nat) {elements : List String}
    (helements : ∀ e ∈ elements, ∀ {rest}, Apart rest → SealedFrom names .outside rest →
      SealedFrom names .outside (e ++ rest)) (h : SealedFrom names .outside rest) :
    SealedFrom names .outside (elementLines depth elements ++ rest) := by
  rw [Workflow.elementLines]
  induction elements with
  | nil => rwa [List.map_nil, String.join_nil, String.empty_append]
  | cons e elements ih =>
    rw [List.forall_mem_cons] at helements
    rw [List.map_cons, String.join_cons, String.append_assoc, String.append_assoc, String.append_assoc]
    refine indentation (depth + 1) (helements.1 (apart_append rfl rfl (by decide)) ?_)
    exact joint .outside rfl (by simp [joints]) (by decide) (ih helements.2)

mutual

/-- The literal of a value before a sealed text that is apart from it. -/
theorem value (depth : Nat) (v : Json) : ∀ {rest}, Apart rest → SealedFrom names .outside rest →
    SealedFrom names .outside (Workflow.literal depth v ++ rest) := by
  intro rest hapart h
  cases v with
  | null =>
    rw [Workflow.literal]
    exact joint .word rfl (by simp [joints]) (by decide) (of_apart (Or.inr (Or.inl rfl)) hapart h)
  | bool b =>
    rw [Workflow.literal]
    cases b <;>
      exact joint .word rfl (by simp [joints]) (by decide) (of_apart (Or.inr (Or.inl rfl)) hapart h)
  | int n =>
    rw [Workflow.literal]
    exact number (isNumeral_toString n) hapart h
  | real x =>
    rw [Workflow.literal]
    exact number (isNumeral_finiteText x) hapart h
  | str s =>
    rw [Workflow.literal]
    exact literal s hapart h
  | arr items =>
    cases items with
    | nil =>
      rw [Workflow.literal]
      exact fragment (by simp [fragments]) h
    | cons item items =>
      simp only [Workflow.literal, String.append_assoc]
      refine joint .outside rfl (by simp [joints]) (by decide) ?_
      refine elementLines depth (valueItems (depth + 1) (item :: items)) ?_
      exact indentation depth (fragment (by simp [fragments]) h)
  | obj entries =>
    cases entries with
    | nil =>
      rw [Workflow.literal]
      exact fragment (by simp [fragments]) h
    | cons entry entries =>
      simp only [Workflow.literal, String.append_assoc]
      refine joint .outside rfl (by simp [joints]) (by decide) ?_
      refine elementLines depth (valueEntries (depth + 1) (entry :: entries)) ?_
      exact indentation depth (fragment (by simp [fragments]) h)

/-- The literals of the items of an array. -/
theorem valueItems (depth : Nat) (items : List Json) : ∀ e ∈ literalItems depth items, ∀ {rest}, Apart rest →
    SealedFrom names .outside rest → SealedFrom names .outside (e ++ rest) := by
  cases items with
  | nil => exact fun e he => absurd he List.not_mem_nil
  | cons item items =>
    rw [literalItems, List.forall_mem_cons]
    exact ⟨value depth item, valueItems depth items⟩

/-- The literals of the entries of an object. -/
theorem valueEntries (depth : Nat) (entries : List (String × Json)) : ∀ e ∈ literalEntries depth entries, ∀ {rest},
    Apart rest → SealedFrom names .outside rest → SealedFrom names .outside (e ++ rest) := by
  cases entries with
  | nil => exact fun e he => absurd he List.not_mem_nil
  | cons entry entries =>
    obtain ⟨k, v⟩ := entry
    rw [literalEntries, List.forall_mem_cons]
    refine ⟨?_, valueEntries depth entries⟩
    intro rest hapart h
    simp only [String.append_assoc]
    refine literal k (apart_append rfl rfl (by decide)) ?_
    exact fragment (by simp [fragments]) (value depth v hapart h)

end

end SealedFrom

end Workflow
