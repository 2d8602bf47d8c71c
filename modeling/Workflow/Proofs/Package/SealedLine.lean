import Mathlib
import Workflow.Proofs.Package.Sealed

/-!
# Sealed lines

Where the lines of a script are sealed, the script is (`SealedFrom.lines`). A line is taken from its end to its beginning: what
comes before the rest of a line has to leave the reading where that rest goes on.
-/

namespace Workflow

/-- What a line adds to a script. -/
def Line.script (l : Line) : String := String.join (l.physical.map (· ++ "\n"))

/-- A script is made of what its lines add. -/
theorem renderLines_eq (lines : List Line) : renderLines lines = String.join (lines.map Line.script) := by
  rw [renderLines]
  induction lines with
  | nil => rfl
  | cons l lines ih => rw [List.flatMap_cons, List.map_append, String.join_append, ih, List.map_cons, String.join_cons, Line.script]

/-- Lines after lines add their script to that of those. -/
theorem renderLines_append (lines lines' : List Line) : renderLines (lines ++ lines') = renderLines lines ++ renderLines lines' := by
  rw [renderLines_eq, renderLines_eq, renderLines_eq, List.map_append, String.join_append]

/-- The characters of a wording, and of the line feed after it, are read from one mode to another. -/
def ScriptMode.passesLine (m : ScriptMode) (cs : List Char) (m' : ScriptMode) : Bool :=
  match m.scan cs with
  | some (marks, last) => marks.head? != some .within && last.passes ['\n'] m' && cs.all (!isBreak ·)
  | none => false

/-- The rest of a line that is read from a mode on and does not end before its line feed. -/
def OnLine (names : List String) (m : ScriptMode) (s : String) : Prop := OneLine s ∧ SealedFrom names m (s ++ "\n")

variable {names : List String} {m : ScriptMode} {s rest : String}

/-- A line of wording before a sealed text. -/
theorem SealedFrom.line (m' : ScriptMode) {cs : List Char} (hs : s = String.ofList cs) (hmem : s ∈ wordings)
    (hpasses : m.passesLine cs m' = true) (h : SealedFrom names m' rest) : SealedFrom names m (s ++ "\n" ++ rest) := by
  rw [ScriptMode.passesLine] at hpasses
  cases hscan : m.scan cs with
  | none =>
    rw [hscan] at hpasses
    cases hpasses
  | some out =>
    obtain ⟨mark, last⟩ := out
    rw [hscan, Bool.and_eq_true, Bool.and_eq_true] at hpasses
    obtain ⟨⟨hhead, hfeed⟩, -⟩ := hpasses
    have hfirst : m.passes cs last = true := by simp only [ScriptMode.passes, hscan, hhead, beq_self_eq_true, Bool.and_self]
    rw [String.append_assoc]
    exact fixed last hs hmem hfirst (joint m' rfl (by simp [joints]) hfeed h)

namespace OnLine

/-- A wording at the end of a line. -/
theorem closing {cs : List Char} (hs : s = String.ofList cs) (hmem : s ∈ wordings)
    (hpasses : m.passesLine cs .outside = true) : OnLine names m s := by
  have hline : SealedFrom names m (s ++ "\n" ++ "") := SealedFrom.line .outside hs hmem hpasses SealedFrom.nil
  rw [String.append_empty] at hline
  refine ⟨?_, hline⟩
  rw [ScriptMode.passesLine] at hpasses
  cases hscan : m.scan cs with
  | none =>
    rw [hscan] at hpasses
    cases hpasses
  | some out =>
    rw [hscan, Bool.and_eq_true] at hpasses
    rw [OneLine, hs, String.toList_ofList]
    intro hmem
    exact absurd (List.all_eq_true.mp hpasses.2 _ hmem) (by decide)

/-- A wording before the rest of a line. -/
theorem fixed (m' : ScriptMode) {cs : List Char} (hs : s = String.ofList cs) (hmem : s ∈ wordings)
    (hpasses : (m.passes cs m' && cs.all (!isBreak ·)) = true) (h : OnLine names m' rest) : OnLine names m (s ++ rest) := by
  rw [Bool.and_eq_true] at hpasses
  have hone : OneLine s := by
    rw [OneLine, hs, String.toList_ofList]
    intro hmem
    exact absurd (List.all_eq_true.mp hpasses.2 _ hmem) (by decide)
  refine ⟨hone.append h.1, ?_⟩
  rw [String.append_assoc]
  exact SealedFrom.fixed m' hs hmem hpasses.1 h.2

/-- A fragment before the rest of a line. -/
theorem fragment (hs : s ∈ fragments) (h : OnLine names .outside rest) : OnLine names .outside (s ++ rest) := by
  obtain ⟨cs, hcs, hpasses⟩ := passes_of_fragment s hs
  exact fixed .outside hcs (mem_wordings_of_fragment hs) hpasses h

/-- A name before the rest of a line. -/
theorem name (hmem : s ∈ names) (hs : isIdentifier s = true) (hapart : Apart (rest ++ "\n"))
    (h : OnLine names .outside rest) : OnLine names .outside (s ++ rest) := by
  refine ⟨(isIdentifier_iff.mp hs).1.oneLine.append h.1, ?_⟩
  rw [String.append_assoc]
  exact SealedFrom.name hmem hs hapart h.2

/-- The literal of a text before the rest of a line. -/
theorem literal (s : String) (hapart : Apart (rest ++ "\n")) (h : OnLine names .outside rest) :
    OnLine names .outside (stringLiteral s ++ rest) := by
  refine ⟨(LexMode.oneLine_stringLiteral s).append h.1, ?_⟩
  rw [String.append_assoc]
  exact SealedFrom.literal s hapart h.2

/-- An annotation before the rest of a line. -/
theorem typed (type : FieldType) (hapart : Apart (rest ++ "\n")) (h : OnLine names .outside rest) :
    OnLine names .outside ( type.annotation ++ rest) := by
  have hone : OneLine type.annotation := by cases type <;> decide
  refine ⟨hone.append h.1, ?_⟩
  rw [String.append_assoc]
  exact SealedFrom.typed type hapart h.2

/-- A folded text in a comment before the rest of its line. -/
theorem folded (s : String) (h : OnLine names .comment rest) : OnLine names .comment (foldBlank s ++ rest) := by
  refine ⟨(oneLine_foldBlank s).append h.1, ?_⟩
  rw [String.append_assoc]
  exact SealedFrom.folded s h.2

/-- A comment and what stands outside may end with the line. -/
theorem done (hm : m.passes ['\n'] .outside = true) : OnLine names m "" := by
  have hfeed : SealedFrom names m ("\n" ++ "") :=
    SealedFrom.joint .outside rfl (by simp [joints]) hm SealedFrom.nil
  exact ⟨by decide, hfeed⟩

/-- A fragment at the end of a line. -/
theorem ending (hs : s ∈ fragments) : OnLine names .outside s := by
  have h : OnLine names .outside (s ++ "") := fragment hs (done (by decide))
  rwa [String.append_empty] at h

/-- Nothing after the rest of a line changes nothing. -/
theorem of_append_empty (h : OnLine names m (s ++ "")) : OnLine names m s := by rwa [String.append_empty] at h

end OnLine

namespace SealedFrom

/-- A line that is sealed without its indentation is sealed. -/
theorem script {l : Line} (h : OnLine names .outside l.text) : SealedFrom names .outside l.script := by
  rw [Line.script, Line.physical_of_oneLine h.1, List.map_singleton, String.join_cons, String.join_nil, String.append_empty]
  split
  · next hempty => rw [hempty] at h; exact h.2
  · rw [String.append_assoc]
    exact indentation l.depth h.2

/-- Sealed lines make a sealed script. -/
theorem lines {lines : List Line} (h : ∀ l ∈ lines, SealedFrom names .outside l.script) :
    Sealed names (renderLines lines) := by
  rw [renderLines_eq]
  induction lines with
  | nil => exact nil
  | cons l lines ih =>
    rw [List.forall_mem_cons] at h
    rw [List.map_cons, String.join_cons]
    exact append h.1 (ih h.2)

/-- A line that is not indented adds its text and a line feed. -/
theorem script_top (text : String) : (top text).script = text ++ "\n" := by
  have hpart : ∀ part : List Char, (if part.isEmpty then "" else Workflow.indentation 0 ++ String.ofList part) =
      String.ofList part := by
    intro part
    split
    · next hempty => rw [List.isEmpty_iff.mp hempty]
    · exact String.empty_append
  rw [← String.toList_inj, Line.script, Line.physical, top, String.toList_join, List.map_map, List.flatMap_map,
    String.toList_append]
  simp only [Function.comp_def, hpart, String.toList_append, String.toList_ofList]
  exact flatMap_partsBetween '\n' text.toList

/-- A line feed is sealed. -/
theorem feed : SealedFrom names .outside "\n" := (OnLine.done (by decide)).2

/-- Lines that are sealed each by itself. -/
def Lines (names : List String) (lines : List Line) : Prop := ∀ l ∈ lines, SealedFrom names .outside l.script

end SealedFrom

open SealedFrom (Lines script script_top feed apart_append)

/-- The script of one line that is not indented. -/
theorem renderLines_top (text : String) : renderLines [top text] = text ++ "\n" := by
  rw [renderLines_eq, List.map_singleton, String.join_cons, String.join_nil, String.append_empty, script_top]

/-- A line feed ends a word and opens no literal. -/
theorem apart_feed : Apart "\n" := ⟨'\n', [], rfl, rfl, by decide⟩

namespace Lines

/-- No lines are sealed. -/
theorem nil : Lines names [] := fun _ h => absurd h List.not_mem_nil

/-- Sealed lines after one another. -/
theorem append {first second : List Line} (h : Lines names first) (h' : Lines names second) : Lines names (first ++ second) :=
  List.forall_mem_append.mpr ⟨h, h'⟩

/-- A sealed line before others. -/
theorem cons {l : Line} {lines : List Line} (h : SealedFrom names .outside l.script) (h' : Lines names lines) :
    Lines names (l :: lines) :=
  List.forall_mem_cons.mpr ⟨h, h'⟩

end Lines

/-! ## Wordings in their lines -/

/-- A statement at the end of a line. -/
theorem onLine_statement (hs : s ∈ statements) : OnLine names .outside s := by
  have hall : ∀ s ∈ statements, ∃ cs, s = String.ofList cs ∧ ScriptMode.outside.passesLine cs .outside = true := by
    unfold statements
    repeat refine List.forall_mem_cons.mpr ⟨⟨_, rfl, by decide⟩, ?_⟩
    exact fun s hs => absurd hs List.not_mem_nil
  obtain ⟨cs, hcs, hpasses⟩ := hall s hs
  exact OnLine.closing hcs (mem_wordings_of_statement hs) hpasses

/-- The lines that stand in a package as they are are sealed. -/
theorem sealed_statement {depth : Nat} (hs : s ∈ statements) : SealedFrom names .outside (Line.mk depth s).script :=
  script (onLine_statement hs)

/-- A wording of comments in a comment. -/
theorem OnLine.remark (hs : s ∈ remarks) (h : OnLine names .comment rest) : OnLine names .comment (s ++ rest) := by
  have hall : ∀ s ∈ remarks,
      ∃ cs, s = String.ofList cs ∧ (ScriptMode.comment.passes cs .comment && cs.all (!isBreak ·)) = true := by
    unfold remarks
    repeat refine List.forall_mem_cons.mpr ⟨⟨_, rfl, by decide⟩, ?_⟩
    exact fun s hs => absurd hs List.not_mem_nil
  obtain ⟨cs, hcs, hpasses⟩ := hall s hs
  exact OnLine.fixed .comment hcs (mem_wordings_of_remark hs) hpasses h

/-- An empty line is sealed. -/
theorem sealed_blankLine : SealedFrom names .outside blankLine.script := script (OnLine.done (by decide))

/-- The literals of texts in a row before the rest of a line. -/
theorem OnLine.row (labels : List String) (hapart : Apart (rest ++ "\n")) (h : OnLine names .outside rest) :
    OnLine names .outside (", ".intercalate (labels.map stringLiteral) ++ rest) := by
  induction labels with
  | nil => rwa [List.map_nil, String.intercalate_nil, String.empty_append]
  | cons label labels ih =>
    cases labels with
    | nil =>
      rw [List.map_singleton, String.intercalate_singleton]
      exact OnLine.literal label hapart h
    | cons next labels =>
      rw [List.map_cons, List.map_cons, String.intercalate_cons_cons, ← List.map_cons, String.append_assoc, String.append_assoc]
      refine OnLine.literal label ?_ (OnLine.fragment (by simp [fragments]) ih)
      rw [String.append_assoc]
      exact apart_append rfl rfl (by decide)

end Workflow
