import Mathlib
import Workflow.Package.Generate
import Workflow.Proofs.Package.Comments
import Workflow.Proofs.Package.Controls

/-!
# Encoding declarations

Which files of a package declare an encoding (`encodings_of_texts`). A comment on one of the first two lines of a file declares one
if it holds `coding` with a colon or an equals sign and a name after it. The wordings of a package hold no such thing, and the texts
that stand between them are quoted, so that a declaration never reaches from the one into the other: it stands as a whole inside the
name of the workflow or the id of a node.
-/

namespace Workflow

/-! ## Declarations -/

/-- A character of the name of an encoding. -/
def isEncodingChar (c : Char) : Bool := c.isAlphanum || c == '-' || c == '_' || c == '.'

/-- Characters that declare an encoding: `coding`, a colon or an equals sign, any spaces and tabs, and a character of a name. -/
def IsDeclaration (cs : List Char) : Prop :=
  ∃ mark blanks c, (mark = ':' ∨ mark = '=') ∧ (∀ b ∈ blanks, b = ' ' ∨ b = '\t') ∧ isEncodingChar c = true ∧
    cs = "coding".toList ++ mark :: (blanks ++ [c])

/-- A declaration stands somewhere in a line. -/
def Declares (line : List Char) : Prop := ∃ declaration, IsDeclaration declaration ∧ declaration <:+: line

/-- A file declares an encoding: one of its first two lines is a comment with a declaration. -/
def DeclaresEncoding (text : String) : Prop := ∃ line ∈ (linesOf text).take 2, isComment line = true ∧ Declares line

/-- A declaration holds no quote. -/
theorem IsDeclaration.quote_not_mem {cs : List Char} (h : IsDeclaration cs) : '\'' ∉ cs := by
  obtain ⟨mark, blanks, c, hmark, hblanks, hc, rfl⟩ := h
  have hmark' : '\'' ≠ mark := by rcases hmark with rfl | rfl <;> decide
  have hblanks' : '\'' ∉ blanks := fun hmem => absurd (hblanks _ hmem) (by decide)
  have hc' : '\'' ≠ c := by
    rintro rfl
    exact absurd hc (by decide)
  simp [hmark', hblanks', hc']

/-- A line without `coding` has no declaration. -/
theorem not_declares {line : List Char} (h : ¬"coding".toList <:+: line) : ¬Declares line := by
  rintro ⟨declaration, ⟨mark, blanks, c, -, -, -, rfl⟩, hpart⟩
  exact h ((List.prefix_append _ _).isInfix.trans hpart)

/-! ## Declarations between quotes -/

/-- What does not hold a character of a text stands before it or after it. -/
theorem infix_append_cons_iff {α : Type} {block before after : List α} {q : α} (h : q ∉ block) :
    block <:+: before ++ q :: after ↔ block <:+: before ∨ block <:+: after := by
  constructor
  · rintro ⟨u, v, huv⟩
    rcases List.append_eq_append_iff.mp huv with ⟨w, hbefore, -⟩ | ⟨w, hblock, hafter⟩
    · exact Or.inl ⟨u, w, hbefore.symm⟩
    · cases w with
      | nil =>
        rw [List.append_nil] at hblock
        exact Or.inl (hblock ▸ (List.suffix_append u block).isInfix)
      | cons p w =>
        -- The block ends after the character, so it begins after it as well.
        obtain ⟨rfl, rfl⟩ := List.cons.inj hafter
        rcases List.append_eq_append_iff.mp hblock with ⟨z, -, hz⟩ | ⟨z, -, hz⟩
        · exact absurd (hz ▸ List.mem_append_right z List.mem_cons_self) h
        · cases z with
          | nil =>
            rw [List.nil_append] at hz
            exact absurd (hz ▸ List.mem_cons_self) h
          | cons p' z =>
            obtain ⟨-, rfl⟩ := List.cons.inj hz
            exact Or.inr (List.infix_append z block v)
  · rintro (hpart | hpart)
    · exact hpart.trans (List.prefix_append _ _).isInfix
    · exact hpart.trans ((List.suffix_cons _ _).trans (List.suffix_append _ _)).isInfix

/-- A declaration stands before a quote or after it. -/
theorem declares_append_quote_iff {before after : List Char} :
    Declares (before ++ '\'' :: after) ↔ Declares before ∨ Declares after := by
  constructor
  · rintro ⟨declaration, hdeclaration, hpart⟩
    rcases (infix_append_cons_iff hdeclaration.quote_not_mem).mp hpart with hbefore | hafter
    · exact Or.inl ⟨declaration, hdeclaration, hbefore⟩
    · exact Or.inr ⟨declaration, hdeclaration, hafter⟩
  · rintro (⟨declaration, hdeclaration, hpart⟩ | ⟨declaration, hdeclaration, hpart⟩)
    · exact ⟨declaration, hdeclaration, (infix_append_cons_iff hdeclaration.quote_not_mem).mpr (Or.inl hpart)⟩
    · exact ⟨declaration, hdeclaration, (infix_append_cons_iff hdeclaration.quote_not_mem).mpr (Or.inr hpart)⟩

/-- A quoted text between wordings without `coding` has the declarations of the line. -/
theorem declares_quoted_iff {before text after : String} {start rest : List Char} (hbefore : before.toList = start ++ ['\''])
    (hafter : after.toList = '\'' :: rest) (hstart : ¬"coding".toList <:+: start) (hrest : ¬"coding".toList <:+: rest) :
    Declares (before ++ text ++ after).toList ↔ Declares text.toList := by
  have hline : (before ++ text ++ after).toList = start ++ '\'' :: (text.toList ++ '\'' :: rest) := by
    simp [String.toList_append, hbefore, hafter]
  simp [hline, declares_append_quote_iff, not_declares hstart, not_declares hrest]

/-! ## The head of a file -/

/-- The first two lines of a source that begins with two lines of text are these. -/
theorem take_two_linesOf {s t : String} (hs : OneLine s) (ht : OneLine t) (rest : List Line) :
    (linesOf (renderLines (top s :: top t :: rest))).take 2 = [s.toList, t.toList] := by
  have htop : ∀ {u : String}, OneLine u → (top u).physical.map String.toList = [u.toList] := fun hu =>
    (toList_physical_top _).trans (partsBetween_of_not_mem hu)
  rw [lines_renderLines, List.flatMap_cons, List.flatMap_cons, List.map_append, List.map_append, htop hs, htop ht]
  rfl

/-- A source that begins with two comments declares an encoding exactly if one of them has a declaration. -/
theorem declaresEncoding_renderLines_iff {s t : String} (hs : OneLine s) (ht : OneLine t) (hs' : s.toList.head? = some '#')
    (ht' : t.toList.head? = some '#') (rest : List Line) :
    DeclaresEncoding (renderLines (top s :: top t :: rest)) ↔ Declares s.toList ∨ Declares t.toList := by
  have hcomment : ∀ {u : String}, u.toList.head? = some '#' → isComment u.toList = true := by
    intro u hu
    obtain ⟨rest, hrest⟩ := List.head?_eq_some_iff.mp hu
    rw [hrest]
    rfl
  simp [DeclaresEncoding, take_two_linesOf hs ht, hcomment hs', hcomment ht']

/-- A source that is all code declares none. -/
theorem not_declaresEncoding_of_codeOnly {lines : List Line} (h : CodeOnly lines) : ¬DeclaresEncoding (renderLines lines) := by
  rintro ⟨line, hline, hcomment, -⟩
  rw [not_isComment_renderLines h line (List.mem_of_mem_take hline)] at hcomment
  cases hcomment

namespace Package

variable {g : Graph} {l : Layout} {options : Options} {lines : List Line}

/-- Comments declare an encoding with some texts: there are comments, and one of the texts, folded, holds a declaration. -/
def DeclaresIn (options : Options) (texts : List String) : Prop :=
  options.includeComments = true ∧ ∃ t ∈ texts, Declares (foldBlank t).toList

/-- The comment on the origin of a file has no declaration. -/
theorem not_declares_origin (framework : FrameworkVersion) :
    ¬Declares ("# Generated by flowc (framework API " ++ framework.text ++ "). Do not edit by hand.").toList := by
  cases framework <;> exact not_declares (by decide)

/-- The comment that says what a file is has the declarations of the name of the workflow. -/
theorem declares_subject_iff {what : String} (hwhat : ¬"coding".toList <:+: ("# " ++ what ++ " for workflow ").toList) :
    Declares ("# " ++ what ++ " for workflow '" ++ foldBlank g.name ++ "'.").toList ↔ Declares (foldBlank g.name).toList := by
  have hbefore : ("# " ++ what ++ " for workflow '").toList = ("# " ++ what ++ " for workflow ").toList ++ ['\''] := by simp
  exact declares_quoted_iff hbefore rfl hwhat (by decide)

/-- The comment that names a node has the declarations of its id. -/
theorem declares_source_iff (n : Node) :
    Declares ("# Source node '" ++ foldBlank n.id ++ "' (" ++ n.kind.text ++ ").").toList ↔ Declares (foldBlank n.id).toList := by
  have hbefore : "# Source node '".toList = "# Source node ".toList ++ ['\''] := rfl
  have hafter : ("' (" ++ n.kind.text ++ ").").toList = '\'' :: (" (" ++ n.kind.text ++ ").").toList := by simp
  have hkind : ¬"coding".toList <:+: (" (" ++ n.kind.text ++ ").").toList := by cases n.kind <;> decide
  have hline : "# Source node '" ++ foldBlank n.id ++ "' (" ++ n.kind.text ++ ")." =
      "# Source node '" ++ foldBlank n.id ++ ("' (" ++ n.kind.text ++ ").") := by simp only [String.append_assoc]
  rw [hline]
  exact declares_quoted_iff hbefore hafter (by decide) hkind

/-- A file that begins with the comment on what it is declares an encoding exactly if the name of the workflow holds a declaration. -/
theorem declaresEncoding_header_iff (what : String) (hclean : OneLine what)
    (hwhat : ¬"coding".toList <:+: ("# " ++ what ++ " for workflow ").toList) (hhead : header g options what <+: lines)
    (hcode : options.includeComments = false → CodeOnly lines) :
    DeclaresEncoding (renderLines lines) ↔ DeclaresIn options [g.name] := by
  cases hcomments : options.includeComments with
  | false => simp [DeclaresIn, hcomments, not_declaresEncoding_of_codeOnly (hcode hcomments)]
  | true =>
    obtain ⟨rest, rfl⟩ := hhead
    have hlines : header g options what ++ rest =
        top ("# " ++ what ++ " for workflow '" ++ foldBlank g.name ++ "'.") ::
          top ("# Generated by flowc (framework API " ++ options.framework.text ++ "). Do not edit by hand.") :: blankLine :: rest := by
      simp only [header, hcomments, if_true]
      rfl
    rw [hlines, declaresEncoding_renderLines_iff (oneLine_subject hclean) (oneLine_origin _) (by simp) (by simp),
      declares_subject_iff hwhat, or_iff_left (not_declares_origin _)]
    simp [DeclaresIn, hcomments]

/-- The file of the runtime declares an encoding exactly if the name of the workflow holds a declaration. -/
theorem declaresEncoding_runtimeLines_iff : DeclaresEncoding (renderLines (runtimeLines g options)) ↔ DeclaresIn options [g.name] :=
  declaresEncoding_header_iff "Runtime hooks" (by decide) (by decide) (List.prefix_append _ _) codeOnly_runtimeLines

/-- The file of a node declares an encoding exactly if the id of the node or the name of the workflow holds a declaration. -/
theorem declaresEncoding_nodeLines_iff (hstate : OneLine l.stateClass) (n : Node) :
    DeclaresEncoding (renderLines (nodeLines g n l options)) ↔ DeclaresIn options [n.id, g.name] := by
  have hclean : OneLine "Node module" := by decide
  have hwhat : ¬"coding".toList <:+: ("# " ++ "Node module" ++ " for workflow ").toList := by decide
  cases hcomments : options.includeComments with
  | false => simp [DeclaresIn, hcomments, not_declaresEncoding_of_codeOnly (codeOnly_nodeLines hcomments hstate n)]
  | true =>
    obtain ⟨rest, hlines⟩ : ∃ rest, nodeLines g n l options =
        top ("# Source node '" ++ foldBlank n.id ++ "' (" ++ n.kind.text ++ ").") ::
          top ("# " ++ "Node module" ++ " for workflow '" ++ foldBlank g.name ++ "'.") :: rest := by
      simp only [nodeLines, nodeComment, header, hcomments, if_true]
      exact ⟨_, rfl⟩
    rw [hlines, declaresEncoding_renderLines_iff (oneLine_source n) (oneLine_subject hclean) (by simp) (by simp),
      declares_source_iff, declares_subject_iff hwhat]
    simp [DeclaresIn, hcomments]

/-- The texts of a workflow in the first two lines of the files of its package, file by file: the name, and with it the id of a node
in the file of the node. -/
def headTexts (g : Graph) : List (List String) :=
  [[g.name], [g.name], [g.name], [g.name]] ++ (g.nodes.map fun n => [n.id, g.name]) ++ [[g.name]]

end Package

open Package

/-- The encodings that a package declares are those that the texts of its workflow declare. Without comments no file declares one.
With comments a file does exactly if the name of the workflow holds a declaration or, in the file of a node, the id of the node does,
once blank characters are folded. -/
theorem encodings_of_texts {g : Graph} {options : Options} {files : List Artifact} (hfiles : generate g options = .ok files) :
    List.Forall₂ (fun file texts => DeclaresEncoding file.contents ↔ DeclaresIn options texts) files (headTexts g) := by
  have hname : IsNameText (Layout.ofGraph g options).stateClass := Layout.isNameText_stateClass
  have hstate : OneLine (Layout.ofGraph g options).stateClass := hname.oneLine
  obtain ⟨-, rfl⟩ := generate_eq_ok_iff.mp hfiles
  rw [artifacts, headTexts, ← map_zipIdx_fst g.nodes fun n => [n.id, g.name]]
  refine List.rel_append (List.rel_append ?_ ?_) ?_
  · refine .cons ?_ (.cons ?_ (.cons ?_ (.cons ?_ .nil)))
    · exact declaresEncoding_header_iff "Package entry point" (by decide) (by decide)
        (by simp only [packageLines, List.append_assoc, List.prefix_append]) fun hcomments => codeOnly_packageLines hcomments hstate
    · exact declaresEncoding_header_iff "Shared state schema" (by decide) (by decide)
        (by simp only [stateLines, List.append_assoc, List.prefix_append]) fun hcomments => codeOnly_stateLines hcomments hname
    · exact declaresEncoding_runtimeLines_iff
    · exact declaresEncoding_header_iff "Node modules" (by decide) (by decide) (List.prefix_append _ _) fun hcomments =>
        codeOnly_nodeIndexLines hcomments oneLine_of_mem_slugs
  · rw [List.forall₂_map_left_iff, List.forall₂_map_right_iff, List.forall₂_same]
    intro item _
    exact declaresEncoding_nodeLines_iff hstate item.1
  · refine .cons ?_ .nil
    exact declaresEncoding_header_iff "Graph assembly" (by decide) (by decide)
      (by simp only [assemblyLines, List.append_assoc, List.prefix_append]) fun hcomments =>
        codeOnly_assemblyLines hcomments hstate oneLine_slug

/-- A workflow whose name holds a declaration once its line feed is folded, and a node whose id is one. -/
def liveCoding : Document where
  name := "Live coding:\n  first steps"
  description := none
  version := none
  entry := "begin"
  nodes := [⟨"begin", .start [], none⟩, ⟨"coding=utf-7", .finish [], none⟩]
  edges := [⟨"begin", "coding=utf-7", none⟩]

/-- The name of the workflow declares an encoding called `first`. -/
theorem declares_name_liveCoding : Declares (foldBlank liveCoding.name).toList := by
  have hfold : (foldBlank liveCoding.name).toList = "Live ".toList ++ "coding: f".toList ++ "irst steps".toList := by decide
  have hdeclaration : IsDeclaration "coding: f".toList :=
    ⟨':', [' '], 'f', Or.inl rfl, List.forall_mem_singleton.mpr (Or.inl rfl), by decide, rfl⟩
  exact ⟨_, hdeclaration, "Live ".toList, "irst steps".toList, hfold.symm⟩

/-- Every file of its package declares an encoding, for the name is in all of them. -/
theorem encodings_of_texts_liveCoding :
    ∃ g files, Graph.build liveCoding = .ok g ∧ generate g {} = .ok files ∧
      headTexts g = [["Live coding:\n  first steps"], ["Live coding:\n  first steps"], ["Live coding:\n  first steps"],
        ["Live coding:\n  first steps"], ["begin", "Live coding:\n  first steps"], ["coding=utf-7", "Live coding:\n  first steps"],
        ["Live coding:\n  first steps"]] ∧
      List.Forall₂ (fun file texts => DeclaresEncoding file.contents ↔ DeclaresIn {} texts) files (headTexts g) := by
  obtain ⟨g, hg⟩ : ∃ g, Graph.build liveCoding = .ok g := ⟨_, rfl⟩
  obtain ⟨files, hfiles⟩ : ∃ files, generate g {} = .ok files := by
    cases hg
    exact ⟨_, rfl⟩
  refine ⟨g, files, hg, hfiles, ?_, encodings_of_texts hfiles⟩
  cases hg
  rfl

/-- The file of its runtime declares one, though all that it says is fixed but for the comment on the name. -/
theorem encoding_declared_liveCoding :
    ∃ g files, Graph.build liveCoding = .ok g ∧ generate g {} = .ok files ∧
      ∃ file ∈ files, file.path = "live_coding_first_steps/runtime.py" ∧ DeclaresEncoding file.contents := by
  obtain ⟨g, hg⟩ : ∃ g, Graph.build liveCoding = .ok g := ⟨_, rfl⟩
  obtain ⟨files, hfiles⟩ : ∃ files, generate g {} = .ok files := by
    cases hg
    exact ⟨_, rfl⟩
  have hdeclares : DeclaresEncoding (artifact (Layout.ofGraph g {}) ["runtime.py"] (runtimeLines g {})).contents := by
    dsimp only [artifact]
    refine declaresEncoding_runtimeLines_iff.mpr ⟨rfl, g.name, List.mem_cons_self, ?_⟩
    cases hg
    exact declares_name_liveCoding
  refine ⟨g, files, hg, hfiles, _, runtime_mem_of_generate hfiles, ?_, hdeclares⟩
  cases hg
  decide

end Workflow
