import Workflow.Compile
import Workflow.Proofs.Package.Defect
import Workflow.Proofs.Schema.Reported

/-!
# One verdict on a text

Checking a text and compiling it come to the same (`validateText_compileText`): both find it malformed, or it has a report that
has not passed and is rejected with it, or its report has passed and it is compiled with it. The compilation never stops at a
defect of the graph.
-/

namespace Workflow

/-! ## Reports that have passed -/

namespace Report

/-- A report with an error has not passed. -/
theorem not_passed_of_hasError {r : Report} (h : hasError r.issues = true) : r.passed = false := by
  have hall : (r.issues.all fun i => !i.isError) = false := by
    rw [hasError] at h
    rw [List.all_eq_not_any_not]
    simpa using h
  rw [passed, hall, Bool.false_and]

/-- A report that has passed holds no error. -/
theorem errors_eq_nil_of_passed {r : Report} (h : r.passed = true) : r.errors = [] := by
  rw [passed, Bool.and_eq_true, List.all_eq_true] at h
  rw [errors, List.filter_eq_nil_iff]
  intro i hi herror
  have hno := h.1 i hi
  rw [Issue.isError, herror] at hno
  cases hno

end Report

/-! ## Trees -/

/-- The report on a tree keeps the mode that was asked for. -/
theorem validateTree_strict (t : Tree) (strict : Bool) : (validateTree t strict).strict = strict := by
  rw [validateTree]
  split
  · rfl
  · split <;> rfl

/-- A tree that was read as a document whose graph is built gets its package. -/
theorem generate_ok_of_check? {t : Tree} {d : Document} {g : Graph} (hd : Schema.check? t = some d)
    (hg : Graph.build d = .ok g) (options : Options) : generate g options = .ok (Package.artifacts g options) := by
  have hnone : Package.defect? g = none :=
    (Package.defect?_eq_none_iff hg).mpr fun n hn b hb => (Schema.labels_of_check? hd hn hb).2
  exact Package.generate_eq_ok_iff.mpr ⟨hnone, rfl⟩

/-- What keeps a document from having a graph holds an error. -/
theorem hasError_of_build_error {d : Document} {r : Report} (h : Graph.build d = .error r) : hasError r.issues = true := by
  obtain ⟨hne, rfl⟩ := Build.build_eq_error_iff.mp h
  obtain ⟨i, rest, hi⟩ := List.exists_cons_of_ne_nil hne
  have hmem : i ∈ Build.issues d := by
    rw [hi]
    exact List.mem_cons_self
  exact List.any_eq_true.mpr ⟨i, hmem, Build.allErrors_issues d i hmem⟩

/-- A tree whose report has not passed is rejected with it, and one whose report has passed is compiled with it. -/
theorem compileTree_eq (t : Tree) (strict : Bool) (options : Options) :
    ((validateTree t strict).passed = false ∧
        compileTree t strict options = .error (.rejected (validateTree t strict))) ∨
      (validateTree t strict).passed = true ∧
        ∃ c, compileTree t strict options = .ok c ∧ c.report = validateTree t strict := by
  cases hd : Schema.check? t with
  | none =>
    have hreport : validateTree t strict = Schema.validate t strict := by rw [validateTree, hd]
    have hno : (Schema.validate t strict).passed = false :=
      Report.not_passed_of_hasError (Schema.check?_eq_none_iff.mp hd)
    refine Or.inl ⟨by rw [hreport, hno], ?_⟩
    rw [compileTree, hd, hreport]
  | some d =>
    cases hg : Graph.build d with
    | error structural =>
      have hreport : validateTree t strict = (Schema.validate t strict).extend structural := by
        simp only [validateTree, hd, hg]
      have hno : ((Schema.validate t strict).extend structural).passed = false := by
        refine Report.not_passed_of_hasError ?_
        rw [Report.extend, hasError_append, hasError_of_build_error hg, Bool.or_true]
      refine Or.inl ⟨by rw [hreport, hno], ?_⟩
      simp only [compileTree, hd, hg, hreport]
    | ok g =>
      have hreport : validateTree t strict = Schema.validate t strict := by simp only [validateTree, hd, hg]
      have hgenerate := generate_ok_of_check? hd hg options
      rw [hreport]
      cases hpassed : (Schema.validate t strict).passed with
      | false => exact Or.inl ⟨rfl, by simp only [compileTree, hd, hg, hpassed, Bool.false_eq_true, if_false]⟩
      | true =>
        refine Or.inr ⟨rfl, ⟨Package.artifacts g options, g.summary, Schema.validate t strict⟩, ?_, rfl⟩
        simp only [compileTree, hd, hg, hpassed, if_true, hgenerate]

/-! ## Texts -/

/-- Both find a text malformed, for the same reason. -/
def BothMalformed (text : String) (strict : Bool) (options : Options) : Prop :=
  ∃ e, validateText text strict = .error e ∧ compileText text strict options = .error (.malformed e)

/-- The report on a text has not passed, and the text is rejected with that report. -/
def BothRejected (text : String) (strict : Bool) (options : Options) : Prop :=
  ∃ r, validateText text strict = .ok r ∧ r.strict = strict ∧ r.passed = false ∧
    compileText text strict options = .error (.rejected r)

/-- The report on a text has passed, so it holds no error, and the text is compiled with that report. -/
def BothAccepted (text : String) (strict : Bool) (options : Options) : Prop :=
  ∃ r c, validateText text strict = .ok r ∧ r.strict = strict ∧ r.passed = true ∧ r.errors = [] ∧
    compileText text strict options = .ok c ∧ c.report = r

/-- Checking a text and compiling it come to the same in exactly one of three ways, and no compilation ends with a defect of the
graph. -/
theorem validateText_compileText (text : String) (strict : Bool) (options : Options) :
    (BothMalformed text strict options ∨ BothRejected text strict options ∨ BothAccepted text strict options) ∧
      ¬(BothMalformed text strict options ∧ BothRejected text strict options) ∧
      ¬(BothMalformed text strict options ∧ BothAccepted text strict options) ∧
      ¬(BothRejected text strict options ∧ BothAccepted text strict options) ∧
      ∀ defect, compileText text strict options ≠ .error (.defective defect) := by
  have hone : BothMalformed text strict options ∨ BothRejected text strict options ∨ BothAccepted text strict options := by
    cases hload : load text with
    | error e =>
      refine Or.inl ⟨e, ?_, ?_⟩
      · rw [validateText, hload]
        rfl
      · rw [compileText, hload]
    | ok t =>
      have hvalidate : validateText text strict = .ok (validateTree t strict) := by
        rw [validateText, hload]
        rfl
      have hcompile : compileText text strict options = compileTree t strict options := by rw [compileText, hload]
      rcases compileTree_eq t strict options with ⟨hno, hrejected⟩ | ⟨hyes, c, hc, hreport⟩
      · exact Or.inr (Or.inl ⟨_, hvalidate, validateTree_strict t strict, hno, hcompile.trans hrejected⟩)
      · exact Or.inr (Or.inr ⟨_, c, hvalidate, validateTree_strict t strict, hyes, Report.errors_eq_nil_of_passed hyes,
          hcompile.trans hc, hreport⟩)
  refine ⟨hone, ?_, ?_, ?_, ?_⟩
  · intro h
    obtain ⟨⟨e, he, -⟩, r, hr, -⟩ := h
    rw [he] at hr
    cases hr
  · intro h
    obtain ⟨⟨e, he, -⟩, r, c, hr, -⟩ := h
    rw [he] at hr
    cases hr
  · intro h
    obtain ⟨⟨r, -, -, -, hr⟩, r', c, -, -, -, -, hc, -⟩ := h
    rw [hr] at hc
    cases hc
  · intro defect hdefect
    rcases hone with ⟨e, -, he⟩ | ⟨r, -, -, -, hr⟩ | ⟨r, c, -, -, -, -, hc, -⟩
    · rw [hdefect] at he
      cases he
    · rw [hdefect] at hr
      cases hr
    · rw [hdefect] at hc
      cases hc

end Workflow
