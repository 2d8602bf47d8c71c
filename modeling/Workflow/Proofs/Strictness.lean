import Workflow.Proofs.Compile

/-!
# Strict checking

Strict checking changes verdicts and nothing else (`compileText_strict_iff_lenient`): the issues of a text are the same, a strict
report fails at the first of them, and what is compiled in spite of it is compiled as it is without it.
-/

namespace Workflow

/-! ## Reports -/

namespace Report

/-- A report holds no error exactly if none of its issues is one. -/
theorem errors_eq_nil_iff {r : Report} : r.errors = [] ↔ ∀ i ∈ r.issues, i.isError = false := by
  simp only [errors, List.filter_eq_nil_iff, Issue.isError, Bool.not_eq_true]

/-- A lenient report passes exactly if it holds no error. -/
theorem passed_iff_of_lenient {r : Report} (h : r.strict = false) : r.passed = true ↔ r.errors = [] := by
  rw [errors_eq_nil_iff, passed, h, Bool.not_false, Bool.true_or, Bool.and_true, List.all_eq_true]
  simp only [Bool.not_eq_true']

/-- A strict report passes exactly if it holds no issue. -/
theorem passed_iff_of_strict {r : Report} (h : r.strict = true) : r.passed = true ↔ r.issues = [] := by
  rw [passed, h, Bool.not_true, Bool.false_or, Bool.and_eq_true, List.isEmpty_iff]
  refine and_iff_right_of_imp fun hnil => ?_
  rw [hnil, List.all_nil]

end Report

/-! ## Trees -/

/-- The issues of a tree do not depend on how strictly it is checked. -/
theorem issues_validateTree (t : Tree) (strict strict' : Bool) :
    (validateTree t strict).issues = (validateTree t strict').issues := by
  rw [validateTree, validateTree]
  split
  · rfl
  · split <;> rfl

/-- What is compiled of a tree: it is read as a document, the graph of that document is built, and the report of the schema has
passed. The package and the summary are those of the graph. -/
theorem compileTree_eq_ok_iff {t : Tree} {strict : Bool} {options : Options} {c : Compilation} :
    compileTree t strict options = .ok c ↔ ∃ d g, Schema.check? t = some d ∧ Graph.build d = .ok g ∧
      (Schema.validate t strict).passed = true ∧ c = ⟨Package.artifacts g options, g.summary, Schema.validate t strict⟩ := by
  cases hd : Schema.check? t with
  | none => simp [compileTree, hd]
  | some d =>
    cases hg : Graph.build d with
    | error structural => simp [compileTree, hd, hg]
    | ok g =>
      have hgenerate := generate_ok_of_check? hd hg options
      cases hpassed : (Schema.validate t strict).passed with
      | false => simp [compileTree, hd, hg, hpassed]
      | true => simp [compileTree, hd, hg, hpassed, hgenerate, eq_comm]

/-- A tree is compiled under strict checking exactly if it is compiled under lenient checking without an issue. -/
theorem compileTree_strict_iff (t : Tree) (options : Options) :
    (∃ c, compileTree t true options = .ok c) ↔ ∃ c, compileTree t false options = .ok c ∧ c.report.issues = [] := by
  simp only [compileTree_eq_ok_iff]
  constructor
  · rintro ⟨c, d, g, hd, hg, hpassed, -⟩
    have hnil : (Schema.validate t true).issues = [] := (Report.passed_iff_of_strict rfl).mp hpassed
    have herrors : (Schema.validate t false).errors = (Schema.validate t true).errors := rfl
    have hlenient : (Schema.validate t false).passed = true :=
      (Report.passed_iff_of_lenient rfl).mpr (herrors.trans (Report.errors_eq_nil_of_passed hpassed))
    exact ⟨_, ⟨d, g, hd, hg, hlenient, rfl⟩, hnil⟩
  · rintro ⟨c, ⟨d, g, hd, hg, -, rfl⟩, hnil⟩
    exact ⟨_, d, g, hd, hg, (Report.passed_iff_of_strict rfl).mpr hnil, rfl⟩

/-- What is compiled under both is the same but for the report. -/
theorem compileTree_output_eq {t : Tree} {strict strict' : Bool} {options : Options} {c c' : Compilation}
    (h : compileTree t strict options = .ok c) (h' : compileTree t strict' options = .ok c') :
    c.artifacts = c'.artifacts ∧ c.summary = c'.summary := by
  obtain ⟨d, g, hd, hg, -, rfl⟩ := compileTree_eq_ok_iff.mp h
  obtain ⟨d', g', hd', hg', -, rfl⟩ := compileTree_eq_ok_iff.mp h'
  rw [hd, Option.some.injEq] at hd'
  subst hd'
  rw [hg, Except.ok.injEq] at hg'
  subst hg'
  exact ⟨rfl, rfl⟩

/-! ## Texts -/

/-- A text is malformed under either checking and for the same reason, or it has the same issues under both: the lenient report on
it passes exactly if it holds no error, the strict one exactly if it holds no issue. The text is compiled under strict checking
exactly if it is compiled under lenient checking without an issue, and then to the same package and the same summary. -/
theorem compileText_strict_iff_lenient (text : String) (options : Options) :
    ((∃ e, validateText text false = .error e ∧ validateText text true = .error e) ∨
      ∃ lenient strict, validateText text false = .ok lenient ∧ validateText text true = .ok strict ∧
        strict.issues = lenient.issues ∧ (lenient.passed = true ↔ lenient.errors = []) ∧
        (strict.passed = true ↔ strict.issues = [])) ∧
      ((∃ c, compileText text true options = .ok c) ↔
        ∃ c, compileText text false options = .ok c ∧ c.report.issues = []) ∧
      ∀ c c', compileText text true options = .ok c → compileText text false options = .ok c' →
        c.artifacts = c'.artifacts ∧ c.summary = c'.summary := by
  cases hload : load text with
  | error e =>
    have hvalidate : ∀ strict, validateText text strict = .error e := fun strict => by
      rw [validateText, hload]
      rfl
    have hcompile : ∀ strict c, compileText text strict options ≠ .ok c := fun strict c hc => by
      rw [compileText, hload] at hc
      cases hc
    refine ⟨Or.inl ⟨e, hvalidate false, hvalidate true⟩, iff_of_false ?_ ?_, fun c _ hc => absurd hc (hcompile true c)⟩
    · rintro ⟨c, hc⟩
      exact hcompile true c hc
    · rintro ⟨c, hc, -⟩
      exact hcompile false c hc
  | ok t =>
    have hvalidate : ∀ strict, validateText text strict = .ok (validateTree t strict) := fun strict => by
      rw [validateText, hload]
      rfl
    have hcompile : ∀ strict, compileText text strict options = compileTree t strict options := fun strict => by
      rw [compileText, hload]
    rw [hcompile, hcompile]
    refine ⟨Or.inr ⟨_, _, hvalidate false, hvalidate true, issues_validateTree t true false, ?_, ?_⟩,
      compileTree_strict_iff t options, fun c c' hc hc' => compileTree_output_eq hc hc'⟩
    · exact Report.passed_iff_of_lenient (validateTree_strict t false)
    · exact Report.passed_iff_of_strict (validateTree_strict t true)

end Workflow
