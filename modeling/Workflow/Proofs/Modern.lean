import Workflow.Proofs.Schema.Renewal
import Workflow.Proofs.Strictness

/-!
# Outdated spellings

Bringing a document up to date changes nothing but the warnings about it (`check_modern`): it is read as the same document, and
compiled to the same package and the same summary, or rejected with the same issues.
-/

namespace Workflow

variable {t : Tree} {d : Document} {strict : Bool} {options : Options}

/-! ## Reports -/

namespace Report

/-- A report without the issues about outdated spellings. -/
def current (r : Report) : Report := { r with issues := r.issues.filter (·.isCurrent) }

/-- An issue about an outdated spelling is no error. -/
theorem isCurrent_of_isError {i : Issue} (h : i.isError = true) : i.isCurrent = true := by
  rw [Issue.isCurrent, bne_iff_ne]
  intro hcode
  rw [Issue.isError, Issue.severity, hcode] at h
  cases h

/-- Under lenient checking the warnings do not count. -/
theorem passed_current {r : Report} (h : r.strict = false) : r.current.passed = r.passed := by
  rw [Bool.eq_iff_iff, passed_iff_of_lenient h, passed_iff_of_lenient (r := r.current) h, errors_eq_nil_iff, errors_eq_nil_iff]
  constructor
  · intro hno i hi
    cases herror : i.isError with
    | false => rfl
    | true =>
      rw [← herror]
      exact hno i (List.mem_filter.mpr ⟨hi, isCurrent_of_isError herror⟩)
  · intro hno i hi
    exact hno i (List.mem_filter.mp hi).1

/-- What is wrong with a graph has nothing to do with spellings. -/
theorem current_extend {r : Report} {structural : Report} (h : Graph.build d = .error structural) :
    (r.extend structural).current = r.current.extend structural := by
  obtain ⟨-, rfl⟩ := Build.build_eq_error_iff.mp h
  have hall : (Build.issues d).filter (·.isCurrent) = Build.issues d :=
    List.filter_eq_self.mpr fun i hi => isCurrent_of_isError (Build.allErrors_issues d i hi)
  rw [current, extend, List.filter_append, hall]
  rfl

end Report

/-! ## Trees -/

theorem check?_modern (h : Schema.check? t = some d) : Schema.check? t.modern = some d := by
  rw [Schema.check?_eq_some_iff] at h ⊢
  rw [Schema.document_modern h]
  refine ⟨h.value_eq, ?_⟩
  have hno := h.2
  rw [hasError, List.any_eq_false] at hno ⊢
  exact fun i hi => hno i (List.mem_filter.mp hi).1

theorem validate_modern (h : Schema.check? t = some d) (strict : Bool) :
    Schema.validate t.modern strict = (Schema.validate t strict).current := by
  rw [Schema.validate, Schema.document_modern (Schema.check?_eq_some_iff.mp h)]
  rfl

/-- What is compiled is compiled to the same, and what is rejected is rejected with the same issues, up to those about outdated
spellings. -/
theorem compileTree_modern (h : Schema.check? t = some d) (options : Options) :
    (∀ c, compileTree t false options = .ok c →
        compileTree t.modern false options = .ok { c with report := c.report.current }) ∧
      ∀ e, compileTree t false options = .error e →
        ∃ r, e = .rejected r ∧ compileTree t.modern false options = .error (.rejected r.current) := by
  have hmodern := check?_modern h
  have hvalidate := validate_modern h false
  have hpassed : (Schema.validate t false).current.passed = (Schema.validate t false).passed := Report.passed_current rfl
  cases hg : Graph.build d with
  | error structural =>
    have hbefore : compileTree t false options = .error (.rejected ((Schema.validate t false).extend structural)) := by
      simp only [compileTree, h, hg]
    have hnow : compileTree t.modern false options =
        .error (.rejected ((Schema.validate t false).extend structural).current) := by
      simp only [compileTree, hmodern, hg, hvalidate, Report.current_extend hg]
    rw [hbefore, hnow]
    refine ⟨?_, fun e he => ⟨_, (Except.error.inj he).symm, rfl⟩⟩
    intro c hc
    cases hc
  | ok g =>
    have hgenerate := generate_ok_of_check? h hg options
    cases hyes : (Schema.validate t false).passed with
    | false =>
      have hbefore : compileTree t false options = .error (.rejected (Schema.validate t false)) := by
        simp only [compileTree, h, hg, hyes, Bool.false_eq_true, if_false]
      have hnow : compileTree t.modern false options = .error (.rejected (Schema.validate t false).current) := by
        simp only [compileTree, hmodern, hg, hvalidate, hpassed, hyes, Bool.false_eq_true, if_false]
      rw [hbefore, hnow]
      refine ⟨?_, fun e he => ⟨_, (Except.error.inj he).symm, rfl⟩⟩
      intro c hc
      cases hc
    | true =>
      have hbefore : compileTree t false options =
          .ok ⟨Package.artifacts g options, g.summary, Schema.validate t false⟩ := by
        simp only [compileTree, h, hg, hyes, if_true, hgenerate]
      have hnow : compileTree t.modern false options =
          .ok ⟨Package.artifacts g options, g.summary, (Schema.validate t false).current⟩ := by
        simp only [compileTree, hmodern, hg, hvalidate, hpassed, hyes, if_true, hgenerate]
      rw [hbefore, hnow]
      refine ⟨fun c hc => ?_, ?_⟩
      · rw [← Except.ok.inj hc]
      · intro e he
        cases he

/-- A document that is accepted is accepted as the same document once it is brought up to date: the issues about outdated spellings
go, and all others stay in their order. Under lenient checking both are compiled to the same package with the same summary, or both
are rejected. -/
theorem check_modern {c : Schema.Checked} (h : Schema.check t strict = .ok c) (options : Options) :
    (∃ c', Schema.check t.modern strict = .ok c' ∧ c'.document = c.document ∧
        c'.report.issues = c.report.issues.filter (·.code != .deprecatedField)) ∧
      (∀ k, compileTree t false options = .ok k → ∃ k', compileTree t.modern false options = .ok k' ∧
        k'.artifacts = k.artifacts ∧ k'.summary = k.summary ∧
        k'.report.issues = k.report.issues.filter (·.code != .deprecatedField)) ∧
      ∀ e, compileTree t false options = .error e → ∃ r r', e = .rejected r ∧
        compileTree t.modern false options = .error (.rejected r') ∧
        r'.issues = r.issues.filter (·.code != .deprecatedField) := by
  obtain ⟨d, hd, rfl⟩ := Schema.check_eq_ok_iff.mp h
  obtain ⟨hok, herror⟩ := compileTree_modern hd options
  refine ⟨⟨_, Schema.check_eq_ok_iff.mpr ⟨d, check?_modern hd, rfl⟩, rfl, ?_⟩, fun k hk => ⟨_, hok k hk, rfl, rfl, rfl⟩, ?_⟩
  · rw [validate_modern hd]
    rfl
  · intro e he
    obtain ⟨r, rfl, hr⟩ := herror e he
    exact ⟨r, _, rfl, hr, rfl⟩

/-- A workflow that asks a language model, with outdated keys wherever there can be one. The kind of its second node and the source of
its second edge are there by the current key as well. -/
def outdatedCall : Tree :=
  .map [(.str "name", .str "ask"), (.str "entry_point", .str "begin"),
    (.str "nodes", .seq [.map [(.str "id", .str "begin"), (.str "type", .str "start")],
      .map [(.str "type", .str "model"), (.str "id", .str "ask"), (.str "kind", .str "llm-call"),
        (.str "config", .map [(.str "prompt_template", .str "Why?"), (.str "colour", .str "red")])],
      .map [(.str "id", .str "finish"), (.str "kind", .str "end")]]),
    (.str "edges", .seq [.map [(.str "from", .str "begin"), (.str "to", .str "ask")],
      .map [(.str "source", .str "ask"), (.str "from", .str "begin"), (.str "target", .str "finish")]])]

theorem check_modern_outdatedCall :
    ∃ c c' k k', Schema.check outdatedCall false = .ok c ∧ Schema.check outdatedCall.modern false = .ok c' ∧
      c'.document = c.document ∧ (c.report.withCode .deprecatedField).length = 6 ∧
      c'.report.issues.map (·.code) = [.unusedConfig] ∧ compileTree outdatedCall false {} = .ok k ∧
      compileTree outdatedCall.modern false {} = .ok k' ∧ k'.artifacts = k.artifacts ∧ k'.summary = k.summary := by
  obtain ⟨d, g, hd, hg, hpassed⟩ : ∃ d g, Schema.check? outdatedCall = some d ∧ Graph.build d = .ok g ∧
      (Schema.validate outdatedCall false).passed = true := ⟨_, _, rfl, rfl, rfl⟩
  have hcheck : Schema.check outdatedCall false = .ok ⟨d, Schema.validate outdatedCall false⟩ :=
    Schema.check_eq_ok_iff.mpr ⟨d, hd, rfl⟩
  have hcompile : compileTree outdatedCall false {} =
      .ok ⟨Package.artifacts g {}, g.summary, Schema.validate outdatedCall false⟩ :=
    compileTree_eq_ok_iff.mpr ⟨d, g, hd, hg, hpassed, rfl⟩
  obtain ⟨⟨c', hc', hdocument, hissues⟩, hok, -⟩ := check_modern hcheck {}
  obtain ⟨k', hk', hartifacts, hsummary, -⟩ := hok _ hcompile
  have houtdated : ((Schema.validate outdatedCall false).withCode .deprecatedField).length = 6 := by decide
  have hothers : ((Schema.validate outdatedCall false).issues.filter (·.code != .deprecatedField)).map (·.code) =
      [.unusedConfig] := by decide
  refine ⟨_, c', _, k', hcheck, hc', hdocument, houtdated, ?_, hcompile, hk', hartifacts, hsummary⟩
  rw [hissues, hothers]

end Workflow
