import Mathlib
import Workflow.Package.Generate
import Workflow.Proofs.Package.Defect
import Workflow.Proofs.Package.SealedLine

/-!
# Sealed packages

Every file of a package is sealed, whatever the texts of the workflow are (`generate_sealed`): no text of it gets out of its
literal or its comment, and what stands outside of these are names, annotations and numerals.
-/

namespace Workflow

open SealedFrom (Lines script apart_append)

variable {names : List String} {s rest : String}

/-! ## Names -/

namespace Package

/-- The names that a package uses outside of comments and literals: its state class, the slugs of its nodes, its routing functions
and the state keys. -/
def usedNames (g : Graph) (l : Layout) : List String :=
  l.stateClass :: (l.slugs ++ (l.slugs.map routeFunction ++ (stateSchema g).keys))

variable {g : Graph} {options : Options}

/-- The state class as a name of the package. -/
theorem onLine_stateClass (hapart : Apart (rest ++ "\n")) (h : OnLine (usedNames g (Layout.ofGraph g options)) .outside rest) :
    OnLine (usedNames g (Layout.ofGraph g options)) .outside ((Layout.ofGraph g options).stateClass ++ rest) :=
  OnLine.name List.mem_cons_self Layout.isIdentifier_stateClass hapart h

/-- A slug as a name of the package. -/
theorem onLine_slug (hs : s ∈ (Layout.ofGraph g options).slugs) (hapart : Apart (rest ++ "\n"))
    (h : OnLine (usedNames g (Layout.ofGraph g options)) .outside rest) :
    OnLine (usedNames g (Layout.ofGraph g options)) .outside (s ++ rest) :=
  OnLine.name (List.mem_cons_of_mem _ (List.mem_append_left _ hs)) (Layout.isIdentifier_of_mem_slugs s hs) hapart h

/-- A routing function as a name of the package. -/
theorem onLine_routeFunction (hs : s ∈ (Layout.ofGraph g options).slugs) (hapart : Apart (rest ++ "\n"))
    (h : OnLine (usedNames g (Layout.ofGraph g options)) .outside rest) :
    OnLine (usedNames g (Layout.ofGraph g options)) .outside (routeFunction s ++ rest) := by
  refine OnLine.name ?_ (isIdentifier_routeFunction (Layout.isIdentifier_of_mem_slugs s hs)) hapart h
  exact List.mem_cons_of_mem _ (List.mem_append_right _ (List.mem_append_left _ (List.mem_map_of_mem hs)))

/-- A state key that is an identifier as a name of the package. -/
theorem onLine_stateKey (hmem : s ∈ (stateSchema g).keys) (hs : isIdentifier s = true) (hapart : Apart (rest ++ "\n"))
    (h : OnLine (usedNames g (Layout.ofGraph g options)) .outside rest) :
    OnLine (usedNames g (Layout.ofGraph g options)) .outside (s ++ rest) := by
  refine OnLine.name ?_ hs hapart h
  exact List.mem_cons_of_mem _ (List.mem_append_right _ (List.mem_append_right _ hmem))

/-! ## Comments -/

/-- The comment at the head of a file is sealed. -/
theorem lines_header {what : String} (hwhat : what ∈ remarks) : Lines names (header g options what) := by
  have hversion : options.framework.text ∈ remarks := by cases options.framework <;> simp [FrameworkVersion.text, remarks]
  rw [header]
  split
  · refine Lines.cons (script ?_) (Lines.cons (script ?_) (Lines.cons sealed_blankLine Lines.nil))
    · simp only [top, String.append_assoc]
      refine OnLine.fixed .comment rfl (mem_wordings_of_remark (by simp [remarks])) (by decide) (OnLine.remark hwhat ?_)
      refine OnLine.remark (by simp [remarks]) (OnLine.folded g.name ?_)
      exact OnLine.closing rfl (mem_wordings_of_remark (by simp [remarks])) (by decide)
    · simp only [top, String.append_assoc]
      refine OnLine.fixed .comment rfl (mem_wordings_of_remark (by simp [remarks])) (by decide) (OnLine.remark hversion ?_)
      exact OnLine.closing rfl (mem_wordings_of_remark (by simp [remarks])) (by decide)
  · exact Lines.nil

/-- The comment with the description of the workflow is sealed. -/
theorem lines_descriptionComment : Lines names (descriptionComment g options) := by
  rw [descriptionComment]
  split
  · next description _ _ =>
    refine Lines.cons (script (OnLine.of_append_empty ?_)) (Lines.cons sealed_blankLine Lines.nil)
    simp only [top, String.append_assoc]
    refine OnLine.fixed .comment rfl (mem_wordings_of_remark (by simp [remarks])) (by decide) ?_
    exact OnLine.folded description (OnLine.done (by decide))
  · exact Lines.nil

/-- The comment that names the node behind some lines is sealed. -/
theorem lines_nodeComment (n : Node) (depth : Nat) : Lines names (nodeComment n options depth) := by
  have hkind : n.kind.text ∈ remarks := by cases n.kind <;> simp [NodeKind.text, remarks]
  rw [nodeComment]
  split
  · refine Lines.cons (script ?_) Lines.nil
    simp only [String.append_assoc]
    refine OnLine.fixed .comment rfl (mem_wordings_of_remark (by simp [remarks])) (by decide) (OnLine.folded n.id ?_)
    refine OnLine.remark (by simp [remarks]) (OnLine.remark hkind ?_)
    exact OnLine.closing rfl (mem_wordings_of_remark (by simp [remarks])) (by decide)
  · exact Lines.nil

/-! ## The files one by one -/

/-- The file of the package itself is sealed. -/
theorem lines_packageLines :
    Lines (usedNames g (Layout.ofGraph g options)) (packageLines g (Layout.ofGraph g options) options) := by
  rw [packageLines]
  refine Lines.append (Lines.append (lines_header (by simp [remarks])) lines_descriptionComment) ?_
  refine Lines.cons (sealed_statement (by simp [statements])) (Lines.cons (script (OnLine.of_append_empty ?_))
    (Lines.cons sealed_blankLine (Lines.cons (script ?_) Lines.nil)))
  · simp only [top, String.append_assoc]
    exact OnLine.fragment (by simp [fragments]) (onLine_stateClass apart_feed (OnLine.done (by decide)))
  · simp only [top, String.append_assoc]
    refine OnLine.fragment (by simp [fragments]) (OnLine.row _ (apart_append rfl rfl (by decide)) ?_)
    exact OnLine.ending (by simp [fragments])

/-- The state as a class is sealed if its keys are identifiers. -/
theorem lines_stateClassLines (hkeys : (stateSchema g).keys.all isIdentifier = true) :
    Lines (usedNames g (Layout.ofGraph g options)) (stateClassLines (Layout.ofGraph g options) (stateSchema g)) := by
  rw [stateClassLines]
  refine Lines.cons (script ?_) ?_
  · simp only [top, String.append_assoc]
    refine OnLine.fragment (by simp [fragments]) (onLine_stateClass (apart_append rfl rfl (by decide)) ?_)
    exact OnLine.ending (by simp [fragments])
  · split
    · exact Lines.cons (sealed_statement (by simp [statements])) Lines.nil
    · intro line hline
      obtain ⟨⟨key, type⟩, hmem, rfl⟩ := List.mem_map.mp hline
      have hkey : key ∈ (stateSchema g).keys := List.mem_map_of_mem hmem
      refine script (OnLine.of_append_empty ?_)
      simp only [inner, String.append_assoc]
      refine onLine_stateKey hkey (List.all_eq_true.mp hkeys key hkey) ?_ ?_
      · rw [String.append_assoc]
        exact apart_append rfl rfl (by decide)
      · exact OnLine.fragment (by simp [fragments]) (OnLine.typed type apart_feed (OnLine.done (by decide)))

/-- The state as a call is sealed, whatever its keys are. -/
theorem lines_stateCallLines (state : Keyed FieldType) :
    Lines (usedNames g (Layout.ofGraph g options)) (stateCallLines (Layout.ofGraph g options) state) := by
  rw [stateCallLines]
  refine Lines.append (Lines.append ?_ ?_) ?_
  · refine Lines.cons (script ?_) (Lines.cons (script ?_) (Lines.cons (sealed_statement (by simp [statements])) Lines.nil))
    · exact onLine_stateClass (apart_append rfl rfl (by decide)) (OnLine.ending (by simp [fragments]))
    · exact OnLine.literal _ (apart_append rfl rfl (by decide)) (OnLine.ending (by simp [fragments]))
  · intro line hline
    obtain ⟨⟨key, type⟩, -, rfl⟩ := List.mem_map.mp hline
    refine script ?_
    simp only [inner2, String.append_assoc]
    refine OnLine.literal key ?_ (OnLine.fragment (by simp [fragments]) (OnLine.typed type ?_ (OnLine.ending (by simp [fragments]))))
    · rw [String.append_assoc]
      exact apart_append rfl rfl (by decide)
    · exact apart_append rfl rfl (by decide)
  · exact Lines.cons (sealed_statement (by simp [statements])) (Lines.cons (sealed_statement (by simp [statements]))
      (Lines.cons (sealed_statement (by simp [statements])) Lines.nil))

/-- The file of the state is sealed. -/
theorem lines_stateLines :
    Lines (usedNames g (Layout.ofGraph g options)) (stateLines g (Layout.ofGraph g options) options) := by
  rw [stateLines]
  refine Lines.append (Lines.append (lines_header (by simp [remarks])) ?_) ?_
  · refine Lines.cons ?_ (Lines.cons sealed_blankLine (Lines.cons sealed_blankLine Lines.nil))
    split <;> exact sealed_statement (by simp [statements])
  · split
    · next hkeys => exact lines_stateClassLines hkeys
    · exact lines_stateCallLines _

/-- The file that gathers the node modules is sealed. -/
theorem lines_nodeIndexLines :
    Lines (usedNames g (Layout.ofGraph g options)) (nodeIndexLines g (Layout.ofGraph g options) options) := by
  rw [nodeIndexLines]
  refine Lines.append (lines_header (by simp [remarks])) fun line hline => ?_
  obtain ⟨slug, hslug, rfl⟩ := List.mem_map.mp hline
  refine script (OnLine.of_append_empty ?_)
  simp only [top, String.append_assoc]
  exact OnLine.fragment (by simp [fragments]) (onLine_slug hslug apart_feed (OnLine.done (by decide)))

/-- The lines of the runtime are sealed together, for one of its docstrings has several lines. -/
theorem sealed_runtimeBody : SealedFrom names .outside (String.join (runtimeBody.map (· ++ "\n"))) := by
  simp only [runtimeBody, List.map_cons, List.map_nil, String.join_cons, String.join_nil]
  repeat refine SealedFrom.line .outside rfl (mem_wordings_of_runtime (by simp [runtimeBody])) (by decide) ?_
  -- The docstring is open at the ends of three lines.
  iterate 3 refine SealedFrom.line (.long 0) rfl (mem_wordings_of_runtime (by simp [runtimeBody])) (by decide) ?_
  repeat refine SealedFrom.line .outside rfl (mem_wordings_of_runtime (by simp [runtimeBody])) (by decide) ?_
  exact SealedFrom.nil

/-- The file of the runtime is sealed. -/
theorem sealed_runtimeLines : Sealed names (renderLines (runtimeLines g options)) := by
  have hscripts : (runtimeBody.map top).map Line.script = runtimeBody.map (· ++ "\n") := by
    rw [List.map_map]
    exact List.map_congr_left fun text _ => SealedFrom.script_top text
  rw [runtimeLines, renderLines_eq, List.map_append, String.join_append, hscripts, ← renderLines_eq]
  exact SealedFrom.append (SealedFrom.lines (lines_header (by simp [remarks]))) sealed_runtimeBody

/-- The result of a call is given back in sealed lines if the call is a statement. -/
theorem lines_resultLines (outputKey : Option String) {call : String} (hcall : call ∈ statements) :
    Lines names (resultLines outputKey call) := by
  cases outputKey with
  | none => exact Lines.cons (sealed_statement hcall) (Lines.cons (sealed_statement (by simp [statements])) Lines.nil)
  | some key =>
    refine Lines.cons (script ?_) (Lines.cons (sealed_statement (by simp [statements])) Lines.nil)
    exact OnLine.fragment (by simp [fragments]) (onLine_statement hcall)

/-- The body of the function that runs a node is sealed. -/
theorem lines_runLines (spec : NodeSpec) : Lines names (runLines spec) := by
  cases spec with
  | start inputs =>
    exact Lines.cons (sealed_statement (by simp [statements])) (Lines.cons (sealed_statement (by simp [statements]))
      (Lines.cons (sealed_statement (by simp [statements])) (Lines.cons (sealed_statement (by simp [statements])) Lines.nil)))
  | llmCall call => exact Lines.cons (sealed_statement (by simp [statements])) (lines_resultLines _ (by simp [statements]))
  | toolCall call => exact lines_resultLines _ (by simp [statements])
  | conditionalBranch b => exact Lines.cons (sealed_statement (by simp [statements])) Lines.nil
  | transform assign => exact Lines.cons (sealed_statement (by simp [statements])) Lines.nil
  | finish outputs => exact Lines.cons (sealed_statement (by simp [statements])) Lines.nil

/-- A line that begins with a fragment and ends with the literal of a value is sealed. -/
theorem sealed_literalLine (hs : s ∈ fragments) (v : Json) : SealedFrom names .outside (top (s ++ literal 0 v)).script := by
  rw [SealedFrom.script_top, String.append_assoc]
  exact SealedFrom.fragment hs (SealedFrom.value 0 v apart_feed SealedFrom.feed)

/-- The file of a node is sealed. -/
theorem lines_nodeLines (n : Node) :
    Lines (usedNames g (Layout.ofGraph g options)) (nodeLines g n (Layout.ofGraph g options) options) := by
  have hdisplay : ∃ v, displayLiteral n = literal 0 v := by
    rw [displayLiteral]
    cases n.display with
    | none => exact ⟨.null, by rw [literal]⟩
    | some v => exact ⟨v, rfl⟩
  obtain ⟨display, hdisplay⟩ := hdisplay
  rw [nodeLines, hdisplay]
  refine Lines.append (Lines.append (Lines.append (Lines.append (Lines.append (Lines.append (lines_nodeComment n 0)
    (lines_header (by simp [remarks]))) ?_) ?_) ?_) ?_) (lines_runLines n.spec)
  · split
    · exact Lines.cons (sealed_statement (by simp [statements])) Lines.nil
    · exact Lines.nil
  · exact Lines.cons (sealed_statement (by simp [statements])) (Lines.cons sealed_blankLine Lines.nil)
  · rw [nodeImports.eq_def]
    split
    · exact Lines.cons (sealed_statement (by simp [statements])) Lines.nil
    · exact Lines.cons (sealed_statement (by simp [statements])) Lines.nil
    · exact Lines.nil
  · refine Lines.cons (script (OnLine.of_append_empty ?_)) (Lines.cons sealed_blankLine
      (Lines.cons (script (OnLine.of_append_empty ?_)) (Lines.cons (script (OnLine.of_append_empty ?_))
        (Lines.cons (sealed_literalLine (by simp [fragments]) _) (Lines.cons (sealed_literalLine (by simp [fragments]) display)
          (Lines.cons sealed_blankLine (Lines.cons sealed_blankLine (Lines.cons (script ?_) Lines.nil))))))))
    · simp only [top, String.append_assoc]
      exact OnLine.fragment (by simp [fragments]) (onLine_stateClass apart_feed (OnLine.done (by decide)))
    · simp only [top, String.append_assoc]
      exact OnLine.fragment (by simp [fragments]) (OnLine.literal n.id apart_feed (OnLine.done (by decide)))
    · simp only [top, String.append_assoc]
      exact OnLine.fragment (by simp [fragments]) (OnLine.literal n.kind.text apart_feed (OnLine.done (by decide)))
    · simp only [top, String.append_assoc]
      refine OnLine.fragment (by simp [fragments]) (onLine_stateClass (apart_append rfl rfl (by decide)) ?_)
      exact OnLine.ending (by simp [fragments])

/-! ## The file that assembles the graph -/

/-- The routing function of a table is sealed. -/
theorem lines_tableLines {t : BranchTable} (h : t.node < g.nodes.length) :
    Lines (usedNames g (Layout.ofGraph g options)) (tableLines g (Layout.ofGraph g options) t) := by
  rw [tableLines]
  split
  · split
    · next n _ b _ =>
      rw [routeLines, labelRow]
      refine Lines.cons sealed_blankLine (Lines.cons sealed_blankLine (Lines.cons (script ?_) (Lines.cons (script ?_)
        (Lines.cons (script ?_) (Lines.cons (sealed_statement (by simp [statements])) (Lines.cons (script ?_) Lines.nil))))))
      · simp only [top, String.append_assoc]
        refine OnLine.fragment (by simp [fragments]) (onLine_routeFunction (Layout.slug_mem_slugs h) ?_ ?_)
        · rw [String.append_assoc]
          exact apart_append rfl rfl (by decide)
        refine OnLine.fragment (by simp [fragments]) (onLine_stateClass ?_ ?_)
        · rw [String.append_assoc]
          exact apart_append rfl rfl (by decide)
        refine OnLine.fragment (by simp [fragments]) (OnLine.row _ (apart_append rfl rfl (by decide)) ?_)
        exact OnLine.ending (by simp [fragments])
      · simp only [inner, String.append_assoc]
        refine OnLine.fragment (by simp [fragments]) (OnLine.literal b.on (apart_append rfl rfl (by decide)) ?_)
        exact OnLine.ending (by simp [fragments])
      · simp only [inner, String.append_assoc]
        refine OnLine.fragment (by simp [fragments]) (OnLine.row _ (apart_append rfl rfl (by decide)) ?_)
        exact OnLine.ending (by simp [fragments])
      · simp only [inner]
        rw [String.append_assoc]
        refine OnLine.fragment (by simp [fragments]) (OnLine.literal _ (apart_append rfl rfl (by decide)) ?_)
        exact OnLine.ending (by simp [fragments])
    · exact Lines.nil
  · exact Lines.nil

/-- The call that adds a node is sealed. -/
theorem lines_addNodeLines (n : Node) {i : Nat} (h : i < g.nodes.length) :
    Lines (usedNames g (Layout.ofGraph g options)) (addNodeLines (Layout.ofGraph g options) options n i) := by
  rw [addNodeLines]
  refine Lines.append (lines_nodeComment n 1) (Lines.cons (script ?_) Lines.nil)
  simp only [inner, String.append_assoc]
  refine OnLine.fragment (by simp [fragments]) (OnLine.literal n.id ?_ ?_)
  · rw [String.append_assoc]
    exact apart_append rfl rfl (by decide)
  · refine OnLine.fragment (by simp [fragments]) (onLine_slug (Layout.slug_mem_slugs h) (apart_append rfl rfl (by decide)) ?_)
    exact OnLine.ending (by simp [fragments])

/-- A call whose only argument is the literal of a text, between two fragments, is sealed. -/
theorem sealed_literalCall {before after text : String} {c : Char} {cs : List Char} (hbefore : before ∈ fragments)
    (hafter : after ∈ fragments) (hcs : after = String.ofList (c :: cs)) (hname : isNameChar c = false) (hquote : c ≠ '"') :
    SealedFrom names .outside (inner (before ++ stringLiteral text ++ after)).script := by
  refine script ?_
  simp only [inner, String.append_assoc]
  exact OnLine.fragment hbefore (OnLine.literal text (apart_append hcs hname hquote) (OnLine.ending hafter))

/-- The call that declares the entry is sealed. -/
theorem sealed_entryLine (framework : FrameworkVersion) : SealedFrom names .outside (entryLine g framework).script := by
  cases framework <;> exact sealed_literalCall (by simp [fragments]) (by simp [fragments]) rfl rfl (by decide)

/-- The call that declares an end is sealed. -/
theorem sealed_finishLine (framework : FrameworkVersion) (i : Nat) : SealedFrom names .outside (finishLine g framework i).script := by
  cases framework <;> exact sealed_literalCall (by simp [fragments]) (by simp [fragments]) rfl rfl (by decide)

/-- The call that adds the conditional edges of a branching node is sealed. -/
theorem lines_conditionalLines {t : BranchTable} (h : t.node < g.nodes.length) :
    Lines (usedNames g (Layout.ofGraph g options)) (conditionalLines g (Layout.ofGraph g options) t) := by
  rw [conditionalLines]
  refine Lines.append (Lines.append ?_ ?_) ?_
  · refine Lines.cons (sealed_statement (by simp [statements])) (Lines.cons (script ?_) (Lines.cons (script ?_)
      (Lines.cons (sealed_statement (by simp [statements])) Lines.nil)))
    · exact OnLine.literal _ (apart_append rfl rfl (by decide)) (OnLine.ending (by simp [fragments]))
    · refine onLine_routeFunction (Layout.slug_mem_slugs h) (apart_append rfl rfl (by decide)) ?_
      exact OnLine.ending (by simp [fragments])
  · intro line hline
    obtain ⟨⟨label, target⟩, -, rfl⟩ := List.mem_map.mp hline
    refine script ?_
    simp only [String.append_assoc]
    refine OnLine.literal label ?_ ?_
    · rw [String.append_assoc]
      exact apart_append rfl rfl (by decide)
    · refine OnLine.fragment (by simp [fragments]) (OnLine.literal _ (apart_append rfl rfl (by decide)) ?_)
      exact OnLine.ending (by simp [fragments])
  · exact Lines.cons (sealed_statement (by simp [statements])) (Lines.cons (sealed_statement (by simp [statements])) Lines.nil)

/-- The calls of an edge are sealed. -/
theorem lines_edgeLines (htables : ∀ t ∈ g.branchTables, t.node < g.nodes.length) (earlier : List Edge) (e : Edge) :
    Lines (usedNames g (Layout.ofGraph g options)) (edgeLines g (Layout.ofGraph g options) earlier e) := by
  rw [edgeLines]
  split
  · refine Lines.cons (script ?_) Lines.nil
    simp only [inner, String.append_assoc]
    refine OnLine.fragment (by simp [fragments]) (OnLine.literal _ ?_ ?_)
    · rw [String.append_assoc]
      exact apart_append rfl rfl (by decide)
    · refine OnLine.fragment (by simp [fragments]) (OnLine.literal _ (apart_append rfl rfl (by decide)) ?_)
      exact OnLine.ending (by simp [fragments])
  · split
    · exact Lines.nil
    · split
      · next t ht => exact lines_conditionalLines (htables t (List.mem_of_find?_eq_some ht))
      · exact Lines.nil

/-- The file that assembles the graph is sealed. -/
theorem lines_assemblyLines (htables : ∀ t ∈ g.branchTables, t.node < g.nodes.length) :
    Lines (usedNames g (Layout.ofGraph g options)) (assemblyLines g (Layout.ofGraph g options) options) := by
  have himports : Lines (usedNames g (Layout.ofGraph g options)) (assemblyImports g (Layout.ofGraph g options) options) := by
    rw [assemblyImports]
    refine Lines.append ?_ (Lines.cons ?_ (Lines.cons sealed_blankLine (Lines.cons (sealed_statement (by simp [statements]))
      (Lines.cons (script (OnLine.of_append_empty ?_)) Lines.nil))))
    · split
      · exact Lines.nil
      · exact Lines.cons (sealed_statement (by simp [statements])) (Lines.cons sealed_blankLine Lines.nil)
    · split <;> exact sealed_statement (by simp [statements])
    · simp only [top, String.append_assoc]
      exact OnLine.fragment (by simp [fragments]) (onLine_stateClass apart_feed (OnLine.done (by decide)))
  have hbody : Lines (usedNames g (Layout.ofGraph g options)) (buildLines g (Layout.ofGraph g options) options) := by
    rw [buildLines]
    refine Lines.append (Lines.append (Lines.append (Lines.append (Lines.append (Lines.cons (script ?_) Lines.nil) ?_) ?_) ?_) ?_) ?_
    · simp only [inner, String.append_assoc]
      refine OnLine.fragment (by simp [fragments]) (onLine_stateClass (apart_append rfl rfl (by decide)) ?_)
      exact OnLine.ending (by simp [fragments])
    · intro line hline
      obtain ⟨⟨n, i⟩, hn, hline⟩ := List.mem_flatMap.mp hline
      have hi : i < g.nodes.length := (List.getElem?_eq_some_iff.mp (List.mem_zipIdx_iff_getElem?.mp hn)).1
      exact lines_addNodeLines n hi line hline
    · exact Lines.cons sealed_blankLine (Lines.cons (sealed_entryLine _) Lines.nil)
    · intro line hline
      obtain ⟨⟨e, k⟩, -, hline⟩ := List.mem_flatMap.mp hline
      exact lines_edgeLines htables _ e line hline
    · intro line hline
      obtain ⟨i, -, rfl⟩ := List.mem_map.mp hline
      exact sealed_finishLine _ i
    · exact Lines.cons (sealed_statement (by simp [statements])) Lines.nil
  have htableLines : Lines (usedNames g (Layout.ofGraph g options))
      (g.branchTables.flatMap (tableLines g (Layout.ofGraph g options))) := by
    intro line hline
    obtain ⟨t, ht, hline⟩ := List.mem_flatMap.mp hline
    exact lines_tableLines (htables t ht) line hline
  rw [assemblyLines]
  refine Lines.append (Lines.append (Lines.append (Lines.append (Lines.append (lines_header (by simp [remarks])) himports)
    htableLines) ?_) hbody) ?_
  · exact Lines.cons sealed_blankLine (Lines.cons sealed_blankLine (Lines.cons (sealed_statement (by simp [statements])) Lines.nil))
  · exact Lines.cons sealed_blankLine (Lines.cons sealed_blankLine (Lines.cons (sealed_statement (by simp [statements])) Lines.nil))

/-- Every file of a package is sealed, if the branch tables of the graph belong to its nodes. -/
theorem sealed_of_mem_artifacts (htables : ∀ t ∈ g.branchTables, t.node < g.nodes.length) :
    ∀ a ∈ artifacts g options, Sealed (usedNames g (Layout.ofGraph g options)) a.contents := by
  rw [artifacts]
  refine List.forall_mem_append.mpr ⟨List.forall_mem_append.mpr ⟨?_, ?_⟩, ?_⟩
  · refine List.forall_mem_cons.mpr ⟨SealedFrom.lines lines_packageLines, List.forall_mem_cons.mpr
      ⟨SealedFrom.lines lines_stateLines, List.forall_mem_cons.mpr ⟨sealed_runtimeLines, List.forall_mem_cons.mpr
        ⟨SealedFrom.lines lines_nodeIndexLines, fun a ha => absurd ha List.not_mem_nil⟩⟩⟩⟩
  · intro a ha
    obtain ⟨⟨n, i⟩, -, rfl⟩ := List.mem_map.mp ha
    exact SealedFrom.lines (lines_nodeLines n)
  · exact List.forall_mem_cons.mpr
      ⟨SealedFrom.lines (lines_assemblyLines htables), fun a ha => absurd ha List.not_mem_nil⟩

end Package

open Package

/-- Every file of the package of a built graph is sealed: it falls into fixed wordings, literals and comments that hold the texts
of the workflow, and, outside of these, names, annotations and numerals. No literal is open at the end of a line, and no text of
the workflow ends one. -/
theorem generate_sealed (d : Document) (g : Graph) (h : Graph.build d = .ok g) (options : Options) (files : List Artifact)
    (hfiles : generate g options = .ok files) :
    ∀ a ∈ files, Sealed (usedNames g (Layout.ofGraph g options)) a.contents := by
  obtain ⟨-, rfl⟩ := generate_eq_ok_iff.mp hfiles
  obtain ⟨hnil, s, -, rfl⟩ := Build.build_eq_ok_iff.mp h
  refine sealed_of_mem_artifacts fun t ht => ?_
  obtain ⟨n, hn, -⟩ := ((Build.mem_branchTables hnil).mp ht).1
  exact (List.getElem?_eq_some_iff.mp hn).1

/-- A workflow whose texts try to get out of their literals and comments. -/
def quotedTexts : Document where
  name := "quotes'\n\"\"\"\rimport os #"
  description := some "# \\\"\n\"\"\""
  version := none
  entry := "say \"hi\"\nimport os"
  nodes := [⟨"say \"hi\"\nimport os", .start [⟨"a\"b", .string⟩], none⟩, ⟨"'''\\", .finish ["a\"b"], some (.str "\"\"\"\r")⟩]
  edges := [⟨"say \"hi\"\nimport os", "'''\\", none⟩]

/-- The package of such a workflow is sealed. -/
theorem generate_sealed_quotedTexts :
    ∃ g files, Graph.build quotedTexts = .ok g ∧ generate g {} = .ok files ∧ files.length = 7 ∧
      ∀ a ∈ files, Sealed (usedNames g (Layout.ofGraph g {})) a.contents := by
  obtain ⟨g, hg⟩ : ∃ g, Graph.build quotedTexts = .ok g := ⟨_, rfl⟩
  have hnodes : g.nodes = quotedTexts.nodes := by
    obtain ⟨-, s, -, rfl⟩ := Build.build_eq_ok_iff.mp hg
    rfl
  have hnone : defect? g = none := by
    refine (defect?_eq_none_iff hg).mpr fun n hn b hb => ?_
    simp only [quotedTexts, List.mem_cons, List.not_mem_nil, or_false] at hn
    rcases hn with rfl | rfl <;> cases hb
  have hfiles : generate g {} = .ok (artifacts g {}) := generate_eq_ok_iff.mpr ⟨hnone, rfl⟩
  refine ⟨g, artifacts g {}, hg, hfiles, ?_, generate_sealed quotedTexts g hg {} _ hfiles⟩
  simp [artifacts, hnodes, quotedTexts]

end Workflow
