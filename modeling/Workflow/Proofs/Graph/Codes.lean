import Workflow.Proofs.Graph.Phases

/-!
# The codes of the checks of a structure

Which codes the issues of each check have. Every check has codes of its own, so the issues with a code are found in the issues of
its check alone (`filter_reachCodes_issues`, `filter_branchCodes_issues`), and every issue of a structure is an error (`allErrors_issues`).
-/

namespace Workflow

/-- The issues with which a document is refused a graph. -/
def Graph.refusalIssues (d : Document) : List Issue :=
  match Graph.build d with
  | .ok _ => []
  | .error report => report.issues

namespace Build

/-! ## Codes of lists of issues -/

/-- Every issue of a list has one of some codes. -/
def AllCodes (codes : List IssueCode) (found : List Issue) : Prop := ∀ i ∈ found, i.code ∈ codes

section

variable {codes : List IssueCode} {a b found : List Issue}

theorem allCodes_nil : AllCodes codes [] := fun _ h => absurd h List.not_mem_nil

theorem allCodes_singleton {code : IssueCode} {place : Place} {message : String} (h : code ∈ codes) :
    AllCodes codes [⟨code, place, message⟩] :=
  List.forall_mem_singleton.mpr h

theorem allCodes_append (ha : AllCodes codes a) (hb : AllCodes codes b) : AllCodes codes (a ++ b) :=
  List.forall_mem_append.mpr ⟨ha, hb⟩

theorem allCodes_flatMap {α : Type} {f : α → List Issue} {l : List α} (h : ∀ a, AllCodes codes (f a)) :
    AllCodes codes (l.flatMap f) := by
  intro i hi
  obtain ⟨a, -, ha⟩ := List.mem_flatMap.mp hi
  exact h a i ha

theorem allCodes_filterMap {α : Type} {f : α → Option Issue} {l : List α} (h : ∀ a, AllCodes codes (f a).toList) :
    AllCodes codes (l.filterMap f) := by
  intro i hi
  obtain ⟨a, -, ha⟩ := List.mem_filterMap.mp hi
  exact h a i (by rw [ha]; exact List.mem_singleton_self i)

/-- A choice among codes that no issue of a list has leaves none of them. -/
theorem filter_eq_nil_of_allCodes {p : IssueCode → Bool} (h : AllCodes codes found) (hp : codes.all (!p ·) = true) :
    found.filter (p ·.code) = [] := by
  rw [List.filter_eq_nil_iff]
  intro i hi hcode
  have hno := List.all_eq_true.mp hp i.code (h i hi)
  rw [hcode] at hno
  cases hno

/-- A choice that holds of all codes of a list leaves it as it is. -/
theorem filter_eq_self_of_allCodes {p : IssueCode → Bool} (h : AllCodes codes found) (hp : codes.all p = true) :
    found.filter (p ·.code) = found :=
  List.filter_eq_self.mpr fun i hi => List.all_eq_true.mp hp i.code (h i hi)

end

/-! ## Codes of each check -/

variable (d : Document)

theorem allCodes_collisionIssues : AllCodes [.stateKeyCollision] (collisionIssues d) := by
  refine allCodes_filterMap fun x => ?_
  simp only
  split
  · exact allCodes_singleton (by decide)
  · exact allCodes_nil

theorem allCodes_danglingIssue {codes : List IssueCode} (h : .danglingReference ∈ codes) (place : Place) (what id : String) :
    AllCodes codes (danglingIssue d place what id) := by
  rw [danglingIssue]
  split
  · exact allCodes_nil
  · exact allCodes_singleton h

theorem allCodes_edgeIssues : AllCodes [.danglingReference] (edgeIssues d) :=
  allCodes_flatMap fun _ =>
    allCodes_append (allCodes_danglingIssue d (by decide) _ _ _) (allCodes_danglingIssue d (by decide) _ _ _)

/-- The codes of issues of the entry. -/
def entryCodes : List IssueCode := [.danglingReference, .missingEntry, .entryMismatch, .multipleEntries]

theorem allCodes_entryIssues : AllCodes entryCodes (entryIssues d) := by
  refine allCodes_append (allCodes_danglingIssue d (by decide) _ _ _) ?_
  split
  · exact allCodes_singleton (by decide)
  · split
    · exact allCodes_nil
    · split
      · exact allCodes_nil
      · exact allCodes_singleton (by decide)
  · exact allCodes_singleton (by decide)

/-- The codes of issues of nodes out of reach. -/
def reachCodes : List IssueCode := [.unreachableNode, .isolatedCycle]

theorem allCodes_islandIssues (next : List Nat) (rootId : String) (i : Nat) (members : List Nat) :
    AllCodes reachCodes (islandIssues d next rootId i members) := by
  rw [islandIssues]
  split
  · split
    · exact allCodes_singleton (by decide)
    · exact allCodes_nil
  · exact allCodes_singleton (by decide)

theorem allCodes_reachIssues : AllCodes reachCodes (reachIssues d) := by
  rw [reachIssues]
  split
  · exact allCodes_nil
  · exact allCodes_flatMap fun row => allCodes_islandIssues d _ _ _ _

/-- The codes of issues of conditions on edges. -/
def branchCodes : List IssueCode :=
  [.conditionOnPlainNode, .unconditionalFromBranch, .branchUnexpected, .duplicateBranch, .branchMissing]

theorem allCodes_branchIssues (edges : List Edge) (n : Node) (i : Nat) : AllCodes branchCodes (branchIssues d edges n i) := by
  rw [branchIssues]
  split
  · refine allCodes_filterMap fun e => ?_
    rw [plainEdgeIssue]
    cases e.condition
    · exact allCodes_nil
    · exact allCodes_singleton (by decide)
  · refine allCodes_append (allCodes_filterMap fun x => ?_) ?_
    · simp only [branchEdgeIssue]
      split
      · exact allCodes_singleton (by decide)
      · split
        · exact allCodes_singleton (by decide)
        · split
          · exact allCodes_singleton (by decide)
          · exact allCodes_nil
    · simp only [missingLabelIssue]
      split
      · exact allCodes_nil
      · exact allCodes_singleton (by decide)

theorem allCodes_terminalIssues (sources : List (Option Nat)) (n : Node) (i : Nat) :
    AllCodes [.terminalHasSuccessor, .deadEnd] (terminalIssues sources n i) := by
  rw [terminalIssues]
  split
  · split
    · exact allCodes_nil
    · exact allCodes_singleton (by decide)
  · split
    · exact allCodes_singleton (by decide)
    · exact allCodes_nil

theorem place_of_mem_terminalIssues {sources : List (Option Nat)} {n : Node} {i : Nat} {x : Issue}
    (hx : x ∈ terminalIssues sources n i) : x.place = nodePlace i := by
  rw [terminalIssues] at hx
  grind

theorem allCodes_noTerminalIssues : AllCodes [.noTerminal] (noTerminalIssues d) := by
  rw [noTerminalIssues]
  split
  · exact allCodes_singleton (by decide)
  · exact allCodes_nil

/-! ## The issues of a structure -/

/-- The codes of the issues of a structure. -/
def structureCodes : List IssueCode :=
  [.stateKeyCollision] ++ entryCodes ++ reachCodes ++ branchCodes ++ [.terminalHasSuccessor, .deadEnd] ++ [.noTerminal]

theorem AllCodes.mono {codes more : List IssueCode} {found : List Issue} (h : AllCodes codes found)
    (hsub : ∀ c ∈ codes, c ∈ more) : AllCodes more found := fun i hi => hsub _ (h i hi)

theorem allCodes_issues : AllCodes structureCodes (issues d) := by
  refine allCodes_append (allCodes_append (allCodes_append (allCodes_append (allCodes_append (allCodes_append
    ((allCodes_collisionIssues d).mono (by decide)) ((allCodes_edgeIssues d).mono (by decide)))
    ((allCodes_entryIssues d).mono (by decide))) ((allCodes_reachIssues d).mono (by decide)))
    (allCodes_flatMap fun x => ?_)) (allCodes_flatMap fun x => ?_)) ((allCodes_noTerminalIssues d).mono (by decide))
  · exact (allCodes_branchIssues d _ _ _).mono (by decide)
  · exact (allCodes_terminalIssues _ _ _).mono (by decide)

/-- Every issue of a structure is an error. -/
theorem allErrors_issues : ∀ i ∈ issues d, i.isError = true := by
  have hall : ∀ c ∈ structureCodes, (c.severity == .error) = true := by decide
  intro i hi
  exact hall i.code (allCodes_issues d i hi)

/-- The issues of a structure, check by check. -/
theorem issues_eq : issues d =
    collisionIssues d ++ edgeIssues d ++ entryIssues d ++ reachIssues d ++
      (d.nodes.zipIdx.flatMap fun x => branchIssues d (resolvedEdges d) x.1 x.2) ++
      (d.nodes.zipIdx.flatMap fun x => terminalIssues (declaredSources d) x.1 x.2) ++ noTerminalIssues d := rfl

theorem allCodes_branches :
    AllCodes branchCodes (d.nodes.zipIdx.flatMap fun x => branchIssues d (resolvedEdges d) x.1 x.2) :=
  allCodes_flatMap fun _ => allCodes_branchIssues d _ _ _

theorem allCodes_terminals : AllCodes [.terminalHasSuccessor, .deadEnd]
    (d.nodes.zipIdx.flatMap fun x => terminalIssues (declaredSources d) x.1 x.2) :=
  allCodes_flatMap fun _ => allCodes_terminalIssues _ _ _

/-- The issues of nodes out of reach are those of the structure with their codes. -/
theorem filter_reachCodes_issues : (issues d).filter (·.code ∈ reachCodes) = reachIssues d := by
  have hnone : ∀ {codes found}, AllCodes codes found → codes.all (fun c => !decide (c ∈ reachCodes)) = true →
      found.filter (·.code ∈ reachCodes) = [] := fun h hp => filter_eq_nil_of_allCodes h hp
  simp only [issues_eq, List.filter_append, hnone (allCodes_collisionIssues d) (by decide), hnone (allCodes_edgeIssues d) (by decide),
    hnone (allCodes_entryIssues d) (by decide), hnone (allCodes_branches d) (by decide), hnone (allCodes_terminals d) (by decide),
    hnone (allCodes_noTerminalIssues d) (by decide), List.nil_append, List.append_nil]
  exact filter_eq_self_of_allCodes (p := (· ∈ reachCodes)) (allCodes_reachIssues d) (by decide)

/-- The issues of conditions on edges are those of the structure with their codes. -/
theorem filter_branchCodes_issues : (issues d).filter (·.code ∈ branchCodes) =
    d.nodes.zipIdx.flatMap fun x => branchIssues d (resolvedEdges d) x.1 x.2 := by
  have hnone : ∀ {codes found}, AllCodes codes found → codes.all (fun c => !decide (c ∈ branchCodes)) = true →
      found.filter (·.code ∈ branchCodes) = [] := fun h hp => filter_eq_nil_of_allCodes h hp
  simp only [issues_eq, List.filter_append, hnone (allCodes_collisionIssues d) (by decide), hnone (allCodes_edgeIssues d) (by decide),
    hnone (allCodes_entryIssues d) (by decide), hnone (allCodes_reachIssues d) (by decide), hnone (allCodes_terminals d) (by decide),
    hnone (allCodes_noTerminalIssues d) (by decide), List.nil_append, List.append_nil]
  exact filter_eq_self_of_allCodes (p := (· ∈ branchCodes)) (allCodes_branches d) (by decide)

end Build

end Workflow
