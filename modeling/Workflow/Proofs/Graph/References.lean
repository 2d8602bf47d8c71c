import Workflow.Proofs.Graph.Branches

/-!
# What is told of references, of the entry, and of ends

References are resolved once, and two lists come out of it: the edges whose two ends name nodes, and the sources that the edges
declare. Dead ends and ends with successors are found by the second, so an edge that leads nowhere still leaves its source. Each of
these issues is told of the document alone, by its ids and its declared edges (`references_told`).
-/

namespace Workflow

/-! ## Start nodes and references in a document -/

namespace Document

/-- The ids of the start nodes, in order. -/
def startIds (d : Document) : List String := (d.nodes.filter (·.kind = .start)).map (·.id)

/-- The document has one start node, and its entry names another node. -/
def EntryElsewhere (d : Document) : Prop := d.startIds.length = 1 ∧ d.Names d.entry ∧ d.entry ∉ d.startIds

instance (d : Document) : Decidable d.EntryElsewhere :=
  inferInstanceAs (Decidable (d.startIds.length = 1 ∧ d.Names d.entry ∧ d.entry ∉ d.startIds))

end Document

namespace Build

/-- The issue there is to tell of a reference, if it names no node. -/
def unknownReference (d : Document) (place : Place) (what id : String) : List Issue :=
  if d.Names id then [] else [⟨.danglingReference, place, what ++ " references unknown node '" ++ id ++ "'"⟩]

/-- What the report on a document tells with a code. -/
def findings (d : Document) (code : IssueCode) : List Issue := (Graph.refusalIssues d).filter (·.code = code)

/-- What the report on a document tells with a code at a place. -/
def findingsAt (d : Document) (code : IssueCode) (place : Place) : List Issue := (findings d code).filter (·.place = place)

/-- The issue of a node that does not end the workflow and that no edge leaves. -/
def deadEndIssue (i : Nat) (n : Node) : Issue :=
  ⟨.deadEnd, nodePlace i, "dead end: " ++ n.kind.text ++ " node '" ++ n.id ++ "' has no outgoing edges and is not an end node"⟩

/-- The issue of an end node that some edges leave. -/
def successorIssue (i : Nat) (n : Node) (count : Nat) : Issue :=
  ⟨.terminalHasSuccessor, nodePlace i,
    "end node '" ++ n.id ++ "' has " ++ toString count ++ " outgoing edge(s); end nodes must be terminal"⟩

/-- The issue of several start nodes. -/
def severalStartsIssue (starts : List String) : Issue :=
  ⟨.multipleEntries, Place.root.key "nodes",
    "workflow has " ++ toString starts.length ++ " start nodes (" ++ namedList starts ++ "), exactly one is allowed"⟩

variable {d : Document} {n : Node} {i : Nat}

/-! ## Checks that raise a code -/

/-- The issues of an entry that names another node than the only start node. -/
def mismatchIssues (d : Document) (start : Nat) : List Issue :=
  match indexOf? d d.entry with
  | none => []
  | some declared =>
    if declared = start then []
    else
      [⟨.entryMismatch, Place.root.key "entry",
        "entry names '" ++ idAt d.nodes declared ++ "' (" ++ ((d.nodes[declared]?.map (·.kind.text)).getD "") ++
          ") but the start node is '" ++ idAt d.nodes start ++ "'"⟩]

/-- The issues of the start nodes, apart from what is told of a dangling entry. -/
def startIssues (d : Document) : List Issue :=
  match starts d with
  | [] => [⟨.missingEntry, Place.root.key "nodes", "workflow has no start node"⟩]
  | [start] => mismatchIssues d start
  | several => [severalStartsIssue (several.map (idAt d.nodes))]

theorem entryIssues_eq (d : Document) :
    entryIssues d = danglingIssue d (Place.root.key "entry") "entry" d.entry ++ startIssues d := by
  rw [entryIssues, startIssues]
  congr 1
  rcases starts d with _ | ⟨a, _ | ⟨b, rest⟩⟩
  · rfl
  · rfl
  · simp only [severalStartsIssue, List.length_map]

theorem allCodes_mismatchIssues (d : Document) (start : Nat) : AllCodes [.entryMismatch] (mismatchIssues d start) := by
  rw [mismatchIssues]
  split
  · exact allCodes_nil
  · split
    · exact allCodes_nil
    · exact allCodes_singleton (by decide)

theorem allCodes_startIssues (d : Document) :
    AllCodes [.missingEntry, .entryMismatch, .multipleEntries] (startIssues d) := by
  rw [startIssues]
  split
  · exact allCodes_singleton (by decide)
  · exact (allCodes_mismatchIssues d _).mono (by decide)
  · exact allCodes_singleton (by decide)

/-- The issues of all ends of a document. -/
def endIssues (d : Document) : List Issue := d.nodes.zipIdx.flatMap fun x => terminalIssues (declaredSources d) x.1 x.2

/-- The issues of all references of a document. -/
def referenceIssues (d : Document) : List Issue :=
  edgeIssues d ++ danglingIssue d (Place.root.key "entry") "entry" d.entry

theorem allCodes_referenceIssues (d : Document) : AllCodes [.danglingReference] (referenceIssues d) :=
  allCodes_append (allCodes_edgeIssues d) (allCodes_danglingIssue d (by decide) _ _ _)

theorem allCodes_endIssues (d : Document) : AllCodes [.terminalHasSuccessor, .deadEnd] (endIssues d) := allCodes_terminals d

/-- Nothing among some issues has a code that none of them may have. -/
theorem filter_code_eq_nil {codes : List IssueCode} {found : List Issue} (h : AllCodes codes found) {code : IssueCode}
    (hcode : code ∉ codes) : found.filter (·.code = code) = [] :=
  List.filter_eq_nil_iff.mpr fun x hx heq => hcode (of_decide_eq_true heq ▸ h x hx)

/-- A code that no other check has is raised by the checks of references, of the start, and of ends alone. -/
theorem findings_eq (d : Document) {code : IssueCode} (hcode : code ∉ [.stateKeyCollision] ++ reachCodes ++ branchCodes) :
    findings d code = (referenceIssues d).filter (·.code = code) ++ ((startIssues d).filter (·.code = code) ++
      ((endIssues d).filter (·.code = code) ++ (noTerminalIssues d).filter (·.code = code))) := by
  simp only [List.mem_append, not_or] at hcode
  obtain ⟨⟨hcollision, hreach⟩, hbranch⟩ := hcode
  simp only [findings, refusalIssues_eq_issues, issues_eq, entryIssues_eq, referenceIssues, endIssues, List.filter_append,
    filter_code_eq_nil (allCodes_collisionIssues d) hcollision, filter_code_eq_nil (allCodes_reachIssues d) hreach,
    filter_code_eq_nil (allCodes_branches d) hbranch, List.nil_append, List.append_assoc]

/-! ## References -/

/-- A reference is told of exactly if it names no node. -/
theorem danglingIssue_eq (d : Document) (place : Place) (what id : String) :
    danglingIssue d place what id = unknownReference d place what id := by
  rw [unknownReference]
  split
  · next h => exact danglingIssue_eq_nil_iff.mpr h
  · next h => rw [danglingIssue, indexOf?_eq_none_iff.mpr h]

/-- Dangling references are told of in the order of the edges, the source of each before its target, and the entry comes last. -/
theorem findings_danglingReference (d : Document) : findings d .danglingReference =
    (d.edges.zipIdx.flatMap fun x =>
      unknownReference d ((edgePlace x.2).key "source") "edge source" x.1.source ++
        unknownReference d ((edgePlace x.2).key "target") "edge target" x.1.target) ++
      unknownReference d (Place.root.key "entry") "entry" d.entry := by
  rw [findings_eq d (by decide), filter_code_eq_nil (allCodes_startIssues d) (by decide),
    filter_code_eq_nil (allCodes_endIssues d) (by decide), filter_code_eq_nil (allCodes_noTerminalIssues d) (by decide)]
  simp only [List.append_nil]
  have hall : (referenceIssues d).filter (·.code = .danglingReference) = referenceIssues d :=
    filter_eq_self_of_allCodes (p := (· = .danglingReference)) (allCodes_referenceIssues d) (by decide)
  rw [hall, referenceIssues, edgeIssues]
  simp only [danglingIssue_eq]

/-! ## The start and the entry -/

/-- The start nodes are those at the start positions. -/
theorem startIds_eq (d : Document) : d.startIds = (starts d).map (idAt d.nodes) := by
  have hat : ∀ x ∈ d.nodes.zipIdx.filter (·.1.kind == .start), idAt d.nodes x.2 = x.1.id := by
    intro x hx
    exact idAt_of_getElem? (List.mem_zipIdx_iff_getElem?.mp (List.mem_filter.mp hx).1)
  have hfst : d.nodes.filter (·.kind = .start) = (d.nodes.zipIdx.filter (·.1.kind == .start)).map (·.1) := by
    calc d.nodes.filter (·.kind = .start) = (d.nodes.zipIdx.map (·.1)).filter (·.kind = .start) := by rw [List.zipIdx_map_fst]
      _ = (d.nodes.zipIdx.filter (·.1.kind == .start)).map (·.1) := List.filter_map
  rw [Document.startIds, hfst, starts, List.map_map, List.map_map]
  exact (List.map_congr_left hat).symm

/-- The codes of the start are raised by its check alone. -/
theorem findings_eq_startIssues (d : Document) {code : IssueCode}
    (hcode : code ∈ [IssueCode.missingEntry, .entryMismatch, .multipleEntries]) :
    findings d code = (startIssues d).filter (·.code = code) := by
  have hother : ∀ c ∈ [IssueCode.missingEntry, .entryMismatch, .multipleEntries],
      c ∉ [.stateKeyCollision] ++ reachCodes ++ branchCodes ∧ c ∉ [IssueCode.danglingReference] ∧
        c ∉ [IssueCode.terminalHasSuccessor, .deadEnd] ∧ c ∉ [IssueCode.noTerminal] := by decide
  obtain ⟨hrest, hreference, hend, hterminal⟩ := hother code hcode
  rw [findings_eq d hrest, filter_code_eq_nil (allCodes_referenceIssues d) hreference,
    filter_code_eq_nil (allCodes_endIssues d) hend, filter_code_eq_nil (allCodes_noTerminalIssues d) hterminal]
  simp only [List.nil_append, List.append_nil]

/-- A missing start is told of exactly if no node is a start node. -/
theorem findings_missingEntry (d : Document) : findings d .missingEntry =
    if d.startIds = [] then [⟨.missingEntry, Place.root.key "nodes", "workflow has no start node"⟩] else [] := by
  rw [findings_eq_startIssues d (by decide), startIds_eq, startIssues]
  rcases starts d with _ | ⟨a, _ | ⟨b, rest⟩⟩
  · rfl
  · exact filter_code_eq_nil (allCodes_mismatchIssues d a) (by decide)
  · rfl

/-- Several starts are told of exactly if more than one node is a start node. -/
theorem findings_multipleEntries (d : Document) : findings d .multipleEntries =
    if 1 < d.startIds.length then [severalStartsIssue d.startIds] else [] := by
  rw [findings_eq_startIssues d (by decide), startIds_eq, startIssues]
  rcases starts d with _ | ⟨a, _ | ⟨b, rest⟩⟩
  · rfl
  · exact filter_code_eq_nil (allCodes_mismatchIssues d a) (by decide)
  · have hlong : 1 < ((a :: b :: rest).map (idAt d.nodes)).length := by
      rw [List.length_map]
      exact Nat.one_lt_succ_succ _
    rw [if_pos hlong]
    rfl

/-- An entry that names a node is not the only start node exactly if it has another id. -/
theorem map_place_mismatchIssues (hnd : (ids d).Nodup) {start : Nat} (hn : d.nodes[start]? = some n) :
    (mismatchIssues d start).map (·.place) = if d.Names d.entry ∧ d.entry ≠ n.id then [Place.root.key "entry"] else [] := by
  rw [mismatchIssues]
  cases hi : indexOf? d d.entry with
  | none => rw [if_neg fun h => indexOf?_eq_none_iff.mp hi h.1]; rfl
  | some declared =>
    have hnames : d.Names d.entry := exists_indexOf?_iff.mp ⟨declared, hi⟩
    have hsame : declared = start ↔ d.entry = n.id := by
      rw [← Option.some.injEq, ← hi, indexOf?_eq_some_iff hnd]
      simp only [hn, Option.some.injEq, exists_eq_left', eq_comm]
    by_cases hd : declared = start
    · rw [if_neg fun h => h.2 (hsame.mp hd)]
      simp only [hd, if_true, List.map_nil]
    · rw [if_pos ⟨hnames, fun h => hd (hsame.mpr h)⟩]
      simp only [hd, if_false, List.map_cons, List.map_nil]

/-- A mismatch is told of, at the entry, exactly if the entry names another node than the only start node. -/
theorem findings_entryMismatch (hnd : (ids d).Nodup) :
    (findings d .entryMismatch).map (·.place) = if d.EntryElsewhere then [Place.root.key "entry"] else [] := by
  rw [findings_eq_startIssues d (by decide)]
  simp only [Document.EntryElsewhere, startIds_eq]
  rw [startIssues]
  rcases hs : starts d with _ | ⟨a, _ | ⟨b, rest⟩⟩
  · rfl
  · obtain ⟨n, hn, -⟩ := mem_starts.mp (hs ▸ List.mem_singleton_self a)
    have hall : (mismatchIssues d a).filter (·.code = .entryMismatch) = mismatchIssues d a :=
      filter_eq_self_of_allCodes (p := (· = .entryMismatch)) (allCodes_mismatchIssues d a) (by decide)
    simp only [hall, map_place_mismatchIssues hnd hn, List.map_cons, List.map_nil, List.length_singleton, List.mem_singleton,
      idAt_of_getElem? hn, true_and, ne_eq]
  · have hlong : ((a :: b :: rest).map (idAt d.nodes)).length ≠ 1 := by
      rw [List.length_map]
      exact (Nat.one_lt_succ_succ _).ne'
    rw [if_neg fun h => hlong h.1]
    rfl

/-! ## Ends -/

/-- A missing end is told of exactly if there are nodes and none is an end node. -/
theorem findings_noTerminal (d : Document) : findings d .noTerminal =
    if d.nodes ≠ [] ∧ ∀ n ∈ d.nodes, n.kind ≠ .finish then
      [⟨.noTerminal, Place.root.key "nodes", "workflow has no end node"⟩] else [] := by
  rw [findings_eq d (by decide), filter_code_eq_nil (allCodes_referenceIssues d) (by decide),
    filter_code_eq_nil (allCodes_startIssues d) (by decide), filter_code_eq_nil (allCodes_endIssues d) (by decide)]
  simp only [List.nil_append]
  have hall : (noTerminalIssues d).filter (·.code = .noTerminal) = noTerminalIssues d :=
    filter_eq_self_of_allCodes (p := (· = .noTerminal)) (allCodes_noTerminalIssues d) (by decide)
  rw [hall]
  split
  · next h =>
    have hne : noTerminalIssues d ≠ [] := by
      rw [ne_eq, noTerminalIssues_eq_nil_iff, not_or, not_exists]
      exact ⟨h.1, fun n hn => h.2 n hn.1 hn.2⟩
    rw [noTerminalIssues] at hne ⊢
    split at hne <;> simp_all
  · next h =>
    rw [noTerminalIssues_eq_nil_iff]
    by_contra hno
    rw [not_or, not_exists] at hno
    exact h ⟨hno.1, fun n hn hk => hno.2 n ⟨hn, hk⟩⟩

/-- The codes of ends are raised by their check alone. -/
theorem findings_eq_endIssues (d : Document) {code : IssueCode} (hcode : code ∈ [IssueCode.terminalHasSuccessor, .deadEnd]) :
    findings d code = (endIssues d).filter (·.code = code) := by
  have hother : ∀ c ∈ [IssueCode.terminalHasSuccessor, .deadEnd],
      c ∉ [.stateKeyCollision] ++ reachCodes ++ branchCodes ∧ c ∉ [IssueCode.danglingReference] ∧
        c ∉ [IssueCode.missingEntry, .entryMismatch, .multipleEntries] ∧ c ∉ [IssueCode.noTerminal] := by decide
  obtain ⟨hrest, hreference, hstart, hterminal⟩ := hother code hcode
  rw [findings_eq d hrest, filter_code_eq_nil (allCodes_referenceIssues d) hreference,
    filter_code_eq_nil (allCodes_startIssues d) hstart, filter_code_eq_nil (allCodes_noTerminalIssues d) hterminal]
  simp only [List.nil_append, List.append_nil]

/-- What is told of ends at a node is what its own check finds. -/
theorem findingsAt_eq (hn : d.nodes[i]? = some n) {code : IssueCode}
    (hcode : code ∈ [IssueCode.terminalHasSuccessor, .deadEnd]) :
    findingsAt d code (nodePlace i) = (terminalIssues (declaredSources d) n i).filter (·.code = code) := by
  have hat : ∀ m k, (terminalIssues (declaredSources d) m k).filter (·.place = nodePlace i) =
      if k = i then terminalIssues (declaredSources d) m k else [] := by
    intro m k
    split
    · next h => exact List.filter_eq_self.mpr fun x hx => decide_eq_true (h ▸ place_of_mem_terminalIssues hx)
    · next h =>
      refine List.filter_eq_nil_iff.mpr fun x hx heq => h (nodePlace_injective ?_)
      rw [← place_of_mem_terminalIssues hx, of_decide_eq_true heq]
  rw [findingsAt, findings_eq_endIssues d hcode, List.filter_comm, endIssues, List.filter_flatMap, flatMap_zipIdx_eq hn]
  · rw [Nat.zero_add, hat, if_pos rfl]
  · intro x hx
    rw [hat, if_neg fun h => hx (by omega)]

/-- A dead end is told of at a node, once, exactly if the node is no end node and no edge is declared to leave it. -/
theorem findingsAt_deadEnd (hnd : (ids d).Nodup) (hn : d.nodes[i]? = some n) : findingsAt d .deadEnd (nodePlace i) =
    if n.kind ≠ .finish ∧ d.leaving n.id = [] then [deadEndIssue i n] else [] := by
  rw [findingsAt_eq hn (by decide), terminalIssues, count_declaredSources hnd hn]
  simp only [isTerminal_iff, List.length_eq_zero_iff]
  by_cases hk : n.kind = .finish <;> by_cases hout : d.leaving n.id = [] <;> simp [hk, hout, deadEndIssue]

/-- An end with successors is told of at a node, once, exactly if the node is an end node and some edges are declared to leave it. -/
theorem findingsAt_terminalHasSuccessor (hnd : (ids d).Nodup) (hn : d.nodes[i]? = some n) :
    findingsAt d .terminalHasSuccessor (nodePlace i) =
      if n.kind = .finish ∧ d.leaving n.id ≠ [] then [successorIssue i n (d.leaving n.id).length] else [] := by
  rw [findingsAt_eq hn (by decide), terminalIssues, count_declaredSources hnd hn]
  simp only [isTerminal_iff, List.length_eq_zero_iff]
  by_cases hk : n.kind = .finish <;> by_cases hout : d.leaving n.id = [] <;> simp [hk, hout, successorIssue]

/-- What is told of ends is told at nodes. -/
theorem exists_nodePlace_of_mem_findings {x : Issue} {code : IssueCode} (hcode : code ∈ [IssueCode.terminalHasSuccessor, .deadEnd])
    (hx : x ∈ findings d code) : ∃ i n, d.nodes[i]? = some n ∧ x.place = nodePlace i := by
  rw [findings_eq_endIssues d hcode] at hx
  obtain ⟨⟨n, i⟩, hn, hmem⟩ := List.mem_flatMap.mp (List.mem_filter.mp hx).1
  exact ⟨i, n, List.mem_zipIdx_iff_getElem?.mp hn, place_of_mem_terminalIssues hmem⟩

/-! ## Everything that is told -/

/-- What the report on a document tells of references, of the start nodes, and of ends, by the ids and the declared edges alone. -/
structure ReferencesTold (d : Document) : Prop where
  references : findings d .danglingReference =
    (d.edges.zipIdx.flatMap fun x =>
      unknownReference d ((edgePlace x.2).key "source") "edge source" x.1.source ++
        unknownReference d ((edgePlace x.2).key "target") "edge target" x.1.target) ++
      unknownReference d (Place.root.key "entry") "entry" d.entry
  deadEnds : ∀ i n, d.nodes[i]? = some n → findingsAt d .deadEnd (nodePlace i) =
    if n.kind ≠ .finish ∧ d.leaving n.id = [] then [deadEndIssue i n] else []
  successors : ∀ i n, d.nodes[i]? = some n → findingsAt d .terminalHasSuccessor (nodePlace i) =
    if n.kind = .finish ∧ d.leaving n.id ≠ [] then [successorIssue i n (d.leaving n.id).length] else []
  noMoreEnds : ∀ x ∈ Graph.refusalIssues d, x.code = .deadEnd ∨ x.code = .terminalHasSuccessor →
    ∃ i n, d.nodes[i]? = some n ∧ x.place = nodePlace i
  noTerminal : findings d .noTerminal = if d.nodes ≠ [] ∧ ∀ n ∈ d.nodes, n.kind ≠ .finish then
    [⟨.noTerminal, Place.root.key "nodes", "workflow has no end node"⟩] else []
  noStart : findings d .missingEntry = if d.startIds = [] then
    [⟨.missingEntry, Place.root.key "nodes", "workflow has no start node"⟩] else []
  severalStarts : findings d .multipleEntries = if 1 < d.startIds.length then [severalStartsIssue d.startIds] else []
  entryElsewhere : (findings d .entryMismatch).map (·.place) = if d.EntryElsewhere then [Place.root.key "entry"] else []

end Build

open Build

/-- In a document with distinct ids, what is told of references, of the start, and of ends follows from the declared edges exactly. -/
theorem references_told (d : Document) (hnd : (d.nodes.map (·.id)).Nodup) : ReferencesTold d where
  references := findings_danglingReference d
  deadEnds := fun i n hn => findingsAt_deadEnd hnd hn
  successors := fun i n hn => findingsAt_terminalHasSuccessor hnd hn
  noMoreEnds := fun x hx hcode => by
    have hmem : x ∈ findings d x.code := List.mem_filter.mpr ⟨hx, decide_eq_true rfl⟩
    exact exists_nodePlace_of_mem_findings (by rcases hcode with h | h <;> rw [h] <;> decide) hmem
  noTerminal := findings_noTerminal d
  noStart := findings_missingEntry d
  severalStarts := findings_multipleEntries d
  entryElsewhere := findings_entryMismatch hnd

/-- Loose ends: an edge that leads nowhere is all that leaves the start, an edge leaves the end, a step leads nowhere, one edge comes
from nowhere, and the entry is not the start. -/
def looseEnds : Document where
  name := "loose ends"
  description := none
  version := none
  entry := "finish"
  nodes := [⟨"begin", .start [], none⟩, ⟨"step", .transform [], none⟩, ⟨"finish", .finish [], none⟩]
  edges := [⟨"begin", "nowhere", none⟩, ⟨"finish", "step", none⟩, ⟨"void", "finish", none⟩, ⟨"finish", "gone", none⟩]

/-- Of the loose ends each is told of at its place, and the start is no dead end. -/
theorem references_told_looseEnds :
    (looseEnds.nodes.map (·.id)).Nodup ∧ ReferencesTold looseEnds ∧
      (findings looseEnds .danglingReference).map (·.place) =
        [(edgePlace 0).key "target", (edgePlace 2).key "source", (edgePlace 3).key "target"] ∧
      (findings looseEnds .deadEnd).map (·.place) = [nodePlace 1] ∧
      findingsAt looseEnds .terminalHasSuccessor (nodePlace 2) = [successorIssue 2 ⟨"finish", .finish [], none⟩ 2] ∧
      (findings looseEnds .entryMismatch).map (·.place) = [Place.root.key "entry"] :=
  ⟨by decide, references_told looseEnds (by decide), by decide, by decide, by decide, by decide⟩

end Workflow
