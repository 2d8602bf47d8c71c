import Workflow.Proofs.Package.Assembly
import Workflow.Proofs.Package.Paths
import Workflow.Proofs.Package.Rows
import Workflow.Proofs.Package.State

/-!
# The state read back

The type of the state, read in its own file as it is declared there, in one of two forms. A call takes the keys as texts, and they are
read as they are. A class takes them as names in its body, and there a name that begins with two underscores is known by another name,
and `__debug__` may not stand (`state_read_back`).
-/

namespace Workflow

open Call LexMode

/-! ## State types -/

/-- A type with a name and with the types of its keys. -/
structure StateType where
  name : String
  fields : Keyed FieldType
  deriving DecidableEq

namespace StateType

/-- Whether a name is private to the class that it is written in: it begins with two underscores and does not end with two. -/
def isPrivate (name : String) : Bool := ['_', '_'].isPrefixOf name.toList && !(['_', '_'].isSuffixOf name.toList)

/-- What a name in the body of a class is known by. A private name comes behind the name of the class, which goes without the
underscores that it begins with. -/
def mangled (className name : String) : String :=
  let bare := className.toList.dropWhile (· == '_')
  if isPrivate name && !bare.isEmpty then String.ofList ('_' :: bare ++ name.toList) else name

/-- The keywords that are names all the same. -/
def softKeywords : List String := ["match", "case", "type"]

/-- Whether something of a name may be declared in the body of a class. -/
def mayStand (name : String) : Bool :=
  !startsWithDigit name && (name ∉ keywords || name ∈ softKeywords) && name != "__debug__"

/-- Names with commas between them. -/
def names? : List Lexeme → Option (List String)
  | [.name s] => some [s]
  | .name s :: .mark ',' :: rest => (names? rest).map (s :: ·)
  | _ => none

/-- The names that a statement imports from the module of types. -/
def imported? : List Lexeme → Option (List String)
  | .name "from" :: .name "typing" :: .name "import" :: rest => names? rest
  | _ => none

/-- The type that a name stands for where some names are imported. -/
def typeNamed? (imported : List String) (name : String) : Option FieldType :=
  if name = "Any" ∧ "Any" ∉ imported then none else FieldType.all.find? fun type => type.annotation == name

/-- The field that a statement in the body of a class declares, if it declares one. -/
def field? (imported : List String) (className : String) : List Lexeme → Option (List (String × FieldType))
  | [.name key, .mark ':', .name type] =>
    if mayStand key then (typeNamed? imported type).map fun type => [(mangled className key, type)] else none
  | [.name "pass"] => some []
  | _ => none

/-- Whether some rows are the body of a class: there is one, they are indented, and all of them alike. -/
def isBody : List Row → Bool
  | [] => false
  | first :: rest => 0 < first.depth && rest.all (·.depth == first.depth)

/-- The type that a class with a body declares. -/
def ofClass? (imported : List String) (body : List Row) : List Lexeme → Option StateType
  | [.name "class", .name name, .mark '(', .name "TypedDict", .mark ',', .name "total", .mark '=', .name "False", .mark ')', .mark ':'] =>
    if isBody body then
      (readAll? (field? imported name) (body.map Row.lexemes)).map fun fields => ⟨name, Keyed.ofList fields⟩
    else none
  | _ => none

/-- The entries of a table of types up to its closing bracket, and what follows it. -/
def entries? (imported : List String) : List Lexeme → Option (List (String × FieldType) × List Lexeme)
  | .mark '\x7d' :: rest => some ([], rest)
  | .text key :: .mark ':' :: .name type :: .mark ',' :: rest => do
    let type ← typeNamed? imported type
    let (more, rest) ← entries? imported rest
    return ((key, type) :: more, rest)
  | _ => none

/-- The type that a call declares, which is told the name that it is given. -/
def ofCall? (imported : List String) : List Lexeme → Option StateType
  | .name name :: .mark '=' :: .name "TypedDict" :: .mark '(' :: .text told :: .mark ',' :: .mark '\x7b' :: rest =>
    match entries? imported rest with
    | some (fields, [.mark ',', .name "total", .mark '=', .name "False", .mark ',', .mark ')']) =>
      if told = name then some ⟨name, Keyed.ofList fields⟩ else none
    | _ => none
  | _ => none

/-- The type that the rows of a file declare: what they import, and a class with its body or a call. -/
def ofRows? : List Row → Option StateType
  | ⟨0, first⟩ :: ⟨0, definition⟩ :: body => do
    let imported ← imported? first
    if "TypedDict" ∈ imported then
      if body.isEmpty then ofCall? imported definition else ofClass? imported body definition
    else none
  | _ => none

/-- The type that is declared in the text of a file. -/
def ofText? (text : String) : Option StateType := (rows? .empty (linesOf text)).bind ofRows?

end StateType

/-! ## Names of types -/

/-- The names that the file of a state imports. -/
def typingNames (state : Keyed FieldType) : List String := if state.any (·.2 == .any) then ["Any", "TypedDict"] else ["TypedDict"]

/-- The annotation of a type of the state stands for it. -/
theorem typeNamed?_annotation {state : Keyed FieldType} {entry : String × FieldType} (h : entry ∈ state) :
    StateType.typeNamed? (typingNames state) entry.snd.annotation = some entry.2 := by
  have hany : entry.2 = .any → "Any" ∈ typingNames state := by
    intro hentry
    have hsome : state.any (·.2 == .any) = true := List.any_eq_true.mpr ⟨entry, h, beq_iff_eq.mpr hentry⟩
    rw [typingNames, if_pos hsome]
    exact List.mem_cons_self
  rw [StateType.typeNamed?]
  cases htype : entry.2 with
  | any => rw [if_neg fun hno => hno.2 (hany htype)]; rfl
  | _ => rfl

/-- The annotation of a type is a name. -/
theorem isNameText_annotation (type : FieldType) : IsNameText type.annotation := by
  have hall : isIdentifier type.annotation = true := by cases type <;> rfl
  exact (isIdentifier_iff.mp hall).1

/-- A name begins with a character other than a space. -/
theorem exists_head_of_isNameText {s : String} (h : IsNameText s) : ∃ c, s.toList.head? = some c ∧ c ≠ ' ' := by
  obtain ⟨hne, hchars⟩ := h
  rw [ne_eq, ← String.toList_eq_nil_iff] at hne
  obtain ⟨c, cs, hcs⟩ := List.exists_cons_of_ne_nil hne
  refine ⟨c, by rw [hcs, List.head?_cons], fun hspace => ?_⟩
  have hc := hchars c (by rw [hcs]; exact List.mem_cons_self)
  rw [hspace] at hc
  exact absurd hc (by decide)

namespace Package

variable {g : Graph} {l : Layout} {options : Options} {state : Keyed FieldType}

/-! ## The rows of a class -/

/-- The statement that imports what the file of a state needs. -/
def typingImport (state : Keyed FieldType) : List Lexeme :=
  if state.any (·.2 == .any) then
    [.name "from", .name "typing", .name "import", .name "Any", .mark ',', .name "TypedDict"]
  else [.name "from", .name "typing", .name "import", .name "TypedDict"]

theorem imported?_typingImport (state : Keyed FieldType) : StateType.imported? (typingImport state) = some (typingNames state) := by
  rw [typingImport, typingNames]
  split <;> rfl

theorem hasRows_typingImport (state : Keyed FieldType) :
    HasRows [top (if state.any (·.2 == .any) then "from typing import Any, TypedDict" else "from typing import TypedDict")]
      [⟨0, typingImport state⟩] := by
  rw [typingImport]
  split
  · rfl
  · rfl

/-- The statement that a class begins with. -/
def classHead (stateClass : String) : List Lexeme :=
  [.name "class", .name stateClass, .mark '(', .name "TypedDict", .mark ',', .name "total", .mark '=', .name "False", .mark ')',
    .mark ':']

theorem hasRows_classHead (h : IsNameText l.stateClass) :
    HasRows [top ("class " ++ l.stateClass ++ "(TypedDict, total=False):")] [⟨0, classHead l.stateClass⟩] := by
  have hclean : OneLine ("class " ++ l.stateClass ++ "(TypedDict, total=False):") :=
    (OneLine.append (by decide) h.oneLine).append (by decide)
  have hopen : between.scan "class ".toList = some ([.name "class"], between) := rfl
  have hclose : (name l.stateClass.toList).scan "(TypedDict, total=False):".toList =
      some ([.name l.stateClass, .mark '(', .name "TypedDict", .mark ',', .name "total", .mark '=', .name "False", .mark ')',
        .mark ':'], between) := scan_leave l.stateClass rfl rfl
  have hscan := scan_append_string (scan_append_string hopen (scan_nameText h)) hclose
  have hstates : States [top ("class " ++ l.stateClass ++ "(TypedDict, total=False):")] [classHead l.stateClass] :=
    states_statement hclean hscan (rfl : between.finish = some []) rfl rfl (List.cons_ne_nil _ _)
  exact hasRows_statement hclean (head?_append (head?_append (c := 'c') (by decide) _) _) (by decide) hstates

/-- The statement that declares a key in the body of a class. -/
def memberStatement (entry : String × FieldType) : List Lexeme := [.name entry.1, .mark ':', .name entry.snd.annotation]

theorem hasRows_member {entry : String × FieldType} (h : IsNameText entry.1) :
    HasRows [inner (entry.1 ++ ": " ++ entry.snd.annotation)] [⟨4, memberStatement entry⟩] := by
  have htype := isNameText_annotation entry.2
  have hclean : OneLine (entry.1 ++ ": " ++ entry.snd.annotation) := (h.oneLine.append (by decide)).append htype.oneLine
  have hcolon : (name entry.1.toList).scan ": ".toList = some ([.name entry.1, .mark ':'], between) := scan_leave entry.1 rfl rfl
  have hlast : (name entry.snd.annotation.toList).finish = some [.name entry.snd.annotation] := by
    rw [LexMode.finish, String.ofList_toList]
  have hscan := scan_append_string (scan_append_string (scan_nameText h) hcolon) (scan_nameText htype)
  have hstates : States [inner (entry.1 ++ ": " ++ entry.snd.annotation)] [memberStatement entry] :=
    states_statement hclean hscan hlast rfl rfl (List.cons_ne_nil _ _)
  obtain ⟨c, hhead, hc⟩ := exists_head_of_isNameText h
  exact hasRows_statement hclean (head?_append (head?_append hhead _) _) hc hstates

/-- The rows of the body of a class. -/
def memberRows (state : Keyed FieldType) : List Row :=
  if state.isEmpty then [⟨4, [.name "pass"]⟩] else state.map fun entry => ⟨4, memberStatement entry⟩

theorem hasRows_stateClassLines (h : IsNameText l.stateClass) (hkeys : ∀ key ∈ state.keys, IsNameText key) :
    HasRows (stateClassLines l state) (⟨0, classHead l.stateClass⟩ :: memberRows state) := by
  have hbody : HasRows (if state.isEmpty then [inner "pass"] else state.map fun entry => inner (entry.1 ++ ": " ++ entry.snd.annotation))
      (memberRows state) := by
    rw [memberRows]
    split
    · rfl
    · exact hasRows_map fun entry hentry => hasRows_member (hkeys _ (List.mem_map_of_mem hentry))
  exact (hasRows_classHead h).append hbody

/-! ## The row of a call -/

/-- The lexemes of an entry in the table of a call. -/
def entryLexemes (entry : String × FieldType) : List Lexeme := [.text entry.1, .mark ':', .name entry.snd.annotation, .mark ',']

/-- The statement of a call, up to its table. -/
def callHead (stateClass : String) : List Lexeme :=
  [.name stateClass, .mark '=', .name "TypedDict", .mark '(', .text stateClass, .mark ',', .mark '{']

/-- The statement of a call. -/
def callStatement (stateClass : String) (state : Keyed FieldType) : List Lexeme :=
  callHead stateClass ++ state.flatMap entryLexemes ++
    ([.mark '}', .mark ',', .name "total", .mark '=', .name "False", .mark ',', .mark ')'] : List Lexeme)

/-- The entries of the table, read within open brackets. -/
theorem statements?_entryLines {begun : List Lexeme} (hopen : nesting 0 begun ≠ 0) (state : Keyed FieldType)
    (rest : List (List Char)) :
    statements? begun (((state.map fun entry => inner2 (stringLiteral entry.1 ++ ": " ++ entry.snd.annotation ++ ",")).flatMap
        Line.physical).map String.toList ++ rest) =
      statements? (begun ++ state.flatMap entryLexemes) rest := by
  induction state generalizing begun with
  | nil => rw [List.flatMap_nil, List.append_nil]; rfl
  | cons entry state ih =>
    have htype := isNameText_annotation entry.2
    have hclean : OneLine (stringLiteral entry.1 ++ ": " ++ entry.snd.annotation ++ ",") :=
      (((oneLine_stringLiteral entry.1).append (by decide)).append htype.oneLine).append (by decide)
    have hcolon : between.scan ": ".toList = some ([.mark ':'], between) := rfl
    have hcomma : (name entry.snd.annotation.toList).scan ",".toList = some ([.name entry.snd.annotation, .mark ','], between) :=
      scan_leave _ rfl rfl
    have hscan : between.scan (stringLiteral entry.1 ++ ": " ++ entry.snd.annotation ++ ",").toList =
        some (entryLexemes entry, between) :=
      scan_append_string (scan_append_string (scan_append_string (scan_stringLiteral entry.1) hcolon) (scan_nameText htype)) hcomma
    have hnesting : nesting 0 (begun ++ (entryLexemes entry ++ [])) ≠ 0 := by
      rw [nesting, List.foldl_append]
      exact hopen
    rw [List.map_cons, List.flatMap_cons, List.map_append, List.append_assoc,
      statements?_of_open (inner2 (stringLiteral entry.1 ++ ": " ++ entry.snd.annotation ++ ",")) hclean hscan
        (rfl : between.finish = some []) hnesting, ih hnesting, List.append_nil, List.append_assoc, List.flatMap_cons]

/-- The entries of a table leave the brackets as they are. -/
theorem nesting_entryLexemes (depth : Nat) (state : Keyed FieldType) : nesting depth (state.flatMap entryLexemes) = depth := by
  induction state with
  | nil => rfl
  | cons entry state ih => exact ih

/-- The lines of a call before its table. -/
theorem statements?_callHead (h : IsNameText l.stateClass) (rest : List (List Char)) :
    statements? [] ((top (l.stateClass ++ " = TypedDict(")).physical.map String.toList ++
      ((inner (stringLiteral l.stateClass ++ ",")).physical.map String.toList ++
      ((inner "\x7b").physical.map String.toList ++ rest))) = statements? (callHead l.stateClass) rest := by
  have hhead : (name l.stateClass.toList).scan " = TypedDict(".toList =
      some ([.name l.stateClass, .mark '=', .name "TypedDict", .mark '('], between) := scan_leave l.stateClass rfl rfl
  have hcomma : between.scan ",".toList = some ([.mark ','], between) := rfl
  have hopen : between.scan "\x7b".toList = some ([.mark '\x7b'], between) := rfl
  have hdone : between.finish = some [] := rfl
  have hfirst := scan_append_string (scan_nameText h) hhead
  have hname := scan_append_string (scan_stringLiteral l.stateClass) hcomma
  rw [statements?_of_open (top (l.stateClass ++ " = TypedDict(")) (h.oneLine.append (by decide)) hfirst hdone
      (by exact Nat.one_ne_zero),
    statements?_of_open (inner (stringLiteral l.stateClass ++ ",")) ((oneLine_stringLiteral _).append (by decide)) hname hdone
      (by exact Nat.one_ne_zero),
    statements?_of_open (inner "\x7b") (by decide) hopen hdone (by exact Nat.succ_ne_zero 1)]
  rfl

/-- The lines of a call behind its table. -/
theorem statements?_callEnd (stateClass : String) (state : Keyed FieldType) (rest : List (List Char)) :
    statements? (callHead stateClass ++ state.flatMap entryLexemes) ((inner "\x7d,").physical.map String.toList ++
      ((inner "total=False,").physical.map String.toList ++ ((top ")").physical.map String.toList ++ rest))) =
      (statements? [] rest).map ([callStatement stateClass state] ++ ·) := by
  have hclose : between.scan "\x7d,".toList = some ([.mark '\x7d', .mark ','], between) := rfl
  have htotal : between.scan "total=False,".toList = some ([.name "total", .mark '=', .name "False", .mark ','], between) := rfl
  have hend : between.scan ")".toList = some ([.mark ')'], between) := rfl
  have hdone : between.finish = some [] := rfl
  have hdepth : nesting 0 (callHead stateClass ++ state.flatMap entryLexemes) = 2 := nesting_entryLexemes 2 state
  have hstatement : callHead stateClass ++ state.flatMap entryLexemes ++ ([Lexeme.mark '\x7d', .mark ','] ++ []) ++
      ([Lexeme.name "total", .mark '=', .name "False", .mark ','] ++ []) ++ ([Lexeme.mark ')'] ++ []) =
        callStatement stateClass state := by
    simp only [callStatement, List.append_assoc, List.cons_append, List.nil_append]
  rw [← hstatement]
  generalize callHead stateClass ++ state.flatMap entryLexemes = table at hdepth
  have hnesting : ∀ ls, nesting 0 (table ++ ls) = nesting 2 ls := fun ls => by rw [nesting_append, hdepth]
  have hopen : nesting 0 (table ++ ([Lexeme.mark '\x7d', .mark ','] ++ [])) ≠ 0 := by
    rw [hnesting]
    exact Nat.one_ne_zero
  have hstill : nesting 0 (table ++ ([Lexeme.mark '\x7d', .mark ','] ++ []) ++
      ([Lexeme.name "total", .mark '=', .name "False", .mark ','] ++ [])) ≠ 0 := by
    rw [List.append_assoc, hnesting]
    exact Nat.one_ne_zero
  have hclosed : nesting 0 (table ++ ([Lexeme.mark '\x7d', .mark ','] ++ []) ++
      ([Lexeme.name "total", .mark '=', .name "False", .mark ','] ++ []) ++ ([Lexeme.mark ')'] ++ [])) = 0 := by
    rw [List.append_assoc, List.append_assoc, hnesting]
    rfl
  rw [statements?_of_open (inner "\x7d,") (by decide) hclose hdone hopen,
    statements?_of_open (inner "total=False,") (by decide) htotal hdone hstill,
    statements?_of_closed (top ")") (by decide) hend hdone hclosed (by simp)]

theorem states_stateCallLines (h : IsNameText l.stateClass) (state : Keyed FieldType) :
    States (stateCallLines l state) [callStatement l.stateClass state] := by
  intro rest
  have hlines : ((stateCallLines l state).flatMap Line.physical).map String.toList ++ rest =
      (top (l.stateClass ++ " = TypedDict(")).physical.map String.toList ++
        ((inner (stringLiteral l.stateClass ++ ",")).physical.map String.toList ++
        ((inner "\x7b").physical.map String.toList ++
        (((state.map fun entry => inner2 (stringLiteral entry.1 ++ ": " ++ entry.snd.annotation ++ ",")).flatMap
          Line.physical).map String.toList ++
        ((inner "\x7d,").physical.map String.toList ++ ((inner "total=False,").physical.map String.toList ++
          ((top ")").physical.map String.toList ++ rest)))))) := by
    simp only [stateCallLines, List.flatMap_append, List.flatMap_cons, List.flatMap_nil, List.map_append, List.append_assoc,
      List.append_nil]
  have hopen : nesting 0 (callHead l.stateClass) ≠ 0 := Nat.succ_ne_zero 1
  rw [hlines, statements?_callHead h, statements?_entryLines hopen, statements?_callEnd]

/-- The call is one row. -/
theorem hasRows_stateCallLines (h : IsNameText l.stateClass) (state : Keyed FieldType) :
    HasRows (stateCallLines l state) [⟨0, callStatement l.stateClass state⟩] := by
  obtain ⟨c, hhead, hc⟩ := exists_head_of_isNameText h
  have hleave : (name l.stateClass.toList).scan " = TypedDict(".toList =
      some ([.name l.stateClass, .mark '=', .name "TypedDict", .mark '('], between) := scan_leave l.stateClass rfl rfl
  have hline := lexemes?_of_scan (scan_append_string (scan_nameText h) hleave) (rfl : between.finish = some [])
  have hclean : OneLine (l.stateClass ++ " = TypedDict(") := h.oneLine.append (by decide)
  have hrows := hasRows_of_states (l := top (l.stateClass ++ " = TypedDict(")) hclean (head?_append hhead _) hc hline
    (List.cons_ne_nil _ _) (states_stateCallLines h state)
  exact hrows

/-! ## The rows of the file -/

/-- The rows of the file of a state. -/
def stateRows (l : Layout) (state : Keyed FieldType) : List Row :=
  ⟨0, typingImport state⟩ ::
    if state.keys.all isIdentifier then ⟨0, classHead l.stateClass⟩ :: memberRows state
    else [⟨0, callStatement l.stateClass state⟩]

theorem hasRows_stateLines (h : IsNameText l.stateClass) :
    HasRows (stateLines g l options) (stateRows l (stateSchema g)) := by
  have hblank : HasRows [blankLine, blankLine] [] := hasRows_nil (states_blankLine.append states_blankLine)
  have hheader : HasRows (header g options "Shared state schema") [] := hasRows_nil (states_header (by decide))
  have hbody : HasRows (if (stateSchema g).keys.all isIdentifier then stateClassLines l (stateSchema g)
      else stateCallLines l (stateSchema g))
      (if (stateSchema g).keys.all isIdentifier then ⟨0, classHead l.stateClass⟩ :: memberRows (stateSchema g)
        else [⟨0, callStatement l.stateClass (stateSchema g)⟩]) := by
    split
    · next hall =>
      exact hasRows_stateClassLines h fun key hkey => (isIdentifier_iff.mp (List.all_eq_true.mp hall key hkey)).1
    · exact hasRows_stateCallLines h _
  exact ((hheader.append ((hasRows_typingImport (stateSchema g)).append hblank)).append hbody)

end Package

/-! ## Reading the rows -/

namespace StateType

variable {imported : List String} {className : String} {state : Keyed FieldType}

/-- The entries of a table up to its closing bracket. -/
theorem entries?_entryLexemes {entries : List (String × FieldType)}
    (h : ∀ entry ∈ entries, typeNamed? imported entry.snd.annotation = some entry.2) (rest : List Lexeme) :
    entries? imported (entries.flatMap Package.entryLexemes ++ .mark '\x7d' :: rest) = some (entries, rest) := by
  induction entries with
  | nil => rfl
  | cons entry entries ih =>
    rw [List.forall_mem_cons] at h
    rw [List.flatMap_cons, List.append_assoc]
    simp only [Package.entryLexemes, List.cons_append, List.nil_append, entries?, h.1, ih h.2, Option.bind_eq_bind, Option.pure_def,
      Option.bind_some]

/-- A call declares what is in its table. -/
theorem ofCall?_callStatement (h : ∀ entry ∈ state, typeNamed? imported entry.snd.annotation = some entry.2) (stateClass : String) :
    ofCall? imported (Package.callStatement stateClass state) = some ⟨stateClass, Keyed.ofList state⟩ := by
  have hentries := entries?_entryLexemes h [.mark ',', .name "total", .mark '=', .name "False", .mark ',', .mark ')']
  simp only [Package.callStatement, Package.callHead, List.cons_append, List.nil_append, ofCall?, hentries, if_true]

/-- An identifier may be declared in the body of a class, unless it is `__debug__`. -/
theorem mayStand_of_isIdentifier {key : String} (h : isIdentifier key = true) : mayStand key = (key != "__debug__") := by
  obtain ⟨-, hdigit, hkeyword⟩ := isIdentifier_iff.mp h
  rw [mayStand, hdigit, decide_eq_true hkeyword]
  rfl

/-- The fields that the body of a class declares, each by the name that it is known by. -/
theorem readAll?_memberRows (hkeys : ∀ key ∈ state.keys, isIdentifier key = true) (hdebug : "__debug__" ∉ state.keys)
    (h : ∀ entry ∈ state, typeNamed? imported entry.snd.annotation = some entry.2) :
    readAll? (field? imported className) ((Package.memberRows state).map Row.lexemes) =
      some (state.map fun entry => (mangled className entry.1, entry.2)) := by
  rw [Package.memberRows]
  split
  · next hempty =>
    rw [List.isEmpty_iff] at hempty
    rw [hempty]
    rfl
  · have hread : ∀ entry ∈ state, field? imported className (Package.memberStatement entry) =
        some [(mangled className entry.1, entry.2)] := by
      intro entry hentry
      have hkey : entry.1 ∈ state.keys := List.mem_map_of_mem hentry
      have hne : (entry.1 != "__debug__") = true := bne_iff_ne.mpr fun heq => hdebug (heq ▸ hkey)
      simp only [Package.memberStatement, field?, mayStand_of_isIdentifier (hkeys _ hkey), hne, if_true, h entry hentry,
        Option.map_some]
    rw [List.map_map]
    exact (readAll?_map hread).trans (congrArg some List.map_eq_flatMap.symm)

theorem readAll?_eq_none {α : Type} {read : List Lexeme → Option (List α)} {statements : List (List Lexeme)}
    {statement : List Lexeme} (hmem : statement ∈ statements) (h : read statement = none) : readAll? read statements = none := by
  induction statements with
  | nil => cases hmem
  | cons first statements ih =>
    rw [readAll?]
    rcases List.mem_cons.mp hmem with rfl | hmem
    · rw [h]
      rfl
    · rw [ih hmem]
      cases read first <;> rfl

/-- A class body that declares something of the name `__debug__` is not understood. -/
theorem readAll?_memberRows_of_debug (hdebug : "__debug__" ∈ state.keys) :
    readAll? (field? imported className) ((Package.memberRows state).map Row.lexemes) = none := by
  obtain ⟨entry, hentry, hname⟩ := List.mem_map.mp hdebug
  have hrefused : field? imported className (Package.memberStatement entry) = none := by
    rw [Package.memberStatement, hname]
    rfl
  refine readAll?_eq_none ?_ hrefused
  rw [Package.memberRows, if_neg (by simp [List.ne_nil_of_mem hentry]), List.map_map]
  exact List.mem_map_of_mem hentry

/-- The rows of the body of a class are one. -/
theorem isBody_memberRows (state : Keyed FieldType) : isBody (Package.memberRows state) = true := by
  rw [Package.memberRows]
  cases state with
  | nil => rfl
  | cons entry state => simp [isBody]

/-- What the rows of the file of a state declare: by a call the state, and by a class the state with its names as they are known. -/
theorem ofRows?_stateRows (l : Layout) (state : Keyed FieldType) :
    ofRows? (Package.stateRows l state) =
      if state.keys.all isIdentifier then
        if "__debug__" ∈ state.keys then none
        else some ⟨l.stateClass, Keyed.ofList (state.map fun entry => (mangled l.stateClass entry.1, entry.2))⟩
      else some ⟨l.stateClass, Keyed.ofList state⟩ := by
  have htypes : ∀ entry ∈ state, typeNamed? (typingNames state) entry.snd.annotation = some entry.2 :=
    fun entry hentry => typeNamed?_annotation hentry
  have htyped : "TypedDict" ∈ typingNames state := by
    rw [typingNames]
    split <;> decide
  have hbody : (Package.memberRows state).isEmpty = false := by
    have hone := isBody_memberRows state
    cases hrows : Package.memberRows state with
    | nil => rw [hrows] at hone; cases hone
    | cons row rows => rfl
  rw [Package.stateRows]
  by_cases hall : state.keys.all isIdentifier = true
  · rw [if_pos hall, if_pos hall]
    simp only [ofRows?, Package.imported?_typingImport, Option.bind_eq_bind, Option.bind_some, htyped, if_true, hbody,
      Bool.false_eq_true, if_false, Package.classHead, ofClass?, isBody_memberRows]
    by_cases hdebug : "__debug__" ∈ state.keys
    · rw [if_pos hdebug, readAll?_memberRows_of_debug hdebug]
      rfl
    · rw [if_neg hdebug, readAll?_memberRows (List.all_eq_true.mp hall) hdebug htypes]
      rfl
  · rw [if_neg hall, if_neg hall]
    simp only [ofRows?, Package.imported?_typingImport, Option.bind_eq_bind, Option.bind_some, htyped, if_true, List.isEmpty_nil,
      ofCall?_callStatement htypes]

/-! ## Private names -/

theorem mangled_of_not_private {key : String} (h : isPrivate key = false) : mangled className key = key := by
  rw [mangled, h]
  rfl

/-- In a class whose name begins with no underscore nothing is known by a private name. -/
theorem isPrivate_mangled {c : Char} {rest : List Char} (hclass : className.toList = c :: rest) (hc : c ≠ '_') (key : String) :
    isPrivate (mangled className key) = false := by
  have hbare : className.toList.dropWhile (· == '_') = c :: rest := by
    rw [hclass, List.dropWhile_cons_of_neg (by simpa using hc)]
  cases hprivate : isPrivate key with
  | false => rw [mangled_of_not_private hprivate, hprivate]
  | true =>
    rw [mangled, hprivate, hbare]
    simp [isPrivate, Ne.symm hc]

/-- What a file declares for a state. It is the state itself, unless all keys are identifiers, which stand in the body of a class then, and
one of them is private there or may not stand there. -/
structure Declares (state : Keyed FieldType) (className : String) (declared : Option StateType) : Prop where
  whole : declared = some ⟨className, state⟩ ↔
    ¬((∀ key ∈ state.keys, isIdentifier key = true) ∧ ∃ key ∈ state.keys, isPrivate key = true ∨ key = "__debug__")
  classed : (∀ key ∈ state.keys, isIdentifier key = true) → "__debug__" ∉ state.keys →
    declared = some ⟨className, Keyed.ofList (state.map fun entry => (mangled className entry.1, entry.2))⟩
  refused : (∀ key ∈ state.keys, isIdentifier key = true) → "__debug__" ∈ state.keys → declared = none
  lost : (∀ key ∈ state.keys, isIdentifier key = true) → ∀ type, declared = some type →
    ∀ key ∈ state.keys, isPrivate key = true → key ∉ type.fields.keys

/-- No private key is among the names that keys are known by. -/
theorem not_mem_mangled {c : Char} {rest : List Char} (hclass : className.toList = c :: rest) (hc : c ≠ '_') {key : String}
    (hkey : isPrivate key = true) :
    key ∉ (Keyed.ofList (state.map fun entry => (mangled className entry.1, entry.2))).keys := by
  rw [Keyed.mem_keys_ofList, List.map_map, List.mem_map]
  intro hmem
  obtain ⟨entry, -, hentry⟩ := hmem
  rw [← hentry, Function.comp_apply, isPrivate_mangled hclass hc] at hkey
  cases hkey

/-- Keys none of which is private are known by their own names. -/
theorem map_mangled_eq (h : ∀ key ∈ state.keys, isPrivate key = false) :
    (state.map fun entry => (mangled className entry.1, entry.2)) = state := by
  refine (List.map_congr_left fun entry hentry => ?_).trans (List.map_id _)
  rw [mangled_of_not_private (h _ (List.mem_map_of_mem hentry))]
  rfl

/-- What the rows of the file of a state declare for it. -/
theorem declares_stateRows {l : Layout} {c : Char} {rest : List Char} (hclass : l.stateClass.toList = c :: rest) (hc : c ≠ '_')
    (hstate : state.Ascending) : Declares state l.stateClass (ofRows? (Package.stateRows l state)) := by
  have hrows := ofRows?_stateRows l state
  rw [hstate.ofList_eq] at hrows
  have hclassed (hall : ∀ key ∈ state.keys, isIdentifier key = true) (hdebug : "__debug__" ∉ state.keys) :
      ofRows? (Package.stateRows l state) =
        some ⟨l.stateClass, Keyed.ofList (state.map fun entry => (mangled l.stateClass entry.1, entry.2))⟩ := by
    rw [hrows, if_pos (List.all_eq_true.mpr hall), if_neg hdebug]
  have hrefused (hall : ∀ key ∈ state.keys, isIdentifier key = true) (hdebug : "__debug__" ∈ state.keys) :
      ofRows? (Package.stateRows l state) = none := by
    rw [hrows, if_pos (List.all_eq_true.mpr hall), if_pos hdebug]
  refine ⟨⟨fun hwhole hbad => ?_, fun hgood => ?_⟩, hclassed, hrefused, fun hall type htype key _ hprivate => ?_⟩
  · obtain ⟨hall, key, hkey, hprivate | rfl⟩ := hbad
    · by_cases hdebug : "__debug__" ∈ state.keys
      · rw [hrefused hall hdebug] at hwhole
        cases hwhole
      · rw [hclassed hall hdebug, Option.some.injEq, StateType.mk.injEq] at hwhole
        exact not_mem_mangled hclass hc hprivate (hwhole.2.symm ▸ hkey)
    · rw [hrefused hall hkey] at hwhole
      cases hwhole
  · by_cases hall : ∀ key ∈ state.keys, isIdentifier key = true
    · have hplain : ∀ key ∈ state.keys, isPrivate key = false ∧ key ≠ "__debug__" := fun key hkey =>
        ⟨Bool.eq_false_iff.mpr fun h => hgood ⟨hall, key, hkey, Or.inl h⟩, fun h => hgood ⟨hall, key, hkey, Or.inr h⟩⟩
      rw [hclassed hall fun hdebug => (hplain _ hdebug).2 rfl, map_mangled_eq fun key hkey => (hplain key hkey).1, hstate.ofList_eq]
    · rw [hrows, if_neg (mt List.all_eq_true.mp hall)]
  · by_cases hdebug : "__debug__" ∈ state.keys
    · rw [hrefused hall hdebug] at htype
      cases htype
    · rw [hclassed hall hdebug, Option.some.injEq] at htype
      rw [← htype]
      exact not_mem_mangled hclass hc hprivate

end StateType

namespace Package

variable {g : Graph} {options : Options}

/-- The file of the state. -/
def stateFile (g : Graph) (options : Options) : Artifact :=
  artifact (Layout.ofGraph g options) ["state.py"] (stateLines g (Layout.ofGraph g options) options)

theorem stateFile_mem_artifacts (g : Graph) (options : Options) : stateFile g options ∈ artifacts g options :=
  List.mem_append_left _ (List.mem_append_left _ (List.mem_cons_of_mem _ List.mem_cons_self))

/-- The file of the state is the only one of its path. -/
theorem eq_stateFile {a : Artifact} (ha : a ∈ artifacts g options) (hpath : a.path = (Layout.ofGraph g options).file ["state.py"]) :
    a = stateFile g options :=
  List.inj_on_of_nodup_map nodup_paths ha (stateFile_mem_artifacts g options) (congrArg Path.ofText hpath)

/-- The rows of the state are read in its file. -/
theorem ofText?_stateFile (g : Graph) (options : Options) :
    StateType.ofText? (stateFile g options).contents =
      StateType.ofRows? (stateRows (Layout.ofGraph g options) (stateSchema g)) := by
  rw [StateType.ofText?, stateFile, artifact, rows?_renderLines (hasRows_stateLines Layout.isNameText_stateClass), Option.bind_some]

end Package

open Package

/-- The type of the state is read back from its file. It is the state itself, with its keys and their types, unless it is declared as a
class and one of its keys is a name that is private there, or `__debug__`. -/
theorem state_read_back (g : Graph) (options : Options) (files : List Artifact) (hgenerate : generate g options = .ok files) :
    ∃ declared, (∃ a ∈ files, a.path = (Layout.ofGraph g options).file ["state.py"]) ∧
      (∀ a ∈ files, a.path = (Layout.ofGraph g options).file ["state.py"] → StateType.ofText? a.contents = declared) ∧
      StateType.Declares (stateSchema g) (Layout.ofGraph g options).stateClass declared := by
  obtain ⟨-, rfl⟩ := generate_eq_ok_iff.mp hgenerate
  obtain ⟨c, rest, hclass, hupper⟩ : ∃ c rest, (Layout.ofGraph g options).stateClass.toList = c :: rest ∧ c.isUpper = true :=
    Layout.begins_stateClass
  have hc : c ≠ '_' := by
    rintro rfl
    cases hupper
  refine ⟨_, ⟨_, stateFile_mem_artifacts g options, rfl⟩, fun a ha hpath => ?_,
    StateType.declares_stateRows hclass hc (ascending_stateSchema g)⟩
  rw [eq_stateFile ha hpath]
  exact ofText?_stateFile g options

/-- The state of the loop is declared as a class, with all its keys. -/
theorem state_read_back_reviewLoop :
    ∃ g files, Graph.build reviewLoop = .ok g ∧ generate g {} = .ok files ∧
      ∀ a ∈ files, a.path = (Layout.ofGraph g {}).file ["state.py"] →
        StateType.ofText? a.contents = some ⟨"ReviewLoopState", [("text", .string), ("topic", .string), ("verdict", .any)]⟩ := by
  obtain ⟨g, hg⟩ : ∃ g, Graph.build reviewLoop = .ok g := ⟨_, rfl⟩
  obtain ⟨files, hfiles⟩ : ∃ files, generate g {} = .ok files := by
    cases hg
    exact ⟨_, rfl⟩
  obtain ⟨declared, -, hread, hdeclares⟩ := state_read_back g {} files hfiles
  have hstate : stateSchema g = [("text", .string), ("topic", .string), ("verdict", .any)] := by
    cases hg
    rfl
  have hclass : (Layout.ofGraph g {}).stateClass = "ReviewLoopState" := by
    cases hg
    decide
  have hwhole := hdeclares.whole.mpr (by rw [hstate]; decide)
  rw [hstate, hclass] at hwhole
  exact ⟨g, files, hg, hfiles, fun a ha hpath => (hread a ha hpath).trans hwhole⟩

/-- An errand that takes something that no one should see. -/
def secretErrand : Document where
  name := "errand"
  description := none
  version := none
  entry := "begin"
  nodes := [⟨"begin", .start [⟨"__secret", .string⟩, ⟨"topic", .string⟩], none⟩, ⟨"finish", .finish [], none⟩]
  edges := [⟨"begin", "finish", none⟩]

/-- The secret of the errand is a key of its state, but what its file declares has another key in place of it. -/
theorem state_lost_secretErrand :
    ∃ g files, Graph.build secretErrand = .ok g ∧ generate g {} = .ok files ∧
      stateSchema g = [("__secret", .string), ("topic", .string)] ∧
      ∀ a ∈ files, a.path = (Layout.ofGraph g {}).file ["state.py"] →
        StateType.ofText? a.contents = some ⟨"ErrandState", [("_ErrandState__secret", .string), ("topic", .string)]⟩ := by
  obtain ⟨g, hg⟩ : ∃ g, Graph.build secretErrand = .ok g := ⟨_, rfl⟩
  obtain ⟨files, hfiles⟩ : ∃ files, generate g {} = .ok files := by
    cases hg
    exact ⟨_, rfl⟩
  obtain ⟨-, rfl⟩ := generate_eq_ok_iff.mp hfiles
  have hrows : StateType.ofRows? (stateRows (Layout.ofGraph g {}) (stateSchema g)) =
      some ⟨"ErrandState", [("_ErrandState__secret", .string), ("topic", .string)]⟩ := by
    cases hg
    decide
  refine ⟨g, _, hg, hfiles, ?_, fun a ha hpath => ?_⟩
  · cases hg
    rfl
  · rw [eq_stateFile ha hpath]
    exact (ofText?_stateFile g {}).trans hrows

end Workflow
