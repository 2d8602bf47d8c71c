import Mathlib
import Workflow.Proofs.Package.Calls

/-!
# The statements of a source

A source falls into statements: each goes on to the end of its line, or further as long as a bracket is open. Comments and empty
lines are none. Each piece that a file is written with has its own statements (`States`), and pieces one after the other have theirs
one after the other. What is read in a source is read in its statements (`read?_eq`).
-/

namespace Workflow

open Call LexMode

/-- The statements of some lines, given the lexemes of one that has begun on the lines before. -/
def statements? : List Lexeme → List (List Char) → Option (List (List Lexeme))
  | begun, [] => if begun.isEmpty then some [] else none
  | begun, line :: rest =>
    match lexemes? line with
    | none => none
    | some ls =>
      if nesting 0 (begun ++ ls) = 0 then
        (statements? [] rest).map fun more => if (begun ++ ls).isEmpty then more else (begun ++ ls) :: more
      else statements? (begun ++ ls) rest

/-- The statements in the text of a file. -/
def statementsOf? (text : String) : Option (List (List Lexeme)) := statements? [] (linesOf text)

/-- What is read in statements, one after the other, if each of them is understood. -/
def readAll? {α : Type} (read : List Lexeme → Option (List α)) : List (List Lexeme) → Option (List α)
  | [] => some []
  | statement :: rest => do return (← read statement) ++ (← readAll? read rest)

/-! ## Reading statements -/

section

variable {α β : Type} {read : List Lexeme → Option (List α)}

theorem readAll?_singleton (read : List Lexeme → Option (List α)) (statement : List Lexeme) :
    readAll? read [statement] = read statement := by
  rw [readAll?, readAll?]
  cases read statement with
  | none => rfl
  | some found => exact congrArg some (List.append_nil found)

/-- What is read in statements after others comes after what is read in those. -/
theorem readAll?_append {first second : List (List Lexeme)} {found more : List α} (h : readAll? read first = some found)
    (h' : readAll? read second = some more) : readAll? read (first ++ second) = some (found ++ more) := by
  induction first generalizing found with
  | nil =>
    rw [← Option.some.inj h]
    exact h'
  | cons statement first ih =>
    simp only [readAll?, Option.bind_eq_bind, Option.pure_def, Option.bind_eq_some_iff, Option.some.injEq] at h
    obtain ⟨begun, hbegun, rest, hrest, rfl⟩ := h
    simp only [List.cons_append, readAll?, hbegun, ih hrest, Option.bind_eq_bind, Option.pure_def, Option.bind_some,
      List.append_assoc]

/-- What is read in the statements of each item of a list. -/
theorem readAll?_flatMap {items : List β} {statements : β → List (List Lexeme)} {found : β → List α}
    (h : ∀ x ∈ items, readAll? read (statements x) = some (found x)) :
    readAll? read (items.flatMap statements) = some (items.flatMap found) := by
  induction items with
  | nil => rfl
  | cons x items ih =>
    rw [List.flatMap_cons, List.flatMap_cons]
    exact readAll?_append (h x List.mem_cons_self) (ih fun y hy => h y (List.mem_cons_of_mem _ hy))

/-- What is read in the statement of each item of a list. -/
theorem readAll?_map {items : List β} {statement : β → List Lexeme} {found : β → List α}
    (h : ∀ x ∈ items, read (statement x) = some (found x)) :
    readAll? read (items.map statement) = some (items.flatMap found) := by
  rw [List.map_eq_flatMap]
  exact readAll?_flatMap fun x hx => (readAll?_singleton read _).trans (h x hx)

end

namespace Call

/-- The calls of some lines are those of their statements. -/
theorem read?_eq (begun : List Lexeme) (lines : List (List Char)) :
    read? begun lines = (statements? begun lines).bind (readAll? ofStatement?) := by
  induction lines generalizing begun with
  | nil =>
    rw [read?, statements?]
    split <;> rfl
  | cons line rest ih =>
    rw [read?, statements?]
    cases lexemes? line with
    | none => rfl
    | some ls =>
      simp only []
      split
      · rw [ih]
        cases hrest : statements? [] rest with
        | none => cases ofStatement? (begun ++ ls) <;> rfl
        | some more =>
          by_cases hempty : begun ++ ls = []
          · rw [hempty]
            simp [ofStatement?]
          · simp only [Option.map_some, List.isEmpty_iff, hempty, if_false, Option.bind_some, readAll?]
            cases ofStatement? (begun ++ ls) <;> cases readAll? ofStatement? more <;> rfl
      · exact ih (begun ++ ls)

end Call

/-! ## Pieces of a source -/

/-- Some lines of a source have some statements, whatever follows them. -/
def States (lines : List Line) (statements : List (List Lexeme)) : Prop :=
  ∀ rest, statements? [] ((lines.flatMap Line.physical).map String.toList ++ rest) =
    (statements? [] rest).map (statements ++ ·)

/-- No line has no statement. -/
theorem states_nil : States [] [] := fun rest => by
  simp

/-- Lines after other lines have their statements after those of the others. -/
theorem States.append {first second : List Line} {statements more : List (List Lexeme)} (h : States first statements)
    (h' : States second more) : States (first ++ second) (statements ++ more) := by
  intro rest
  rw [List.flatMap_append, List.map_append, List.append_assoc, h, h', Option.map_map]
  simp only [Function.comp_def, List.append_assoc]

/-- Lines that are written for each item of a list have the statements of each item. -/
theorem states_flatMap {α : Type} {items : List α} {lines : α → List Line} {statements : α → List (List Lexeme)}
    (h : ∀ x ∈ items, States (lines x) (statements x)) : States (items.flatMap lines) (items.flatMap statements) := by
  induction items with
  | nil => exact states_nil
  | cons x items ih =>
    rw [List.flatMap_cons, List.flatMap_cons]
    exact (h x List.mem_cons_self).append (ih fun y hy => h y (List.mem_cons_of_mem _ hy))

/-- Lines that are written for each item of a list, one for each, have the statement of each item. -/
theorem states_map {α : Type} {items : List α} {line : α → Line} {statement : α → List Lexeme}
    (h : ∀ x ∈ items, States [line x] [statement x]) : States (items.map line) (items.map statement) := by
  rw [List.map_eq_flatMap, List.map_eq_flatMap]
  exact states_flatMap h

/-! ## Lines -/

/-- The lexemes of a line, from a reading of it. -/
theorem lexemes?_of_scan {line : List Char} {ls last : List Lexeme} {m : LexMode} (h : between.scan line = some (ls, m))
    (hlast : m.finish = some last) : lexemes? line = some (ls ++ last) := by
  rw [lexemes?, h]
  simp only [hlast, Option.map_some]

/-- A line whose text is on one line reads like its text. -/
theorem scan_physical {l : Line} {ls : List Lexeme} {m : LexMode} (h : OneLine l.text)
    (hscan : between.scan l.text.toList = some (ls, m)) :
    ∃ s, l.physical = [s] ∧ between.scan s.toList = some (ls, m) := by
  refine ⟨_, Line.physical_of_oneLine h, ?_⟩
  by_cases hempty : l.text = ""
  · rw [if_pos hempty]
    rwa [hempty] at hscan
  · rw [if_neg hempty, String.toList_append]
    exact scan_append (scan_indentation l.depth) hscan

/-- Lexemes of a line with a bracket still open are read together with the lines after it. -/
theorem statements?_cons_of_open {line : List Char} {begun ls : List Lexeme} (h : lexemes? line = some ls)
    (hopen : nesting 0 (begun ++ ls) ≠ 0) (rest : List (List Char)) :
    statements? begun (line :: rest) = statements? (begun ++ ls) rest := by
  rw [statements?, h]
  simp only [hopen, if_false]

/-- Lexemes of a line that close the last bracket end a statement, and what follows is read on its own. -/
theorem statements?_cons_of_closed {line : List Char} {begun ls : List Lexeme} (h : lexemes? line = some ls)
    (hclosed : nesting 0 (begun ++ ls) = 0) (hne : begun ++ ls ≠ []) (rest : List (List Char)) :
    statements? begun (line :: rest) = (statements? [] rest).map ([begun ++ ls] ++ ·) := by
  rw [statements?, h]
  simp only [hclosed, if_true, List.isEmpty_iff, hne, if_false, List.singleton_append]

/-- A line that leaves a bracket open is read together with the lines after it. -/
theorem statements?_of_open (l : Line) {begun ls last : List Lexeme} {m : LexMode} (hclean : OneLine l.text)
    (hscan : between.scan l.text.toList = some (ls, m)) (hlast : m.finish = some last)
    (hopen : nesting 0 (begun ++ (ls ++ last)) ≠ 0) (rest : List (List Char)) :
    statements? begun (l.physical.map String.toList ++ rest) = statements? (begun ++ (ls ++ last)) rest := by
  obtain ⟨s, hs, hscan⟩ := scan_physical hclean hscan
  rw [hs, List.map_singleton, List.singleton_append]
  exact statements?_cons_of_open (lexemes?_of_scan hscan hlast) hopen rest

/-- A line that closes the last bracket ends a statement, and what follows is read on its own. -/
theorem statements?_of_closed (l : Line) {begun ls last : List Lexeme} {m : LexMode} (hclean : OneLine l.text)
    (hscan : between.scan l.text.toList = some (ls, m)) (hlast : m.finish = some last)
    (hclosed : nesting 0 (begun ++ (ls ++ last)) = 0) (hne : begun ++ (ls ++ last) ≠ []) (rest : List (List Char)) :
    statements? begun (l.physical.map String.toList ++ rest) =
      (statements? [] rest).map ([begun ++ (ls ++ last)] ++ ·) := by
  obtain ⟨s, hs, hscan⟩ := scan_physical hclean hscan
  rw [hs, List.map_singleton, List.singleton_append]
  exact statements?_cons_of_closed (lexemes?_of_scan hscan hlast) hclosed hne rest

/-- A line that is a statement of its own. -/
theorem states_statement {l : Line} {ls last statement : List Lexeme} {m : LexMode} (hclean : OneLine l.text)
    (hscan : between.scan l.text.toList = some (ls, m)) (hlast : m.finish = some last) (hstatement : ls ++ last = statement)
    (hclosed : nesting 0 statement = 0) (hne : statement ≠ []) : States [l] [statement] := by
  intro rest
  subst hstatement
  rw [List.flatMap_singleton, statements?_of_closed l hclean hscan hlast hclosed hne]
  rfl

/-- A line without lexemes is no statement. -/
theorem states_of_no_lexeme {l : Line} {m : LexMode} (hclean : OneLine l.text)
    (hscan : between.scan l.text.toList = some ([], m)) (hlast : m.finish = some []) : States [l] [] := by
  intro rest
  obtain ⟨s, hs, hscan⟩ := scan_physical hclean hscan
  have hlexemes := lexemes?_of_scan hscan hlast
  rw [List.flatMap_singleton, hs, List.map_singleton, List.singleton_append]
  simp [statements?, hlexemes, nesting]

/-- An empty line is no statement. -/
theorem states_blankLine : States [blankLine] [] :=
  states_of_no_lexeme (by decide) (rfl : between.scan [] = some ([], between)) rfl

/-- A comment is no statement. -/
theorem states_comment {depth : Nat} {text : String} (h : OneLine text) : States [⟨depth, "# " ++ text⟩] [] := by
  have hclean : OneLine ("# " ++ text) := OneLine.append (by decide) h
  have hopen : between.scan "# ".toList = some ([], comment) := rfl
  exact states_of_no_lexeme hclean (scan_append_string hopen (scan_comment text.toList)) rfl

end Workflow
