import Mathlib
import Workflow.Proofs.Package.Body
import Workflow.Proofs.Package.Statements

/-!
# The rows of a source

A row is a statement with the number of spaces before it, for what a statement belongs to shows in how far it is indented. The rows of
some lines are their statements (`map_rows?`), so that what is known of the statements of a piece is known of its rows
(`rows?_of_states`). A block is a line with the indented lines below it, and it is found in a text by what it begins with
(`block_renderLines`).
-/

namespace Workflow

open Call LexMode

/-- A statement with the number of spaces before it. -/
structure Row where
  depth : Nat
  lexemes : List Lexeme
  deriving DecidableEq

namespace Row

/-- No row has begun. -/
def empty : Row := ⟨0, []⟩

/-- A row goes on with the lexemes of a line, or it begins there. -/
def join (begun : Row) (line : List Char) (ls : List Lexeme) : Row where
  depth := if begun.lexemes.isEmpty then (line.takeWhile (· == ' ')).length else begun.depth
  lexemes := begun.lexemes ++ ls

end Row

/-- The rows of some lines, given one that has begun on the lines before. -/
def rows? : Row → List (List Char) → Option (List Row)
  | begun, [] => if begun.lexemes.isEmpty then some [] else none
  | begun, line :: rest =>
    match lexemes? line with
    | none => none
    | some ls =>
      if nesting 0 (begun.join line ls).lexemes = 0 then
        (rows? .empty rest).map fun more => if (begun.join line ls).lexemes.isEmpty then more else begun.join line ls :: more
      else rows? (begun.join line ls) rest

/-- The lines of a block: the first one that begins with some text, and those below it that are empty or indented. -/
def block (opening text : String) : List (List Char) :=
  match (linesOf text).dropWhile fun line => !opening.toList.isPrefixOf line with
  | [] => []
  | first :: rest => first :: rest.takeWhile isBodyLine

/-! ## Rows and statements -/

/-- The rows of some lines are their statements. -/
theorem map_rows? (begun : Row) (lines : List (List Char)) :
    (rows? begun lines).map (·.map Row.lexemes) = statements? begun.lexemes lines := by
  induction lines generalizing begun with
  | nil =>
    rw [rows?, statements?]
    split <;> rfl
  | cons line rest ih =>
    rw [rows?, statements?]
    cases lexemes? line with
    | none => rfl
    | some ls =>
      have hrest : statements? [] rest = (rows? .empty rest).map (·.map Row.lexemes) := (ih .empty).symm
      have hjoin : (begun.join line ls).lexemes = begun.lexemes ++ ls := rfl
      simp only [hrest, ← hjoin]
      by_cases hclosed : nesting 0 (begun.join line ls).lexemes = 0
      · rw [if_pos hclosed, if_pos hclosed, Option.map_map, Option.map_map]
        refine congrArg (fun f => (rows? .empty rest).map f) (funext fun more => ?_)
        simp only [Function.comp_apply]
        split <;> rfl
      · rw [if_neg hclosed, if_neg hclosed, ih]

/-- A row without lexemes has not begun. -/
theorem rows?_of_no_lexeme {begun : Row} (h : begun.lexemes = []) (lines : List (List Char)) :
    rows? begun lines = rows? .empty lines := by
  have hjoin : begun.join = Row.empty.join := by
    funext line ls
    rw [Row.join, Row.join, h]
    rfl
  cases lines with
  | nil => rw [rows?, rows?, h]; rfl
  | cons line rest => rw [rows?, rows?, hjoin]

/-- Lines whose rows are complete have them before the rows of what follows. -/
theorem rows?_append {begun : Row} {lines : List (List Char)} {rows : List Row} (h : rows? begun lines = some rows)
    (rest : List (List Char)) : rows? begun (lines ++ rest) = (rows? .empty rest).map (rows ++ ·) := by
  induction lines generalizing begun rows with
  | nil =>
    rw [rows?] at h
    split at h
    · next hempty =>
      rw [← Option.some.inj h, List.nil_append, rows?_of_no_lexeme (List.isEmpty_iff.mp hempty)]
      exact Option.map_id'.symm
    · cases h
  | cons line lines ih =>
    rw [rows?] at h
    rw [List.cons_append, rows?]
    cases hlexemes : lexemes? line with
    | none =>
      rw [hlexemes] at h
      cases h
    | some ls =>
      rw [hlexemes] at h
      simp only at h ⊢
      by_cases hclosed : nesting 0 (begun.join line ls).lexemes = 0
      · rw [if_pos hclosed] at h ⊢
        obtain ⟨more, hmore, rfl⟩ := Option.map_eq_some_iff.mp h
        rw [ih hmore, Option.map_map]
        refine congrArg (fun f => (rows? .empty rest).map f) (funext fun others => ?_)
        simp only [Function.comp_apply]
        split <;> rfl
      · rw [if_neg hclosed] at h ⊢
        exact ih h

/-! ## Where rows begin -/

/-- A row that has begun keeps its depth. -/
theorem depth_of_begun {begun row : Row} {lines : List (List Char)} {more : List Row} (hbegun : begun.lexemes ≠ [])
    (h : rows? begun lines = some (row :: more)) : row.depth = begun.depth := by
  induction lines generalizing begun with
  | nil =>
    rw [rows?, if_neg (mt List.isEmpty_iff.mp hbegun)] at h
    cases h
  | cons line lines ih =>
    rw [rows?] at h
    cases hlexemes : lexemes? line with
    | none =>
      rw [hlexemes] at h
      cases h
    | some ls =>
      rw [hlexemes] at h
      have hjoin : (begun.join line ls).lexemes ≠ [] := List.append_ne_nil_of_left_ne_nil hbegun ls
      have hdepth : (begun.join line ls).depth = begun.depth := if_neg (mt List.isEmpty_iff.mp hbegun)
      simp only at h
      split at h
      · obtain ⟨others, -, hrows⟩ := Option.map_eq_some_iff.mp h
        rw [if_neg (mt List.isEmpty_iff.mp hjoin), List.cons.injEq] at hrows
        rw [← hrows.1, hdepth]
      · rw [ih hjoin h, hdepth]

/-- A row begins on the first line with lexemes. -/
theorem depth_of_first {line : List Char} {lines : List (List Char)} {ls : List Lexeme} {row : Row} {more : List Row}
    (hlexemes : lexemes? line = some ls) (hls : ls ≠ []) (h : rows? .empty (line :: lines) = some (row :: more)) :
    row.depth = (line.takeWhile (· == ' ')).length := by
  have hjoin : (Row.empty.join line ls).lexemes ≠ [] := hls
  have hdepth : (Row.empty.join line ls).depth = (line.takeWhile (· == ' ')).length := rfl
  rw [rows?, hlexemes] at h
  simp only at h
  split at h
  · obtain ⟨others, -, hrows⟩ := Option.map_eq_some_iff.mp h
    rw [if_neg (mt List.isEmpty_iff.mp hjoin), List.cons.injEq] at hrows
    rw [← hrows.1, hdepth]
  · rw [depth_of_begun hjoin h, hdepth]

/-- Indentation is four spaces for each level. -/
theorem toList_indentation (depth : Nat) : (indentation depth).toList = List.replicate (4 * depth) ' ' := by
  rw [indentation, String.toList_join]
  induction depth with
  | zero => rfl
  | succ depth ih =>
    rw [List.replicate_succ, List.flatMap_cons, ih, Nat.mul_succ, Nat.add_comm, List.replicate_add]
    rfl

/-- The spaces before a line are its indentation, if its text does not begin with one. -/
theorem length_takeWhile_indentation (depth : Nat) {text : String} (h : text.toList.head? ≠ some ' ') :
    ((indentation depth ++ text).toList.takeWhile (· == ' ')).length = 4 * depth := by
  have htext : text.toList.takeWhile (· == ' ') = [] := by
    cases hchars : text.toList with
    | nil => rfl
    | cons c cs =>
      rw [hchars, List.head?_cons, ne_eq, Option.some.injEq] at h
      rw [List.takeWhile_cons_of_neg (by simpa using h)]
  rw [String.toList_append, toList_indentation, List.takeWhile_append_of_pos fun c hc => by simp [List.eq_of_mem_replicate hc],
    htext, List.append_nil, List.length_replicate]

/-- Indentation has no part in the lexemes of a line. -/
theorem lexemes?_indentation (depth : Nat) (text : String) : lexemes? (indentation depth ++ text).toList = lexemes? text.toList := by
  have hscan : ∀ n (cs : List Char), between.scan (List.replicate n ' ' ++ cs) = between.scan cs := by
    intro n cs
    induction n with
    | zero => rfl
    | succ n ih =>
      rw [List.replicate_succ, List.cons_append, scan]
      simp only [step, start, if_true, ih, List.nil_append]
      exact Option.map_id'
  rw [lexemes?, String.toList_append, toList_indentation, hscan]
  rfl

/-! ## Pieces of a source -/

/-- Some lines of a source have some rows. -/
def HasRows (lines : List Line) (rows : List Row) : Prop :=
  rows? .empty ((lines.flatMap Line.physical).map String.toList) = some rows

/-- Lines after other lines have their rows after those of the others. -/
theorem HasRows.append {first second : List Line} {rows more : List Row} (h : HasRows first rows) (h' : HasRows second more) :
    HasRows (first ++ second) (rows ++ more) := by
  rw [HasRows, List.flatMap_append, List.map_append, rows?_append h, h']
  rfl

/-- Lines that are written for each item of a list, one for each, have the row of each item. -/
theorem hasRows_map {α : Type} {items : List α} {line : α → Line} {row : α → Row} (h : ∀ x ∈ items, HasRows [line x] [row x]) :
    HasRows (items.map line) (items.map row) := by
  induction items with
  | nil => rfl
  | cons x items ih => exact (h x List.mem_cons_self).append (ih fun y hy => h y (List.mem_cons_of_mem _ hy))

/-- Lines with statements have rows with these statements. -/
theorem exists_hasRows {lines : List Line} {statements : List (List Lexeme)} (h : States lines statements) :
    ∃ rows, HasRows lines rows ∧ rows.map Row.lexemes = statements := by
  have hstatements := h []
  have hend : statements? [] [] = some [] := rfl
  have hrows := map_rows? .empty ((lines.flatMap Line.physical).map String.toList)
  rw [List.append_nil, hend, Option.map_some, List.append_nil] at hstatements
  exact Option.map_eq_some_iff.mp (hrows.trans hstatements)

/-- Lines without a statement have no row. -/
theorem hasRows_nil {lines : List Line} (h : States lines []) : HasRows lines [] := by
  obtain ⟨rows, hrows, hlexemes⟩ := exists_hasRows h
  rwa [List.map_eq_nil_iff.mp hlexemes] at hrows

/-- A text that begins with a text begins like it. -/
theorem head?_append {first : String} {c : Char} (h : first.toList.head? = some c) (rest : String) :
    (first ++ rest).toList.head? = some c := by
  rw [String.toList_append, List.head?_append, h, Option.some_or]

/-- What a line with a text stands for. -/
theorem physical_eq {l : Line} {c : Char} (hclean : OneLine l.text) (hhead : l.text.toList.head? = some c) :
    l.physical = [indentation l.depth ++ l.text] := by
  have hne : l.text ≠ "" := by
    intro hempty
    rw [hempty] at hhead
    cases hhead
  rw [Line.physical_of_oneLine hclean, if_neg hne]

/-- Lines that are one statement are one row, which is indented like the first of them. -/
theorem hasRows_of_states {l : Line} {lines : List Line} {statement ls : List Lexeme} {c : Char} (hclean : OneLine l.text)
    (hhead : l.text.toList.head? = some c) (hc : c ≠ ' ') (hline : lexemes? l.text.toList = some ls) (hls : ls ≠ [])
    (h : States (l :: lines) [statement]) : HasRows (l :: lines) [⟨4 * l.depth, statement⟩] := by
  obtain ⟨rows, hrows, hlexemes⟩ := exists_hasRows h
  obtain ⟨row, rfl, rfl⟩ := List.map_eq_singleton_iff.mp hlexemes
  have hspace : l.text.toList.head? ≠ some ' ' := fun hspace => hc (Option.some.inj (hhead.symm.trans hspace))
  have hfirst := hrows
  rw [HasRows, List.flatMap_cons, physical_eq hclean hhead, List.singleton_append, List.map_cons] at hfirst
  have hdepth := depth_of_first ((lexemes?_indentation l.depth l.text).trans hline) hls hfirst
  rw [length_takeWhile_indentation _ hspace] at hdepth
  rw [← hdepth]
  exact hrows

/-- The lexemes of a line that is a statement are those of the statement, and there are some. -/
theorem lexemes?_of_statement {line : List Char} {statement : List Lexeme} (h : statements? [] [line] = some [statement]) :
    lexemes? line = some statement ∧ statement ≠ [] := by
  rw [statements?] at h
  cases hlexemes : lexemes? line with
  | none =>
    rw [hlexemes] at h
    cases h
  | some ls =>
    rw [hlexemes] at h
    simp only [List.nil_append, statements?] at h
    split at h
    · simp only [List.isEmpty_nil, if_true, Option.map_some, Option.some.injEq] at h
      split at h
      · cases h
      · next hls =>
        rw [List.cons.injEq] at h
        obtain ⟨rfl, -⟩ := h
        exact ⟨rfl, mt List.isEmpty_iff.mpr hls⟩
    · split at h <;> cases h

/-- A line that is a statement is a row. -/
theorem hasRows_statement {l : Line} {statement : List Lexeme} {c : Char} (hclean : OneLine l.text)
    (hhead : l.text.toList.head? = some c) (hc : c ≠ ' ') (h : States [l] [statement]) : HasRows [l] [⟨4 * l.depth, statement⟩] := by
  have hstatement := h []
  rw [List.flatMap_singleton, physical_eq hclean hhead, List.map_singleton, List.append_nil] at hstatement
  obtain ⟨hlexemes, hls⟩ := lexemes?_of_statement hstatement
  rw [lexemes?_indentation] at hlexemes
  exact hasRows_of_states hclean hhead hc hlexemes hls h

/-- The rows of a source are read in its text. -/
theorem rows?_renderLines {lines : List Line} {rows : List Row} (h : HasRows lines rows) :
    rows? .empty (linesOf (renderLines lines)) = some rows := by
  have hend : rows? .empty [[]] = some [] := rfl
  rw [lines_renderLines, rows?_append h, hend, Option.map_some, List.append_nil]

/-! ## Blocks -/

/-- A line that begins with a character other than a space does not belong to a body. -/
theorem isBodyLine_of_head {line : List Char} {c : Char} (hhead : line.head? = some c) (hc : c ≠ ' ') : isBodyLine line = false := by
  cases line with
  | nil => cases hhead
  | cons d rest =>
    rw [List.head?_cons] at hhead
    rw [isBodyLine, List.head?_cons, hhead]
    simpa using hc

/-- No line of a source is where a block begins. -/
def Lacks (opening : String) (lines : List Line) : Prop := ∀ l ∈ lines, ∀ s ∈ l.physical, ¬opening.toList <+: s.toList

theorem Lacks.append {opening : String} {first second : List Line} (h : Lacks opening first) (h' : Lacks opening second) :
    Lacks opening (first ++ second) := List.forall_mem_append.mpr ⟨h, h'⟩

/-- A block does not begin on lines that are indented or begin with another character. -/
theorem lacks_of_head {opening : String} {c : Char} {lines : List Line} (hopening : opening.toList.head? = some c) (hc : c ≠ ' ')
    (h : ∀ l ∈ lines, l.depth ≠ 0 ∨ OneLine l.text ∧ l.text.toList.head? ≠ some c) : Lacks opening lines := by
  intro l hl s hs hprefix
  have hhead : s.toList.head? = some c := by
    obtain ⟨rest, hrest⟩ := hprefix
    rw [← hrest, List.head?_append, hopening, Option.some_or]
  rcases h l hl with hdepth | ⟨hclean, hother⟩
  · have hbody := isBodyLine_of_depth hdepth s hs
    rw [isBodyLine, Bool.or_eq_true, List.isEmpty_iff, beq_iff_eq, hhead] at hbody
    rcases hbody with hempty | hspace
    · rw [hempty] at hhead
      cases hhead
    · exact hc (Option.some.inj hspace)
  · rw [Line.physical_of_oneLine hclean, List.mem_singleton] at hs
    split at hs
    · rw [hs] at hhead
      cases hhead
    · rw [hs, String.toList_append, toList_indentation, List.head?_append] at hhead
      cases hdepth : l.depth with
      | zero =>
        rw [hdepth] at hhead
        exact hother hhead
      | succ depth =>
        rw [hdepth, Nat.mul_succ, List.head?_replicate] at hhead
        exact hc (Option.some.inj (by simpa using hhead)).symm

/-- A block is found in the text of a source: nothing before it begins like it, and what comes after it is not indented. -/
theorem block_renderLines {before body after : List Line} {opening first next : String} {rest : List String}
    (hbefore : Lacks opening before) (hclean : OneLine first) (hopening : opening.toList <+: first.toList)
    (hbody : ∀ l ∈ body, ∀ s ∈ l.physical, isBodyLine s.toList = true)
    (hafter : after.flatMap Line.physical = next :: rest) (hnext : isBodyLine next.toList = false) :
    block opening (renderLines (before ++ (top first :: (body ++ after)))) =
      ((top first :: body).flatMap Line.physical).map String.toList := by
  have hskip : ∀ line ∈ (before.flatMap Line.physical).map String.toList, (!opening.toList.isPrefixOf line) = true := by
    intro line hline
    obtain ⟨s, hs, rfl⟩ := List.mem_map.mp hline
    obtain ⟨l, hl, hs⟩ := List.mem_flatMap.mp hs
    rw [Bool.not_eq_true', ← Bool.not_eq_true, List.isPrefixOf_iff_prefix]
    exact hbefore l hl s hs
  have hkeep : ∀ line ∈ (body.flatMap Line.physical).map String.toList, isBodyLine line = true := by
    intro line hline
    obtain ⟨s, hs, rfl⟩ := List.mem_map.mp hline
    obtain ⟨l, hl, hs⟩ := List.mem_flatMap.mp hs
    exact hbody l hl s hs
  have hfirst : (!opening.toList.isPrefixOf first.toList) = false := by simpa using hopening
  rw [block, lines_renderLines, List.flatMap_append, List.flatMap_cons, List.flatMap_append, hafter, physical_top hclean,
    List.map_append, List.append_assoc, List.dropWhile_append_of_pos hskip, List.singleton_append, List.map_cons, List.cons_append,
    List.dropWhile_cons_of_neg (by rw [hfirst]; exact Bool.false_ne_true)]
  simp only
  rw [List.map_append, List.append_assoc, List.takeWhile_append_of_pos hkeep, List.map_cons, List.cons_append,
    List.takeWhile_cons_of_neg (by rw [hnext]; exact Bool.false_ne_true), List.append_nil, List.flatMap_cons, physical_top hclean]
  rfl

end Workflow
