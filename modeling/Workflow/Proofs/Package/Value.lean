import Workflow.Proofs.Number.Reading
import Workflow.Proofs.Package.Statements

/-!
# Values of literals

A reader of the literals that configuration values are written with: `None`, `True`, `False`, numerals, texts, lists and
dictionaries, with or without a comma after the last element. It goes through the lexemes of a statement once and keeps the
containers that are still open. The lexemes of a value read back as that value (`valueOf?_of_spell`).
-/

namespace Workflow

/-! ## Words -/

/-- The marks that containers are written with. -/
def isDelimiter (c : Char) : Bool := c ∈ ['[', ']', '\x7b', '\x7d', ',', ':']

/-- The word of some letters before other lexemes, if there are any letters. -/
def endWord (letters : List Char) (rest : List Lexeme) : List Lexeme :=
  if letters.isEmpty then rest else .name (String.ofList letters) :: rest

/-- Joins the names and marks between delimiters and texts to words, for a numeral may fall into several lexemes. The letters of the
word so far come along. -/
def words (letters : List Char) : List Lexeme → List Lexeme
  | [] => endWord letters []
  | .name s :: rest => words (letters ++ s.toList) rest
  | .text s :: rest => endWord letters (.text s :: words [] rest)
  | .mark c :: rest =>
    if isDelimiter c then endWord letters (.mark c :: words [] rest) else words (letters ++ [c]) rest

/-- The value that a word stands for. -/
def wordValue? (s : String) : Option Json :=
  match numeral? s.toList with
  | some n => some (.ofNumber n)
  | none =>
    if s = "None" then some .null
    else if s = "True" then some (.bool true)
    else if s = "False" then some (.bool false)
    else none

/-! ## The reader -/

/-- A container that is still open, with what has been read of it: the items of a list, or the entries of a dictionary and the key
of the value to come. -/
inductive Frame
  | list (items : List Json)
  | dict (entries : List (String × Json)) (key : String)

/-- Where the reading of a literal stands, inside open containers: before a value; in a list before an item or its end; in a
dictionary before a key or its end; behind a key; behind a value. -/
inductive LiteralMode
  | value (frames : List Frame)
  | item (frames : List Frame) (items : List Json)
  | key (frames : List Frame) (entries : List (String × Json))
  | colon (frames : List Frame) (entries : List (String × Json)) (key : String)
  | after (frames : List Frame) (v : Json)

namespace LiteralMode

/-- What a lexeme does where a value begins. -/
def begin (frames : List Frame) : Lexeme → Option LiteralMode
  | .text s => some (after frames (.str s))
  | .name s => (wordValue? s).map (after frames)
  | .mark '[' => some (item frames [])
  | .mark '\x7b' => some (key frames [])
  | .mark _ => none

/-- What a lexeme does. -/
def step : LiteralMode → Lexeme → Option LiteralMode
  | value frames, l => begin frames l
  | item frames items, l => if l = .mark ']' then some (after frames (.arr items)) else begin (.list items :: frames) l
  | key frames entries, .text k => some (colon frames entries k)
  | key frames entries, .mark '\x7d' => some (after frames (.obj entries))
  | colon frames entries k, .mark ':' => some (value (.dict entries k :: frames))
  | after (.list items :: frames) v, .mark ',' => some (item frames (items ++ [v]))
  | after (.list items :: frames) v, .mark ']' => some (after frames (.arr (items ++ [v])))
  | after (.dict entries k :: frames) v, .mark ',' => some (key frames (entries ++ [(k, v)]))
  | after (.dict entries k :: frames) v, .mark '\x7d' => some (after frames (.obj (entries ++ [(k, v)])))
  | _, _ => none

/-- Reads lexemes to their end, where a value has to be read and no container may be open. -/
def run : LiteralMode → List Lexeme → Option Json
  | after [] v, [] => some v
  | _, [] => none
  | r, l :: rest =>
    match r.step l with
    | none => none
    | some r => r.run rest

end LiteralMode

/-- The value of the lexemes of a literal. -/
def valueOf? (ls : List Lexeme) : Option Json := (LiteralMode.value []).run (words [] ls)

/-- The value of a text that consists of one literal. -/
def readLiteral? (text : String) : Option Json :=
  match statementsOf? text with
  | some [ls] => valueOf? ls
  | _ => none

/-- Commas after the last elements may be left out, and a bracket goes on over the end of a line. -/
example : readLiteral? "\x7b\"a\": [1, True],\n\"b\": \"\\x41\"\x7d" =
    some (.obj [("a", .arr [.int 1, .bool true]), ("b", .str "A")]) := rfl

/-! ## The words of a value -/

mutual

/-- A value as words, texts and delimiters. -/
def Json.words : Json → List Lexeme
  | .null => [.name "None"]
  | .bool b => [.name (if b then "True" else "False")]
  | .int n => [.name (toString n)]
  | .real x => [.name (Double.finiteText .json x)]
  | .str s => [.text s]
  | .arr items => .mark '[' :: (Json.itemWords items ++ [.mark ']'])
  | .obj entries => .mark '\x7b' :: (Json.entryWords entries ++ [.mark '\x7d'])

/-- The items of an array, each with a comma. -/
def Json.itemWords : List Json → List Lexeme
  | [] => []
  | v :: rest => v.words ++ .mark ',' :: Json.itemWords rest

/-- The entries of an object, each with a comma. -/
def Json.entryWords : List (String × Json) → List Lexeme
  | [] => []
  | (k, v) :: rest => .text k :: .mark ':' :: (v.words ++ .mark ',' :: Json.entryWords rest)

end

/-- A number that is written reads back. -/
theorem wordValue?_of_numeral? {s : String} {n : Number} (h : numeral? s.toList = some n) : wordValue? s = some (.ofNumber n) := by
  rw [wordValue?, h]

namespace LiteralMode

/-- A word that stands for a value is one. -/
theorem run_value_name {frames : List Frame} {s : String} {v : Json} (h : wordValue? s = some v) (rest : List Lexeme) :
    (value frames).run (.name s :: rest) = (after frames v).run rest := by
  rw [run, step, begin, h]
  rfl

/-- In a list, what does not end it begins an item. -/
theorem run_item {frames : List Frame} {items : List Json} {l : Lexeme} (h : l ≠ .mark ']') (rest : List Lexeme) :
    (item frames items).run (l :: rest) = (value (.list items :: frames)).run (l :: rest) := by
  rw [run, run, step, step, if_neg h]

/-- No value begins with the end of a list. -/
theorem words_eq_cons (v : Json) : ∃ l rest, v.words = l :: rest ∧ l ≠ .mark ']' := by
  cases v <;> rw [Json.words] <;> exact ⟨_, _, rfl, by simp⟩

mutual

/-- The words of a value are read as that value. -/
theorem run_words (v : Json) (frames : List Frame) (rest : List Lexeme) :
    (value frames).run (v.words ++ rest) = (after frames v).run rest := by
  cases v with
  | null => exact run_value_name rfl rest
  | bool b => cases b <;> exact run_value_name rfl rest
  | int n => exact run_value_name (wordValue?_of_numeral? (numeral?_toString n)) rest
  | real x => exact run_value_name (wordValue?_of_numeral? (Double.numeral?_finiteText x)) rest
  | str s => rfl
  | arr items =>
    rw [Json.words, List.cons_append, List.append_assoc]
    exact run_itemWords items frames [] rest
  | obj entries =>
    rw [Json.words, List.cons_append, List.append_assoc]
    exact run_entryWords entries frames [] rest

/-- The words of the items of an array are read as those items, behind the ones before them. -/
theorem run_itemWords (items : List Json) (frames : List Frame) (before : List Json) (rest : List Lexeme) :
    (item frames before).run (Json.itemWords items ++ ([.mark ']'] ++ rest)) = (after frames (.arr (before ++ items))).run rest := by
  cases items with
  | nil =>
    rw [List.append_nil]
    rfl
  | cons v items =>
    have hitem : ∀ more, (item frames before).run (v.words ++ more) = (value (.list before :: frames)).run (v.words ++ more) := by
      intro more
      obtain ⟨l, ls, hwords, hl⟩ := words_eq_cons v
      rw [hwords]
      exact run_item hl _
    rw [Json.itemWords, List.append_assoc, hitem, run_words v]
    refine (run_itemWords items frames (before ++ [v]) rest).trans ?_
    rw [List.append_assoc]
    rfl

/-- The words of the entries of an object are read as those entries, behind the ones before them. -/
theorem run_entryWords (entries : List (String × Json)) (frames : List Frame) (before : List (String × Json))
    (rest : List Lexeme) :
    (key frames before).run (Json.entryWords entries ++ ([.mark '\x7d'] ++ rest)) =
      (after frames (.obj (before ++ entries))).run rest := by
  cases entries with
  | nil =>
    rw [List.append_nil]
    rfl
  | cons entry entries =>
    obtain ⟨k, v⟩ := entry
    have hvalue := run_words v (.dict before k :: frames) (.mark ',' :: (Json.entryWords entries ++ ([.mark '\x7d'] ++ rest)))
    rw [Json.entryWords, List.cons_append, List.cons_append, List.append_assoc]
    refine hvalue.trans ((run_entryWords entries frames (before ++ [(k, v)]) rest).trans ?_)
    rw [List.append_assoc]
    rfl

end

end LiteralMode

/-! ## Lexemes that make up words -/

/-- What stands behind a value: nothing, or a delimiter. -/
def Delimited (rest : List Lexeme) : Prop := rest = [] ∨ ∃ c more, rest = .mark c :: more ∧ isDelimiter c = true

/-- A word ends before a delimiter. -/
theorem words_delimited {rest : List Lexeme} (h : Delimited rest) (letters : List Char) :
    words letters rest = endWord letters (words [] rest) := by
  rcases h with rfl | ⟨c, more, rfl, hc⟩
  · rfl
  · rw [words, words, if_pos hc, if_pos hc]
    rfl

/-- The characters of a lexeme that is a part of a word. -/
def Lexeme.letters : Lexeme → List Char
  | .name s => s.toList
  | .mark c => [c]
  | .text _ => []

/-- A lexeme that is a part of a word: a name, or a mark of a numeral. -/
def Lexeme.IsPart : Lexeme → Prop
  | .name _ => True
  | .mark c => c ∈ ['+', '-', '.']
  | .text _ => False

/-- Parts of a word are joined to it. -/
theorem words_parts {ls : List Lexeme} (h : ∀ l ∈ ls, l.IsPart) (letters : List Char) (rest : List Lexeme) :
    words letters (ls ++ rest) = words (letters ++ ls.flatMap Lexeme.letters) rest := by
  have hmark : ∀ c ∈ ['+', '-', '.'], isDelimiter c = false := by simp [isDelimiter]
  induction ls generalizing letters with
  | nil => rw [List.flatMap_nil, List.append_nil, List.nil_append]
  | cons l ls ih =>
    rw [List.forall_mem_cons] at h
    rw [List.cons_append, List.flatMap_cons, ← List.append_assoc, ← ih h.2]
    cases l with
    | name s => rfl
    | mark c => rw [words, hmark c h.1]; rfl
    | text s => exact absurd h.1 id

/-- Parts of a word open and close no bracket. -/
theorem nesting_parts {ls : List Lexeme} (h : ∀ l ∈ ls, l.IsPart) (depth : Nat) : Call.nesting depth ls = depth := by
  have hmark : ∀ c ∈ ['+', '-', '.'], ∀ depth, Call.nesting depth [.mark c] = depth := by
    intro c hc depth
    simp only [List.mem_cons, List.not_mem_nil, or_false] at hc
    rcases hc with rfl | rfl | rfl <;> simp [Call.nesting]
  induction ls with
  | nil => rfl
  | cons l ls ih =>
    rw [List.forall_mem_cons] at h
    have hstep : Call.nesting depth (l :: ls) = Call.nesting (Call.nesting depth [l]) ls := rfl
    have hl : Call.nesting depth [l] = depth := by
      cases l with
      | name s => rfl
      | mark c => exact hmark c h.1 depth
      | text s => rfl
    rw [hstep, hl, ih h.2]

/-- Lexemes that fall into some words, texts and delimiters, and close every bracket that they open. -/
structure Spell (ls spelled : List Lexeme) : Prop where
  words : ∀ rest, Delimited rest → Workflow.words [] (ls ++ rest) = spelled ++ Workflow.words [] rest
  nesting : ∀ depth, Call.nesting depth ls = depth

/-- Lexemes that spell the words of a value read back as the value. -/
theorem valueOf?_of_spell {ls : List Lexeme} {v : Json} (h : Spell ls v.words) : valueOf? ls = some v := by
  have hwords := h.words [] (Or.inl rfl)
  have hempty : Workflow.words [] [] = [] := rfl
  rw [List.append_nil, hempty] at hwords
  rw [valueOf?, hwords, LiteralMode.run_words]
  rfl

end Workflow
