import Mathlib
import Workflow.Package.Literal
import Workflow.Proofs.Package.Names

/-!
# Lexemes of a source line

A line of a generated source read from left to right, one character at a time: names, literals of texts with their escapes
resolved, and single marks. Spaces and comments are skipped. A literal reads back as the text that it was made of
(`scan_stringLiteral`).
-/

namespace Workflow

/-- What a line of source is made of. -/
inductive Lexeme
  | name (s : String)
  | text (s : String)
  | mark (c : Char)
  deriving DecidableEq

/-- Where the reading of a line stands: between two lexemes, in a name, in the literal of a text, behind a backslash in one,
behind `\x` and behind the first digit after it, or in a comment. The characters of the lexeme so far come along. -/
inductive LexMode
  | between
  | name (letters : List Char)
  | text (letters : List Char)
  | escape (letters : List Char)
  | firstDigit (letters : List Char)
  | secondDigit (letters : List Char) (high : Nat)
  | comment
  deriving DecidableEq

/-- The value of a lower-case hexadecimal digit. -/
def digitValue? (c : Char) : Option Nat := (List.range 16).find? fun n => Nat.digitChar n == c

/-- The character that a letter stands for behind a backslash. -/
def escaped? : Char → Option Char
  | '"' => some '"'
  | '\\' => some '\\'
  | 'n' => some '\n'
  | 'r' => some '\r'
  | 't' => some '\t'
  | _ => none

namespace LexMode

/-- What a character does between two lexemes. -/
def start (c : Char) : List Lexeme × LexMode :=
  if c = ' ' then ([], between)
  else if c = '#' then ([], comment)
  else if c = '"' then ([], text [])
  else if isNameChar c then ([], name [c])
  else ([.mark c], between)

/-- What a character does: the lexemes that end with it, and how the reading goes on. -/
def step (c : Char) : LexMode → Option (List Lexeme × LexMode)
  | between => some (start c)
  | name letters =>
    if isNameChar c then some ([], name (letters ++ [c]))
    else some (.name (String.ofList letters) :: (start c).1, (start c).2)
  | text letters =>
    if c = '"' then some ([.text (String.ofList letters)], between)
    else if c = '\\' then some ([], escape letters)
    else if c = '\n' || c = '\r' then none
    else some ([], text (letters ++ [c]))
  | escape letters =>
    if c = 'x' then some ([], firstDigit letters) else (escaped? c).map fun d => ([], text (letters ++ [d]))
  | firstDigit letters => (digitValue? c).map fun n => ([], secondDigit letters n)
  | secondDigit letters high => (digitValue? c).map fun n => ([], text (letters ++ [Char.ofNat (16 * high + n)]))
  | comment => some ([], comment)

/-- Reads on along characters. -/
def scan : LexMode → List Char → Option (List Lexeme × LexMode)
  | m, [] => some ([], m)
  | m, c :: rest =>
    match m.step c with
    | none => none
    | some (first, m) => (m.scan rest).map fun (more, m) => (first ++ more, m)

/-- The lexemes that the end of a line ends. The literal of a text must be closed before. -/
def finish : LexMode → Option (List Lexeme)
  | between | comment => some []
  | name letters => some [.name (String.ofList letters)]
  | _ => none

end LexMode

/-- The lexemes of a line. -/
def lexemes? (line : List Char) : Option (List Lexeme) :=
  match LexMode.between.scan line with
  | none => none
  | some (first, m) => m.finish.map (first ++ ·)

namespace LexMode

/-! ## Reading along -/

/-- Reading on along some characters and then others. -/
theorem scan_append {m m' m'' : LexMode} {first second : List Char} {l l' : List Lexeme}
    (h : m.scan first = some (l, m')) (h' : m'.scan second = some (l', m'')) :
    m.scan (first ++ second) = some (l ++ l', m'') := by
  induction first generalizing m l with
  | nil =>
    rw [scan, Option.some.injEq, Prod.mk.injEq] at h
    obtain ⟨rfl, rfl⟩ := h
    exact h'
  | cons c first ih =>
    rw [scan] at h
    rw [List.cons_append, scan]
    cases hs : m.step c with
    | none =>
      rw [hs] at h
      cases h
    | some out =>
      obtain ⟨begun, next⟩ := out
      rw [hs] at h
      obtain ⟨⟨more, last⟩, hmore, heq⟩ := Option.map_eq_some_iff.mp h
      rw [Prod.mk.injEq] at heq
      obtain ⟨rfl, rfl⟩ := heq
      simp only [ih hmore, Option.map_some, List.append_assoc]

/-- Reading on along two texts that are put together. -/
theorem scan_append_string {m m' m'' : LexMode} {s t : String} {l l' : List Lexeme} (h : m.scan s.toList = some (l, m'))
    (h' : m'.scan t.toList = some (l', m'')) : m.scan (s ++ t).toList = some (l ++ l', m'') := by
  rw [String.toList_append]
  exact scan_append h h'

/-! ## Spaces and names -/

/-- Indentation leads to nothing. -/
theorem scan_indentation (depth : Nat) : between.scan (indentation depth).toList = some ([], between) := by
  induction depth with
  | zero => rfl
  | succ depth ih =>
    have hsucc : (indentation (depth + 1)).toList = indent.toList ++ (indentation depth).toList := by
      rw [indentation, List.replicate_succ, String.toList_join, List.flatMap_cons, ← String.toList_join, indentation]
    rw [hsucc]
    exact scan_append (l := []) (by rfl) ih

/-- The characters of a name go on with it. -/
theorem scan_name {letters cs : List Char} (h : ∀ c ∈ cs, isNameChar c = true) :
    (name letters).scan cs = some ([], name (letters ++ cs)) := by
  induction cs generalizing letters with
  | nil => rw [scan, List.append_nil]
  | cons c cs ih =>
    rw [List.forall_mem_cons] at h
    simp only [scan, step, h.1, if_true, ih h.2, Option.map_some, List.nil_append, List.append_assoc, List.cons_append]

/-- A name text is the beginning of a name. -/
theorem scan_nameText {s : String} (h : IsNameText s) : between.scan s.toList = some ([], name s.toList) := by
  obtain ⟨hne, hall⟩ := h
  rw [ne_eq, ← String.toList_eq_nil_iff] at hne
  obtain ⟨c, cs, hcs⟩ := List.exists_cons_of_ne_nil hne
  rw [hcs] at hall ⊢
  rw [List.forall_mem_cons] at hall
  have hstart : start c = ([], name [c]) := by
    have hc : ∀ d, isNameChar d = false → c ≠ d := by
      intro d hd heq
      rw [heq, hd] at hall
      exact absurd hall.1 Bool.false_ne_true
    rw [start, if_neg (hc ' ' rfl), if_neg (hc '#' rfl), if_neg (hc '"' rfl), if_pos hall.1]
  simp only [scan, step, hstart, scan_name hall.2, Option.map_some, List.nil_append, List.cons_append]

/-- A name ends before a character that is none of a name. -/
theorem scan_leave (s : String) {c : Char} {rest : List Char} {l : List Lexeme} {m : LexMode} (hc : isNameChar c = false)
    (h : between.scan (c :: rest) = some (l, m)) : (name s.toList).scan (c :: rest) = some (.name s :: l, m) := by
  simp only [scan, step, hc, Bool.false_eq_true, if_false, String.ofList_toList, Option.map_eq_some_iff, Prod.mk.injEq] at h ⊢
  obtain ⟨out, hout, rfl, rfl⟩ := h
  exact ⟨out, hout, rfl, rfl⟩

/-- Nothing ends a comment before the end of its line. -/
theorem scan_comment (cs : List Char) : comment.scan cs = some ([], comment) := by
  induction cs with
  | nil => rfl
  | cons c cs ih => simp only [scan, step, ih, Option.map_some, List.nil_append]

/-! ## Literals of texts -/

/-- The two hexadecimal digits of a small number give it back. -/
theorem digitValue?_hexPair (n : Nat) (h : n < 256) :
    digitValue? (Nat.digitChar (n / 16 % 16)) = some (n / 16) ∧ digitValue? (Nat.digitChar (n % 16)) = some (n % 16) := by
  have hall : ∀ k < 16, digitValue? (Nat.digitChar k) = some k := by decide
  have hhigh : n / 16 % 16 = n / 16 := by omega
  rw [hhigh]
  exact ⟨hall _ (by omega), hall _ (by omega)⟩

/-- The characters of a number in hexadecimal. -/
theorem toList_hexPair (n : Nat) :
    ("\\x" ++ hexPair n).toList = ['\\', 'x', Nat.digitChar (n / 16 % 16), Nat.digitChar (n % 16)] := by
  simp only [hexPair, String.toList_append, String.toList_ofList]
  rfl

/-- A character as it stands inside a literal reads back as that character. -/
theorem scan_literalChar (letters : List Char) (c : Char) :
    (text letters).scan (literalChar c).toList = some ([], text (letters ++ [c])) := by
  rw [literalChar]
  by_cases hquote : c = '"'
  · rw [if_pos hquote, hquote]
    rfl
  by_cases hslash : c = '\\'
  · rw [if_neg hquote, if_pos hslash, hslash]
    rfl
  by_cases hfeed : c = '\n'
  · rw [if_neg hquote, if_neg hslash, if_pos hfeed, hfeed]
    rfl
  by_cases hreturn : c = '\r'
  · rw [if_neg hquote, if_neg hslash, if_neg hfeed, if_pos hreturn, hreturn]
    rfl
  by_cases htab : c = '\t'
  · rw [if_neg hquote, if_neg hslash, if_neg hfeed, if_neg hreturn, if_pos htab, htab]
    rfl
  rw [if_neg hquote, if_neg hslash, if_neg hfeed, if_neg hreturn, if_neg htab]
  split
  · next hcontrol =>
    have hsmall : c.toNat < 256 := by
      rw [Bool.or_eq_true, decide_eq_true_eq, beq_iff_eq] at hcontrol
      omega
    obtain ⟨hhigh, hlow⟩ := digitValue?_hexPair c.toNat hsmall
    have hvalue : 16 * (c.toNat / 16) + c.toNat % 16 = c.toNat := Nat.div_add_mod _ _
    have hx : (text letters).scan ['\\', 'x'] = some ([], firstDigit letters) := rfl
    rw [toList_hexPair]
    refine scan_append (l := []) hx ?_
    simp only [scan, step, hhigh, hlow, Option.map_some, hvalue, Char.ofNat_toNat, List.append_nil]
  · have hself : c.toString.toList = [c] := String.toList_singleton c
    have hline : (c = '\n' || c = '\r') = false := by simp [hfeed, hreturn]
    simp only [hself, scan, step, hquote, hslash, hline, if_false, Bool.false_eq_true, Option.map_some, List.append_nil]

/-- The characters of a text as they stand inside a literal read back as those characters. -/
theorem scan_literalChars (letters cs : List Char) :
    (text letters).scan (cs.flatMap fun c => (literalChar c).toList) = some ([], text (letters ++ cs)) := by
  induction cs generalizing letters with
  | nil => rw [List.flatMap_nil, scan, List.append_nil]
  | cons c cs ih =>
    have hrest := ih (letters ++ [c])
    rw [List.append_assoc, List.singleton_append] at hrest
    rw [List.flatMap_cons]
    exact scan_append (l := []) (scan_literalChar letters c) hrest

/-- The literal of a text reads back as that text. -/
theorem scan_stringLiteral (s : String) : between.scan (stringLiteral s).toList = some ([.text s], between) := by
  have hchars : (stringLiteral s).toList = ['"'] ++ (s.toList.flatMap (fun c => (literalChar c).toList) ++ ['"']) := by
    rw [stringLiteral, String.toList_append, String.toList_append, String.toList_join, List.flatMap_map, List.append_assoc]
    rfl
  have hopen : between.scan ['"'] = some ([], text []) := rfl
  have hclose : (text s.toList).scan ['"'] = some ([.text s], between) := by
    simp only [scan, step, if_true, String.ofList_toList, Option.map_some, List.append_nil]
  rw [hchars]
  exact scan_append (l := []) hopen (scan_append (l := []) (scan_literalChars [] s.toList) hclose)

/-! ## What a literal is written with -/

/-- A character that is no control character. -/
def IsPlain (c : Char) : Prop := 0x20 ≤ c.toNat ∧ c.toNat ≠ 0x7F

instance : DecidablePred IsPlain := fun _ => inferInstanceAs (Decidable (_ ∧ _))

/-- A character stands inside a literal without control characters. -/
theorem isPlain_of_mem_literalChar (c : Char) : ∀ x ∈ (literalChar c).toList, IsPlain x := by
  have hpair : ∀ a b : Char, IsPlain a → IsPlain b → ∀ x ∈ [a, b], IsPlain x := by
    intro a b ha hb x hx
    rcases List.mem_pair.mp hx with rfl | rfl
    · exact ha
    · exact hb
  rw [literalChar]
  split
  · exact hpair '\\' '"' (by decide) (by decide)
  split
  · exact hpair '\\' '\\' (by decide) (by decide)
  split
  · exact hpair '\\' 'n' (by decide) (by decide)
  split
  · exact hpair '\\' 'r' (by decide) (by decide)
  split
  · exact hpair '\\' 't' (by decide) (by decide)
  split
  · have hdigit : ∀ k < 16, IsPlain (Nat.digitChar k) := by decide
    rw [toList_hexPair]
    intro x hx
    rcases List.mem_append.mp (show x ∈ ['\\', 'x'] ++ [_, _] from hx) with hx | hx
    · exact hpair _ _ (by decide) (by decide) x hx
    · exact hpair _ _ (hdigit _ (Nat.mod_lt _ (by decide))) (hdigit _ (Nat.mod_lt _ (by decide))) x hx
  · next hplain =>
    rw [Bool.or_eq_true, decide_eq_true_eq, beq_iff_eq, not_or, Nat.not_lt] at hplain
    intro x hx
    rw [Char.toString_eq_singleton, String.toList_singleton, List.mem_singleton] at hx
    rw [hx]
    exact hplain

/-- A literal is written without control characters. -/
theorem isPlain_of_mem_stringLiteral (s : String) : ∀ x ∈ (stringLiteral s).toList, IsPlain x := by
  intro x hx
  rw [stringLiteral, String.toList_append, String.toList_append, String.toList_join, List.flatMap_map, List.mem_append,
    List.mem_append] at hx
  rcases hx with (hx | hx) | hx
  · rw [List.mem_singleton.mp hx]
    decide
  · obtain ⟨c, -, hx⟩ := List.mem_flatMap.mp hx
    exact isPlain_of_mem_literalChar c x hx
  · rw [List.mem_singleton.mp hx]
    decide

/-- Every literal is on one line. -/
theorem oneLine_stringLiteral (s : String) : OneLine (stringLiteral s) := by
  intro hmem
  have hplain := isPlain_of_mem_stringLiteral s _ hmem
  exact absurd hplain (by decide)

end LexMode

end Workflow
