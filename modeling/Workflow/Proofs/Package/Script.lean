import Mathlib
import Workflow.Package.Literal
import Workflow.Proofs.Number.Numeral
import Workflow.Proofs.Package.Lexeme

/-!
# Scripts read as a whole

A whole script read from left to right, with comments and with literals between one or three quotes. The reading stops where a
line ends inside a literal between one quote, and it says of each character what it belongs to. A script made of fixed wordings
and of texts from elsewhere is sealed if each of these texts stands where it may.
-/

namespace Workflow

/-- What a character of a script belongs to. Outside of comments and literals it begins something or goes on with a word. A
literal that is opened right behind a word is set apart, for the word may change its meaning, and so is one between three
quotes. -/
inductive Region
  | outside
  | within
  | comment
  | text
  | prefixed
  | long
  deriving DecidableEq

/-- Where the reading of a script stands: outside, in a word, in a comment, behind one or two quotes, in a literal, behind a
backslash there; in a literal between three quotes behind some of those that may close it, behind a backslash there. -/
inductive ScriptMode
  | outside
  | word
  | comment
  | opened
  | emptied
  | text
  | escape
  | long (quotes : Nat)
  | longEscape
  deriving DecidableEq

/-- Whether a line ends at a character. -/
def isBreak (c : Char) : Bool := c == '\n' || c == '\r'

namespace ScriptMode

/-- What a character begins outside. Literals between other quotes and joined lines are not read. -/
def begin (c : Char) : Option (Region × ScriptMode) :=
  if c = '#' then some (.comment, comment)
  else if c = '"' then some (.text, opened)
  else if c = '\'' || c = '\\' then none
  else some (.outside, if isNameChar c then word else outside)

/-- What a character does inside a literal. -/
def go (c : Char) : Option (Region × ScriptMode) :=
  if c = '"' then some (.text, outside)
  else if c = '\\' then some (.text, escape)
  else if isBreak c then none
  else some (.text, text)

/-- What a character belongs to, and how the reading goes on. -/
def step (c : Char) : ScriptMode → Option (Region × ScriptMode)
  | outside => begin c
  | word =>
    if isNameChar c then some (.within, word)
    else if c = '"' then some (.prefixed, opened)
    else begin c
  | comment => some (if isBreak c then (.outside, outside) else (.comment, comment))
  | opened => if c = '"' then some (.text, emptied) else go c
  | emptied => if c = '"' then some (.long, long 0) else begin c
  | text => go c
  | escape => if isBreak c then none else some (.text, text)
  | long quotes =>
    if c = '"' then some (.long, if quotes = 2 then outside else long (quotes + 1))
    else some (.long, if c = '\\' then longEscape else long 0)
  | longEscape => some (.long, long 0)

/-- Reads on along characters, and says of each of them what it belongs to. -/
def scan : ScriptMode → List Char → Option (List Region × ScriptMode)
  | m, [] => some ([], m)
  | m, c :: rest =>
    match m.step c with
    | none => none
    | some (r, m) => (m.scan rest).map fun (more, m) => (r :: more, m)

/-! ## Reading along -/

/-- Reading on along some characters and then others. -/
theorem scan_append {m m' m'' : ScriptMode} {first second : List Char} {marks marks' : List Region}
    (h : m.scan first = some (marks, m')) (h' : m'.scan second = some (marks', m'')) :
    m.scan (first ++ second) = some (marks ++ marks', m'') := by
  induction first generalizing m marks with
  | nil =>
    rw [scan, Option.some.injEq, Prod.mk.injEq] at h
    obtain ⟨rfl, rfl⟩ := h
    exact h'
  | cons c first ih =>
    rw [scan] at h
    rw [List.cons_append, scan]
    cases hs : m.step c with
    | none =>
      rw [hs] at h
      cases h
    | some out =>
      rw [hs] at h
      obtain ⟨⟨more, last⟩, hmore, heq⟩ := Option.map_eq_some_iff.mp h
      rw [Prod.mk.injEq] at heq
      obtain ⟨rfl, rfl⟩ := heq
      simp only [ih hmore, Option.map_some, List.cons_append]

/-- Every character that is read belongs to something. -/
theorem length_of_scan {m m' : ScriptMode} {cs : List Char} {marks : List Region} (h : m.scan cs = some (marks, m')) :
    marks.length = cs.length := by
  induction cs generalizing m marks with
  | nil =>
    rw [scan, Option.some.injEq, Prod.mk.injEq] at h
    rw [← h.1]
    rfl
  | cons c cs ih =>
    rw [scan] at h
    cases hs : m.step c with
    | none =>
      rw [hs] at h
      cases h
    | some out =>
      rw [hs] at h
      obtain ⟨⟨more, last⟩, hmore, heq⟩ := Option.map_eq_some_iff.mp h
      rw [Prod.mk.injEq] at heq
      obtain ⟨rfl, rfl⟩ := heq
      rw [List.length_cons, List.length_cons, ih hmore]

/-- A character after which the reading stands in the same place is read so. -/
theorem scan_of_step {m : ScriptMode} {r : Region} {cs : List Char} (h : ∀ c ∈ cs, m.step c = some (r, m)) :
    m.scan cs = some (cs.map fun _ => r, m) := by
  induction cs with
  | nil => rfl
  | cons c cs ih =>
    rw [List.forall_mem_cons] at h
    simp only [scan, h.1, ih h.2, Option.map_some, List.map_cons]

/-- Two modes that do the same with the first character read the same. -/
theorem scan_congr {m m' : ScriptMode} {c : Char} (h : m.step c = m'.step c) (rest : List Char) :
    m.scan (c :: rest) = m'.scan (c :: rest) := by
  rw [scan, scan, h]

/-! ## Comments and literals -/

/-- What holds no line break goes on with a comment. -/
theorem scan_comment {cs : List Char} (h : ∀ c ∈ cs, isBreak c = false) :
    comment.scan cs = some (cs.map fun _ => .comment, comment) := by
  refine scan_of_step fun c hc => ?_
  rw [step, h c hc]
  rfl

/-- A character that stands for itself inside a literal. -/
def StandsForItself (c : Char) : Prop := c ≠ '"' ∧ c ≠ '\\' ∧ isBreak c = false

/-- Such a character goes on with the literal. -/
theorem go_of_standsForItself {c : Char} (h : StandsForItself c) : go c = some (.text, text) := by
  obtain ⟨hquote, hslash, hbreak⟩ := h
  rw [go, if_neg hquote, if_neg hslash, hbreak]
  rfl

/-- A character stands inside a literal by itself, or by a backslash with characters after it that end neither the line nor the
literal. -/
theorem literalChar_shape (c : Char) :
    (∃ d, (literalChar c).toList = [d] ∧ StandsForItself d) ∨
      ∃ d rest, (literalChar c).toList = '\\' :: d :: rest ∧ isBreak d = false ∧ ∀ x ∈ rest, StandsForItself x := by
  have hpair : ∀ {s : String} (d : Char), s.toList = ['\\', d] → isBreak d = false →
      (∃ d, s.toList = [d] ∧ StandsForItself d) ∨
        ∃ d rest, s.toList = '\\' :: d :: rest ∧ isBreak d = false ∧ ∀ x ∈ rest, StandsForItself x :=
    fun d hs hd => Or.inr ⟨d, [], hs, hd, fun x hx => absurd hx List.not_mem_nil⟩
  rw [literalChar]
  split
  · exact hpair '"' rfl rfl
  split
  · exact hpair '\\' rfl rfl
  split
  · exact hpair 'n' rfl rfl
  split
  · exact hpair 'r' rfl rfl
  split
  · exact hpair 't' rfl rfl
  split
  · have hdigit : ∀ k < 16, Nat.digitChar k ≠ '"' ∧ Nat.digitChar k ≠ '\\' ∧ isBreak (Nat.digitChar k) = false := by decide
    refine Or.inr ⟨'x', _, LexMode.toList_hexPair c.toNat, rfl, fun x hx => ?_⟩
    rcases List.mem_pair.mp hx with rfl | rfl
    · exact hdigit _ (Nat.mod_lt _ (by decide))
    · exact hdigit _ (Nat.mod_lt _ (by decide))
  · next hquote hslash hfeed hreturn _ _ =>
    refine Or.inl ⟨c, String.toList_singleton c, hquote, hslash, ?_⟩
    rw [isBreak, beq_eq_false_iff_ne.mpr hfeed, beq_eq_false_iff_ne.mpr hreturn]
    rfl

/-- What a character stands by inside a literal goes on with it. -/
theorem scan_literalChar (c : Char) :
    text.scan (literalChar c).toList = some ((literalChar c).toList.map fun _ => .text, text) := by
  rcases literalChar_shape c with ⟨d, hd, hitself⟩ | ⟨d, rest, hd, hbreak, hrest⟩
  · rw [hd]
    refine scan_of_step fun x hx => ?_
    rw [List.mem_singleton.mp hx]
    exact go_of_standsForItself hitself
  · have hescape : text.scan ['\\', d] = some ([.text, .text], text) := by
      have hslash : text.step '\\' = some (.text, escape) := rfl
      have hd : escape.step d = some (.text, text) := by rw [step, hbreak]; rfl
      simp only [scan, hslash, hd, Option.map_some]
    rw [hd]
    exact scan_append hescape (scan_of_step fun x hx => go_of_standsForItself (hrest x hx))

/-- What the characters of a text stand by inside a literal goes on with it. -/
theorem scan_literalChars (cs : List Char) :
    text.scan (cs.flatMap fun c => (literalChar c).toList) =
      some ((cs.flatMap fun c => (literalChar c).toList).map fun _ => .text, text) := by
  induction cs with
  | nil => rfl
  | cons c cs ih =>
    rw [List.flatMap_cons, List.map_append]
    exact scan_append (scan_literalChar c) ih

/-- Behind the first quote a literal goes on as it does later, unless it is empty. -/
theorem scan_opened (c : Char) (cs : List Char) :
    opened.scan ((c :: cs).flatMap fun c => (literalChar c).toList) =
      text.scan ((c :: cs).flatMap fun c => (literalChar c).toList) := by
  rw [List.flatMap_cons]
  rcases literalChar_shape c with ⟨d, hd, hquote, -⟩ | ⟨d, rest, hd, -⟩
  · have hstep : opened.step d = text.step d := if_neg hquote
    rw [hd]
    exact scan_congr hstep _
  · rw [hd]
    exact scan_congr rfl _

/-- All characters of the literal of a text belong to a literal, and behind it the reading stands outside or, if the text is
empty, behind two quotes. -/
theorem scan_stringLiteral (s : String) :
    ∃ m, (m = outside ∨ m = emptied) ∧
      outside.scan (stringLiteral s).toList = some ((stringLiteral s).toList.map fun _ => .text, m) := by
  have hchars : (stringLiteral s).toList = ['"'] ++ (s.toList.flatMap (fun c => (literalChar c).toList) ++ ['"']) := by
    rw [stringLiteral, String.toList_append, String.toList_append, String.toList_join, List.flatMap_map, List.append_assoc]
    rfl
  have hopen : outside.scan ['"'] = some ([.text], opened) := rfl
  have hclose : text.scan ['"'] = some ([.text], outside) := rfl
  rw [hchars, List.map_append, List.map_append]
  cases s.toList with
  | nil => exact ⟨emptied, Or.inr rfl, rfl⟩
  | cons c cs =>
    have hbody := scan_literalChars (c :: cs)
    rw [← scan_opened] at hbody
    exact ⟨outside, Or.inl rfl, scan_append hopen (scan_append hbody hclose)⟩

/-- A literal that is open at the end of a line is not read. -/
example : outside.scan ['"', 'a', '\n', '"'] = none := by decide

/-! ## Outside -/

/-- A character that begins neither a comment nor a literal and joins no lines. -/
def isBare (c : Char) : Bool := c != '#' && c != '"' && c != '\'' && c != '\\'

/-- Nothing but outside of comments and literals, and not going on with a word. -/
def Bare (marks : List Region) : Prop :=
  marks.head? = some .outside ∧ ∀ r ∈ marks, r = .outside ∨ r = .within

/-- What a bare character does outside or in a word. -/
theorem step_of_isBare {c : Char} (h : isBare c = true) :
    (∃ m, (m = outside ∨ m = word) ∧ outside.step c = some (.outside, m)) ∧
      ∃ r m, (m = outside ∨ m = word) ∧ (r = .outside ∨ r = .within) ∧ word.step c = some (r, m) := by
  simp only [isBare, Bool.and_eq_true, bne_iff_ne] at h
  obtain ⟨⟨⟨hhash, hquote⟩, hsingle⟩, hslash⟩ := h
  have hbegin : begin c = some (.outside, if isNameChar c then word else outside) := by
    simp only [begin, hhash, hquote, hsingle, hslash, if_false, decide_false, Bool.or_false, Bool.false_eq_true]
  have hmode : (if isNameChar c then word else outside) = outside ∨ (if isNameChar c then word else outside) = word := by
    split
    · exact Or.inr rfl
    · exact Or.inl rfl
  refine ⟨⟨_, hmode, hbegin⟩, ?_⟩
  rw [step]
  split
  · exact ⟨.within, word, Or.inr rfl, Or.inr rfl, rfl⟩
  · exact ⟨.outside, _, hmode, Or.inl rfl, hbegin⟩

/-- Bare characters are read outside or in a word. -/
theorem scan_of_isBare {m : ScriptMode} (hm : m = outside ∨ m = word) {cs : List Char} (h : ∀ c ∈ cs, isBare c = true) :
    ∃ marks m', (m' = outside ∨ m' = word) ∧ (∀ r ∈ marks, r = .outside ∨ r = .within) ∧ m.scan cs = some (marks, m') := by
  induction cs generalizing m with
  | nil => exact ⟨[], m, hm, fun r hr => absurd hr List.not_mem_nil, rfl⟩
  | cons c cs ih =>
    rw [List.forall_mem_cons] at h
    obtain ⟨houtside, hword⟩ := step_of_isBare h.1
    obtain ⟨r, next, hnext, hr, hstep⟩ : ∃ r next, (next = outside ∨ next = word) ∧ (r = .outside ∨ r = .within) ∧
        m.step c = some (r, next) := by
      rcases hm with rfl | rfl
      · obtain ⟨next, hnext, hstep⟩ := houtside
        exact ⟨.outside, next, hnext, Or.inl rfl, hstep⟩
      · exact hword
    obtain ⟨marks, m', hm', hmarks, hscan⟩ := ih hnext h.2
    refine ⟨r :: marks, m', hm', List.forall_mem_cons.mpr ⟨hr, hmarks⟩, ?_⟩
    simp only [scan, hstep, hscan, Option.map_some]

/-- Bare characters outside begin something. -/
theorem scan_outside_of_isBare {c : Char} {cs : List Char} (h : ∀ d ∈ c :: cs, isBare d = true) :
    ∃ marks m, (m = outside ∨ m = word) ∧ Bare marks ∧ outside.scan (c :: cs) = some (marks, m) := by
  obtain ⟨⟨next, hnext, hstep⟩, -⟩ := step_of_isBare (h c List.mem_cons_self)
  obtain ⟨marks, m, hm, hmarks, hscan⟩ := scan_of_isBare hnext fun d hd => h d (List.mem_cons_of_mem c hd)
  refine ⟨.outside :: marks, m, hm, ⟨rfl, List.forall_mem_cons.mpr ⟨Or.inl rfl, hmarks⟩⟩, ?_⟩
  simp only [scan, hstep, hscan, Option.map_some]

/-- A character that ends a word and opens no literal does the same outside, behind a word and behind an empty literal. -/
theorem step_eq_outside {m : ScriptMode} (hm : m = outside ∨ m = word ∨ m = emptied) {c : Char} (hname : isNameChar c = false)
    (hquote : c ≠ '"') : m.step c = outside.step c := by
  rcases hm with rfl | rfl | rfl
  · rfl
  · simp only [step, hname, hquote, Bool.false_eq_true, if_false]
  · simp only [step, hquote, if_false]

end ScriptMode

end Workflow
