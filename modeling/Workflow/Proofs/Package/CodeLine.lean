import Mathlib
import Workflow.Proofs.Number.Numeral
import Workflow.Proofs.Package.Lexeme
import Workflow.Proofs.Package.Rows

/-!
# Lines of code

Which lines of a text are comments, and how it is seen of a text in pieces that none of its lines is one: the pieces are read one
after the other (`readCode`), with nothing kept between them but whether the last line holds spaces only so far. The literal of a
value, which may spread over many lines, is read from any place to a line that is begun (`Solid.literal`).
-/

namespace Workflow

/-! ## Comments -/

/-- Whether a line is a comment: the first of its characters that is no space is `#`. -/
def isComment (line : List Char) : Bool := (line.dropWhile (· == ' ')).head? == some '#'

/-- Indentation makes no comment and hides none. -/
theorem isComment_indented (depth : Nat) (s : String) : isComment (indentation depth ++ s).toList = isComment s.toList := by
  induction depth with
  | zero => rw [indentation, List.replicate_zero, String.join_nil, String.empty_append]
  | succ depth ih =>
    rw [← ih, indentation, List.replicate_succ, String.join_cons, String.append_assoc, String.toList_append, ← indentation]
    rfl

/-! ## Reading code -/

/-- Reads characters that begin somewhere on a line, given whether the line holds spaces only so far, and says whether the last line
that is begun does. The reading stops at a comment. -/
def readCode : Bool → List Char → Option Bool
  | fresh, [] => some fresh
  | fresh, c :: rest =>
    if c = '\n' then readCode true rest
    else if fresh && c == '#' then none
    else readCode (fresh && c == ' ') rest

/-- A text that can be read, from a place on a line to another. -/
def Reads (fresh : Bool) (s : String) (fresh' : Bool) : Prop := readCode fresh s.toList = some fresh'

instance (fresh fresh' : Bool) : DecidablePred (Reads fresh · fresh') := fun _ => inferInstanceAs (Decidable (_ = _))

/-- A text that is code wherever it stands, and leaves its last line with something else than spaces. -/
def Solid (s : String) : Prop := ∀ fresh, Reads fresh s false

instance : DecidablePred Solid := fun _ => inferInstanceAs (Decidable (∀ _, _))

/-- Characters are read before those after them. -/
theorem readCode_append {fresh fresh' : Bool} {first second : List Char} (h : readCode fresh first = some fresh') :
    readCode fresh (first ++ second) = readCode fresh' second := by
  induction first generalizing fresh with
  | nil => rw [← Option.some.inj h, List.nil_append]
  | cons c first ih =>
    rw [readCode] at h
    rw [List.cons_append, readCode]
    split
    · next hfeed =>
      rw [if_pos hfeed] at h
      exact ih h
    · next hfeed =>
      rw [if_neg hfeed] at h
      split
      · next hhash =>
        rw [if_pos hhash] at h
        cases h
      · next hhash =>
        rw [if_neg hhash] at h
        exact ih h

/-- Texts that are read one after the other are read together. -/
theorem Reads.append {a b c : Bool} {s t : String} (hs : Reads a s b) (ht : Reads b t c) : Reads a (s ++ t) c := by
  rw [Reads, String.toList_append, readCode_append hs]
  exact ht

/-- Behind the beginning of a line nothing but a line feed matters. -/
theorem Reads.of_oneLine {s : String} (h : OneLine s) : Reads false s false := by
  rw [OneLine] at h
  rw [Reads]
  generalize s.toList = cs at h
  induction cs with
  | nil => rfl
  | cons c rest ih =>
    rw [List.mem_cons, not_or] at h
    rw [readCode, if_neg (Ne.symm h.1), Bool.false_and, Bool.false_and]
    exact ih h.2

/-- No line that begins in a text that can be read is a comment, and neither is the one on which it begins, if it holds spaces only
up to there. -/
theorem not_isComment_of_readCode {cs : List Char} {fresh fresh' : Bool} {first : List Char} {parts : List (List Char)}
    (h : readCode fresh cs = some fresh') (hparts : partsBetween '\n' cs = first :: parts) :
    (fresh = true → isComment first = false) ∧ ∀ part ∈ parts, isComment part = false := by
  induction cs generalizing fresh first parts with
  | nil =>
    obtain ⟨rfl, rfl⟩ := List.cons.inj hparts
    exact ⟨fun _ => rfl, fun part hp => absurd hp List.not_mem_nil⟩
  | cons c cs ih =>
    obtain ⟨next, others, hnext⟩ := List.exists_cons_of_ne_nil (partsBetween_ne_nil '\n' cs)
    simp only [partsBetween, hnext] at hparts
    rw [readCode] at h
    split at h
    · next hfeed =>
      -- The line that begins here begins with a line feed, and is empty.
      rw [if_pos hfeed] at hparts
      obtain ⟨rfl, rfl⟩ := List.cons.inj hparts
      obtain ⟨hfirst, hothers⟩ := ih h hnext
      exact ⟨fun _ => rfl, List.forall_mem_cons.mpr ⟨hfirst rfl, hothers⟩⟩
    · next hfeed =>
      rw [if_neg hfeed] at hparts
      obtain ⟨rfl, rfl⟩ := List.cons.inj hparts
      split at h
      · cases h
      · next hhash =>
        obtain ⟨hfirst, hothers⟩ := ih h hnext
        refine ⟨fun hfresh => ?_, hothers⟩
        rw [hfresh, Bool.true_and] at hfirst hhash
        rw [isComment, List.dropWhile_cons]
        split
        · next hspace => exact hfirst hspace
        · exact Bool.eq_false_iff.mpr hhash

/-- A line of a source that stands for no comment. -/
def Line.IsCode (l : Line) : Prop := ∀ s ∈ l.physical, isComment s.toList = false

/-- A line whose characters are read from its beginning on is code. -/
theorem isCode_of_readCode {cs : List Char} {fresh : Bool} (h : readCode true cs = some fresh) (depth : Nat) :
    (Line.mk depth (String.ofList cs)).IsCode := by
  obtain ⟨first, parts, hparts⟩ := List.exists_cons_of_ne_nil (partsBetween_ne_nil '\n' cs)
  obtain ⟨hfirst, hothers⟩ := not_isComment_of_readCode h hparts
  intro s hs
  rw [Line.physical, String.toList_ofList, hparts] at hs
  obtain ⟨part, hp, rfl⟩ := List.mem_map.mp hs
  split
  · rfl
  · rw [isComment_indented, String.toList_ofList]
    rcases List.mem_cons.mp hp with rfl | hp
    · exact hfirst rfl
    · exact hothers part hp

/-- A source of code alone has no comment. -/
theorem not_isComment_renderLines {lines : List Line} (h : ∀ l ∈ lines, l.IsCode) :
    ∀ line ∈ linesOf (renderLines lines), isComment line = false := by
  rw [lines_renderLines]
  refine List.forall_mem_append.mpr ⟨fun line hline => ?_, List.forall_mem_singleton.mpr rfl⟩
  obtain ⟨s, hs, rfl⟩ := List.mem_map.mp hline
  obtain ⟨l, hl, hs⟩ := List.mem_flatMap.mp hs
  exact h l hl s hs

/-! ## Solid texts -/

namespace Solid

variable {s t : String} {depth : Nat}

/-- A text on one line that begins with neither a space nor `#` is solid. -/
theorem of_head {c : Char} (hclean : OneLine s) (hhead : s.toList.head? = some c) (hspace : c ≠ ' ') (hhash : c ≠ '#') :
    Solid s := by
  obtain ⟨rest, hrest⟩ := List.head?_eq_some_iff.mp hhead
  have hfeed : c ≠ '\n' ∧ '\n' ∉ rest := by
    rw [OneLine, hrest, List.mem_cons, not_or] at hclean
    exact ⟨Ne.symm hclean.1, hclean.2⟩
  have hbehind : Reads false (String.ofList rest) false :=
    Reads.of_oneLine (by rw [OneLine, String.toList_ofList]; exact hfeed.2)
  rw [Reads, String.toList_ofList] at hbehind
  intro fresh
  rw [Reads, hrest, readCode, if_neg hfeed.1, beq_eq_false_iff_ne.mpr hhash, beq_eq_false_iff_ne.mpr hspace, Bool.and_false]
  exact hbehind

/-- A solid text goes on with whatever stays on its line. -/
theorem append (hs : Solid s) (ht : OneLine t) : Solid (s ++ t) := fun fresh => (hs fresh).append (Reads.of_oneLine ht)

/-- A solid text goes on with another. -/
theorem append_solid (hs : Solid s) (ht : Solid t) : Solid (s ++ t) := fun fresh => (hs fresh).append (ht false)

/-- A line with a solid text is code. -/
theorem isCode (h : Solid s) (depth : Nat) : (Line.mk depth s).IsCode := by
  have hcode := isCode_of_readCode (h true) depth
  rwa [String.ofList_toList] at hcode

/-- A text of name characters is solid. -/
theorem of_isNameText (h : IsNameText s) : Solid s := by
  obtain ⟨c, rest, hrest⟩ := List.exists_cons_of_ne_nil (mt String.toList_eq_nil_iff.mp h.1)
  have hname : isNameChar c = true := h.2 c (hrest ▸ List.mem_cons_self)
  refine of_head h.oneLine (hrest ▸ List.head?_cons) ?_ ?_ <;>
    exact fun hc => absurd hname (by rw [hc]; decide)

/-- A numeral is solid. -/
theorem of_isNumeral (h : IsNumeral s) : Solid s := by
  obtain ⟨c, rest, hrest⟩ := List.exists_cons_of_ne_nil h.ne_nil
  have hchars : ∀ d ∈ s.toList, d ≠ '\n' ∧ d ≠ ' ' ∧ d ≠ '#' := by
    refine h.forall_mem (fun d hd => ?_) (by simp)
    refine ⟨?_, ?_, ?_⟩ <;> exact fun hc => absurd hd (by rw [hc]; decide)
  obtain ⟨-, hspace, hhash⟩ := hchars c (hrest ▸ List.mem_cons_self)
  exact of_head (fun hmem => (hchars _ hmem).1 rfl) (hrest ▸ List.head?_cons) hspace hhash

/-- The literal of a text is solid. -/
theorem stringLiteral (s : String) : Solid (stringLiteral s) :=
  of_head (LexMode.oneLine_stringLiteral s) (head?_append (head?_append (c := '"') (by decide) _) _) (by decide) (by decide)

/-- The literal of a text between a solid text and what stays on its line. -/
theorem around {before after : String} (hbefore : Solid before) (text : String) (hafter : OneLine after) :
    Solid (before ++ Workflow.stringLiteral text ++ after) :=
  (hbefore.append_solid (stringLiteral text)).append hafter

/-! ## Literals of values -/

/-- Indentation leaves a line as it was begun. -/
theorem reads_indentation (depth : Nat) : Reads true (indentation depth) true := by
  induction depth with
  | zero => decide
  | succ depth ih =>
    rw [indentation, List.replicate_succ, String.join_cons]
    exact Reads.append (by decide) ih

/-- The lines of solid elements end where a line begins. -/
theorem reads_elementLines (depth : Nat) {elements : List String} (h : ∀ e ∈ elements, Solid e) :
    Reads true (elementLines depth elements) true := by
  have hcomma : Reads false ",\n" true := by decide
  rw [elementLines]
  induction elements with
  | nil => exact rfl
  | cons e elements ih =>
    rw [List.forall_mem_cons] at h
    rw [List.map_cons, String.join_cons]
    exact (((reads_indentation (depth + 1)).append (h.1 true)).append hcomma).append (ih h.2)

/-- A container of solid elements is solid. -/
theorem container {opening closing : String} {elements : List String} (hopening : ∀ fresh, Reads fresh opening true)
    (hclosing : Solid closing) (h : ∀ e ∈ elements, Solid e) :
    Solid (opening ++ elementLines depth elements ++ indentation depth ++ closing) := fun fresh =>
  (((hopening fresh).append (reads_elementLines depth h)).append (reads_indentation depth)).append (hclosing true)

mutual

/-- The literal of a value is solid. -/
theorem literal (depth : Nat) (v : Json) : Solid (literal depth v) := by
  cases v with
  | null => rw [Workflow.literal]; decide
  | bool b => cases b <;> rw [Workflow.literal] <;> decide
  | int n => rw [Workflow.literal]; exact of_isNumeral (isNumeral_toString n)
  | real x => rw [Workflow.literal]; exact of_isNumeral (isNumeral_finiteText x)
  | str s => rw [Workflow.literal]; exact stringLiteral s
  | arr items =>
    cases items with
    | nil => rw [Workflow.literal]; decide
    | cons item items =>
      simp only [Workflow.literal]
      exact container (by decide) (by decide) (literalItems (depth + 1) (item :: items))
  | obj entries =>
    cases entries with
    | nil => rw [Workflow.literal]; decide
    | cons entry entries =>
      simp only [Workflow.literal]
      exact container (by decide) (by decide) (literalEntries (depth + 1) (entry :: entries))

/-- The literals of the items of an array are solid. -/
theorem literalItems (depth : Nat) (items : List Json) : ∀ e ∈ literalItems depth items, Solid e := by
  cases items with
  | nil => exact fun e he => absurd he List.not_mem_nil
  | cons item items =>
    rw [Workflow.literalItems, List.forall_mem_cons]
    exact ⟨literal depth item, literalItems depth items⟩

/-- The literals of the entries of an object are solid. -/
theorem literalEntries (depth : Nat) (entries : List (String × Json)) : ∀ e ∈ literalEntries depth entries, Solid e := by
  cases entries with
  | nil => exact fun e he => absurd he List.not_mem_nil
  | cons entry entries =>
    obtain ⟨k, v⟩ := entry
    rw [Workflow.literalEntries, List.forall_mem_cons]
    exact ⟨((stringLiteral k).append (by decide)).append_solid (literal depth v), literalEntries depth entries⟩

end

end Solid

end Workflow
