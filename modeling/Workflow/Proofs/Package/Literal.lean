import Workflow.Proofs.Package.Assembly
import Workflow.Proofs.Package.SealedLine
import Workflow.Proofs.Package.Value

/-!
# Literals read back

The literal of a value is one statement, on however many lines: at the end of each line but the last a bracket is open. It reads
back as the value (`readLiteral?_literal`), and so does what comes behind a wording that begins a statement
(`states_assignment`).
-/

namespace Workflow

open Call LexMode

/-! ## Reading across lines -/

/-- Reads on along characters across the ends of lines, as long as a bracket is open at each of them. The lexemes of the statement
so far come along. -/
def gather (begun : List Lexeme) (m : LexMode) : List Char → Option (List Lexeme × LexMode)
  | [] => some (begun, m)
  | c :: rest =>
    if c = '\n' then
      match m.finish with
      | none => none
      | some last => if nesting 0 (begun ++ last) = 0 then none else gather (begun ++ last) between rest
    else
      match m.step c with
      | none => none
      | some (ls, m) => gather (begun ++ ls) m rest

section

variable {begun begun' ls last : List Lexeme} {m m' : LexMode} {cs rest : List Char}

/-- Reading on along some characters and then others. -/
theorem gather_append (h : gather begun m cs = some (begun', m')) :
    gather begun m (cs ++ rest) = gather begun' m' rest := by
  induction cs generalizing begun m with
  | nil =>
    rw [gather, Option.some.injEq, Prod.mk.injEq] at h
    rw [List.nil_append, h.1, h.2]
  | cons c cs ih =>
    rw [gather] at h
    rw [List.cons_append, gather]
    split at h
    · next hc =>
      rw [if_pos hc]
      cases hf : m.finish with
      | none =>
        rw [hf] at h
        cases h
      | some last =>
        simp only [hf] at h ⊢
        split at h
        · cases h
        · next hopen =>
          rw [if_neg hopen]
          exact ih h
    · next hc =>
      rw [if_neg hc]
      cases hs : m.step c with
      | none =>
        rw [hs] at h
        cases h
      | some out =>
        rw [hs] at h
        exact ih h

/-- Within a line the reading goes on as it does there. -/
theorem gather_of_scan (hclean : '\n' ∉ cs) (h : m.scan cs = some (ls, m')) :
    gather begun m cs = some (begun ++ ls, m') := by
  induction cs generalizing begun m ls with
  | nil =>
    rw [scan, Option.some.injEq, Prod.mk.injEq] at h
    rw [gather, ← h.1, ← h.2, List.append_nil]
  | cons c cs ih =>
    rw [List.mem_cons, not_or] at hclean
    rw [scan] at h
    rw [gather, if_neg (Ne.symm hclean.1)]
    cases hs : m.step c with
    | none =>
      rw [hs] at h
      cases h
    | some out =>
      obtain ⟨first, next⟩ := out
      rw [hs] at h
      obtain ⟨⟨more, last⟩, hmore, heq⟩ := Option.map_eq_some_iff.mp h
      rw [Prod.mk.injEq] at heq
      obtain ⟨rfl, rfl⟩ := heq
      simp only [ih hclean.2 hmore, List.append_assoc]

/-- A text that is read across its lines and closes its last bracket at its end is one statement, whatever lines follow. -/
theorem statements?_of_gather {before : List Char} (hbefore : between.scan before = some (ls, m))
    (h : gather (begun ++ ls) m cs = some (begun', m')) (hlast : m'.finish = some last)
    (hclosed : nesting 0 (begun' ++ last) = 0) (hne : begun' ++ last ≠ []) (lines : List (List Char)) :
    ∀ first more, partsBetween '\n' cs = first :: more →
      statements? begun ((before ++ first) :: (more ++ lines)) =
        (statements? [] lines).map ([begun' ++ last] ++ ·) := by
  induction cs generalizing begun ls m before with
  | nil =>
    intro first more hparts
    rw [partsBetween, List.cons.injEq] at hparts
    rw [gather, Option.some.injEq, Prod.mk.injEq] at h
    obtain ⟨rfl, rfl⟩ := hparts
    obtain ⟨rfl, rfl⟩ := h
    rw [List.append_assoc] at hclosed hne
    rw [List.append_nil, List.nil_append, List.append_assoc]
    exact statements?_cons_of_closed (lexemes?_of_scan hbefore hlast) hclosed hne lines
  | cons c cs ih =>
    intro first more hparts
    obtain ⟨part, parts, hrest⟩ := List.exists_cons_of_ne_nil (partsBetween_ne_nil '\n' cs)
    rw [gather] at h
    simp only [partsBetween, hrest] at hparts
    split at h
    · next hc =>
      rw [if_pos hc, List.cons.injEq] at hparts
      obtain ⟨rfl, rfl⟩ := hparts
      cases hf : m.finish with
      | none =>
        rw [hf] at h
        cases h
      | some ended =>
        simp only [hf] at h
        split at h
        · cases h
        · next hopen =>
          have hempty : between.scan [] = some ([], between) := rfl
          have hgo := ih hempty (by rwa [List.append_nil]) part parts hrest
          rw [List.append_assoc] at hopen hgo
          rw [List.append_nil]
          exact (statements?_cons_of_open (lexemes?_of_scan hbefore hf) hopen _).trans hgo
    · next hc =>
      rw [if_neg hc, List.cons.injEq] at hparts
      obtain ⟨rfl, rfl⟩ := hparts
      cases hs : m.step c with
      | none =>
        rw [hs] at h
        cases h
      | some out =>
        obtain ⟨more, next⟩ := out
        have hone : m.scan [c] = some (more, next) := by rw [scan, hs]; simp [scan]
        simp only [hs, List.append_assoc] at h
        have hgo := ih (scan_append hbefore hone) h part parts hrest
        rwa [List.append_assoc] at hgo

end

/-! ## Where a lexeme may end -/

/-- A mode in which the lexeme at hand, if any, ends before whatever is no part of a name. -/
structure LexMode.Rests (m : LexMode) (last : List Lexeme) : Prop where
  finish : m.finish = some last
  step : ∀ c, isNameChar c = false → m.step c = some (last ++ (start c).1, (start c).2)

theorem rests_between : between.Rests [] := ⟨rfl, fun _ _ => rfl⟩

/-- Before what is no part of a name, the reading goes on as between two lexemes. -/
theorem gather_rests {begun last : List Lexeme} {m : LexMode} (h : m.Rests last) {c : Char} (hc : isNameChar c = false)
    (rest : List Char) : gather begun m (c :: rest) = gather (begun ++ last) between (c :: rest) := by
  have hbetween : between.finish = some [] := rfl
  have hstart : between.step c = some (start c) := rfl
  rw [gather, gather, h.finish, h.step c hc, hbetween, hstart]
  simp only [List.append_assoc, List.append_nil]

/-- Characters that are read across lines as lexemes which spell some words. -/
def Gathers (cs : List Char) (spelled : List Lexeme) : Prop :=
  ∀ begun, ∃ ls m last, gather begun between cs = some (begun ++ ls, m) ∧ m.Rests last ∧ Spell (ls ++ last) spelled

/-! ## Words and texts -/

/-- A character of a word: one of a name, or a mark of a numeral. -/
def IsWordChar (c : Char) : Prop := isNameChar c = true ∨ c ∈ ['+', '-', '.']

/-- The mode behind the letters of a name, of which there may be none. -/
def wordMode (letters : List Char) : LexMode := if letters.isEmpty then between else .name letters

theorem rests_wordMode (letters : List Char) : (wordMode letters).Rests (endWord letters []) := by
  cases letters with
  | nil => exact rests_between
  | cons d letters =>
    refine ⟨rfl, fun c hc => ?_⟩
    rw [wordMode, if_neg (by simp), step, if_neg (by simp [hc])]
    rfl

/-- A letter goes on with a word. -/
theorem step_wordMode_name {c : Char} (hc : isNameChar c = true) (letters : List Char) :
    (wordMode letters).step c = some ([], wordMode (letters ++ [c])) := by
  have hne : ∀ d, isNameChar d = false → c ≠ d := by
    rintro d hd rfl
    rw [hc] at hd
    cases hd
  cases letters with
  | nil =>
    have hstart : start c = ([], .name [c]) := by
      rw [start, if_neg (hne ' ' rfl), if_neg (hne '#' rfl), if_neg (hne '"' rfl), if_pos hc]
    exact congrArg some hstart
  | cons d letters =>
    rw [wordMode, wordMode, if_neg (by simp), if_neg (by simp), step, if_pos hc]

/-- A mark of a numeral ends the letters before it. -/
theorem step_wordMode_mark {c : Char} (hc : c ∈ ['+', '-', '.']) (letters : List Char) :
    (wordMode letters).step c = some (endWord letters [] ++ [.mark c], wordMode []) := by
  have hmark : isNameChar c = false ∧ start c = ([.mark c], between) := by
    simp only [List.mem_cons, List.not_mem_nil, or_false] at hc
    rcases hc with rfl | rfl | rfl <;> exact ⟨rfl, rfl⟩
  rw [(rests_wordMode letters).step c hmark.1, hmark.2]
  rfl

/-- The word at the end of some letters is a part of a word with these letters. -/
theorem isPart_endWord (letters : List Char) :
    (∀ l ∈ endWord letters [], l.IsPart) ∧ (endWord letters []).flatMap Lexeme.letters = letters := by
  rw [endWord]
  split
  · next h => exact ⟨fun l hl => absurd hl List.not_mem_nil, (List.isEmpty_iff.mp h).symm⟩
  · refine ⟨List.forall_mem_singleton.mpr trivial, ?_⟩
    rw [List.flatMap_singleton]
    exact String.toList_ofList

/-- The characters of words are read as parts of words with these letters. -/
theorem scan_wordMode {cs : List Char} (h : ∀ c ∈ cs, IsWordChar c) (letters : List Char) :
    ∃ ls letters', (wordMode letters).scan cs = some (ls, wordMode letters') ∧ (∀ l ∈ ls, l.IsPart) ∧
      ls.flatMap Lexeme.letters ++ letters' = letters ++ cs := by
  induction cs generalizing letters with
  | nil => exact ⟨[], letters, rfl, fun l hl => absurd hl List.not_mem_nil, (List.append_nil letters).symm⟩
  | cons c cs ih =>
    rw [List.forall_mem_cons] at h
    rcases h.1 with hc | hc
    · obtain ⟨ls, letters', hscan, hparts, hletters⟩ := ih h.2 (letters ++ [c])
      refine ⟨ls, letters', ?_, hparts, by rw [hletters, List.append_assoc]; rfl⟩
      rw [scan, step_wordMode_name hc]
      simp only [hscan, Option.map_some, List.nil_append]
    · obtain ⟨ls, letters', hscan, hparts, hletters⟩ := ih h.2 []
      obtain ⟨hend, hendletters⟩ := isPart_endWord letters
      refine ⟨endWord letters [] ++ [.mark c] ++ ls, letters', ?_, ?_, ?_⟩
      · rw [scan, step_wordMode_mark hc]
        simp only [hscan, Option.map_some]
      · exact List.forall_mem_append.mpr ⟨List.forall_mem_append.mpr ⟨hend, List.forall_mem_singleton.mpr hc⟩, hparts⟩
      · rw [List.flatMap_append, List.flatMap_append, hendletters, List.append_assoc, List.append_assoc, hletters]
        rfl

/-- The characters of a word are no line feed. -/
theorem not_mem_of_isWordChar {cs : List Char} (h : ∀ c ∈ cs, IsWordChar c) : '
' ∉ cs := by
  intro hmem
  rcases h _ hmem with hname | hmark
  · exact absurd hname (by decide)
  · exact absurd hmark (by decide)

/-- A word is read as itself. -/
theorem gathers_word {cs : List Char} (hne : cs ≠ []) (h : ∀ c ∈ cs, IsWordChar c) :
    Gathers cs [.name (String.ofList cs)] := by
  obtain ⟨ls, letters, hscan, hparts, hletters⟩ := scan_wordMode h []
  obtain ⟨hend, hendletters⟩ := isPart_endWord letters
  have hall := List.forall_mem_append.mpr ⟨hparts, hend⟩
  refine fun begun => ⟨ls, wordMode letters, endWord letters [], gather_of_scan (not_mem_of_isWordChar h) hscan,
    rests_wordMode letters, fun rest hrest => ?_, nesting_parts hall⟩
  rw [words_parts hall, List.flatMap_append, hendletters, hletters, words_delimited hrest, endWord, if_neg (by simpa using hne)]
  rfl

/-- A numeral is read as itself. -/
theorem gathers_numeral {s : String} (h : IsNumeral s) : Gathers s.toList [.name s] := by
  have hword : ∀ c ∈ s.toList, IsWordChar c := by
    refine h.forall_mem (fun c hc => Or.inl ?_) fun c hc => ?_
    · rw [isNameChar, Char.isAlphanum, hc, Bool.or_true, Bool.or_true]
    · simp only [List.mem_cons, List.not_mem_nil, or_false] at hc
      rcases hc with rfl | rfl | rfl | rfl
      · exact Or.inr (by simp)
      · exact Or.inr (by simp)
      · exact Or.inr (by simp)
      · exact Or.inl rfl
  have hgathers := gathers_word h.ne_nil hword
  rwa [String.ofList_toList] at hgathers

/-- The words for null and the truth values are read as themselves. -/
theorem gathers_keyword (s : String) (hs : s ∈ ["None", "True", "False"]) : Gathers s.toList [.name s] := by
  have hall : ∀ s ∈ ["None", "True", "False"], s.toList ≠ [] ∧ s.toList.all isNameChar = true := by decide
  have hgathers := gathers_word (hall s hs).1 fun c hc => Or.inl (List.all_eq_true.mp (hall s hs).2 c hc)
  rwa [String.ofList_toList] at hgathers

/-- The literal of a text is read as that text. -/
theorem gathers_stringLiteral (s : String) : Gathers (stringLiteral s).toList [.text s] := fun _ =>
  ⟨[.text s], between, [], gather_of_scan (oneLine_stringLiteral s) (scan_stringLiteral s), rests_between,
    fun _ _ => rfl, fun _ => rfl⟩

/-! ## Containers -/

/-- Characters that are read, across lines and inside a bracket, as elements that spell some words. -/
def GathersElements (cs : List Char) (spelled : List Lexeme) : Prop :=
  ∀ begun, nesting 0 begun ≠ 0 → ∃ ls, gather begun between cs = some (begun ++ ls, between) ∧
    (∀ rest, words [] (ls ++ rest) = spelled ++ words [] rest) ∧ ∀ depth, nesting depth ls = depth

theorem gathersElements_nil : GathersElements [] [] := fun begun _ =>
  ⟨[], by rw [gather, List.append_nil], fun _ => rfl, fun _ => rfl⟩

/-- An element with its comma, on a line of its own, before others. -/
theorem gathersElements_cons {e cs : List Char} {spelled more : List Lexeme} (depth : Nat) (h : Gathers e spelled)
    (h' : GathersElements cs more) :
    GathersElements ((indentation depth).toList ++ (e ++ (',' :: '
' :: cs))) (spelled ++ .mark ',' :: more) := by
  intro begun hopen
  obtain ⟨ls, m, last, hgather, hrests, hspell⟩ := h begun
  have hnesting : nesting 0 (begun ++ ls ++ last ++ [.mark ',']) = nesting 0 begun := by
    rw [nesting_append, List.append_assoc, nesting_append, hspell.nesting]
    rfl
  obtain ⟨ls', hgather', hwords', hnesting'⟩ := h' (begun ++ ls ++ last ++ [.mark ',']) (by rwa [hnesting])
  refine ⟨ls ++ last ++ .mark ',' :: ls', ?_, fun rest => ?_, fun depth => ?_⟩
  · have hindent : gather begun between (indentation depth).toList = some (begun, between) := by
      rw [gather_of_scan (oneLine_indentation depth) (scan_indentation depth), List.append_nil]
    have hcomma : gather (begun ++ ls ++ last) between (',' :: '
' :: cs) =
        gather (begun ++ ls ++ last ++ [.mark ',']) between cs := by
      have hbetween : between.finish = some [] := rfl
      have hstep : between.step ',' = some ([.mark ','], between) := rfl
      rw [gather, if_neg (by decide), hstep]
      simp only
      rw [gather, if_pos rfl, hbetween]
      simp only [List.append_nil, hnesting, hopen, if_false]
    rw [gather_append hindent, gather_append hgather, gather_rests hrests rfl, hcomma, hgather']
    simp only [List.append_assoc, List.singleton_append]
  · have hdelimited : Delimited (.mark ',' :: (ls' ++ rest)) := Or.inr ⟨',', _, rfl, rfl⟩
    rw [List.append_assoc, List.cons_append, hspell.words _ hdelimited, List.append_assoc, List.cons_append, ← hwords']
    rfl
  · rw [nesting_append, hspell.nesting]
    exact hnesting' depth

/-- The brackets of a container. -/
structure Brackets (opening closing : Char) : Prop where
  startOpening : start opening = ([.mark opening], between)
  startClosing : start closing = ([.mark closing], between)
  clean : opening ≠ '
' ∧ closing ≠ '
'
  opens : ∀ depth, nesting depth [.mark opening] = depth + 1
  closes : ∀ depth, nesting depth [.mark closing] = depth - 1
  delimits : isDelimiter opening = true ∧ isDelimiter closing = true

/-- The brackets of a list. -/
theorem brackets_list : Brackets '[' ']' := ⟨rfl, rfl, by decide, fun _ => rfl, fun _ => rfl, by decide⟩

/-- The brackets of a dictionary. -/
theorem brackets_dict : Brackets '{' '}' := ⟨rfl, rfl, by decide, fun _ => rfl, fun _ => rfl, by decide⟩

section

variable {opening closing : Char} {spelled : List Lexeme}

/-- What stands between brackets closes every bracket that it opens, and so does all of it. -/
theorem Brackets.spell (h : Brackets opening closing) {ls : List Lexeme}
    (hwords : ∀ rest, words [] (ls ++ rest) = spelled ++ words [] rest) (hnesting : ∀ depth, nesting depth ls = depth) :
    Spell (.mark opening :: (ls ++ [.mark closing])) (.mark opening :: (spelled ++ [.mark closing])) where
  words := fun rest _ => by
    rw [List.cons_append, words, if_pos h.delimits.1, List.append_assoc, hwords, List.singleton_append, words,
      if_pos h.delimits.2, List.cons_append, List.append_assoc]
    rfl
  nesting := fun depth => by
    have hcons : Lexeme.mark opening :: (ls ++ [.mark closing]) = [.mark opening] ++ ls ++ [.mark closing] := rfl
    rw [hcons, nesting_append, nesting_append, h.opens, hnesting, h.closes, Nat.add_sub_cancel]

/-- Brackets with nothing between them. -/
theorem Brackets.gathers_nil (h : Brackets opening closing) :
    Gathers [opening, closing] (.mark opening :: ([] ++ [.mark closing])) := by
  intro begun
  have hopen : between.step opening = some ([.mark opening], between) := congrArg some h.startOpening
  have hclose : between.step closing = some ([.mark closing], between) := congrArg some h.startClosing
  have hnothing : ∀ rest, words [] ([] ++ rest) = [] ++ words [] rest := fun _ => rfl
  refine ⟨[.mark opening, .mark closing], between, [], ?_, rests_between, h.spell hnothing fun _ => rfl⟩
  rw [gather, if_neg h.clean.1, hopen]
  simp only
  rw [gather, if_neg h.clean.2, hclose]
  simp only [gather, List.append_assoc, List.singleton_append]

/-- Brackets with elements on lines of their own between them. -/
theorem Brackets.gathers (h : Brackets opening closing) {cs : List Char} (hcs : GathersElements cs spelled) (depth : Nat) :
    Gathers (opening :: '
' :: (cs ++ ((indentation depth).toList ++ [closing])))
      (.mark opening :: (spelled ++ [.mark closing])) := by
  intro begun
  have hopen : between.step opening = some ([.mark opening], between) := congrArg some h.startOpening
  have hclose : between.step closing = some ([.mark closing], between) := congrArg some h.startClosing
  have hbetween : between.finish = some [] := rfl
  have hnesting : nesting 0 (begun ++ [.mark opening]) ≠ 0 := by
    rw [nesting_append, h.opens]
    exact Nat.succ_ne_zero _
  obtain ⟨ls, hgather, hwords, hls⟩ := hcs (begun ++ [.mark opening]) hnesting
  have hindent : gather (begun ++ [.mark opening] ++ ls) between (indentation depth).toList =
      some (begun ++ [.mark opening] ++ ls, between) := by
    rw [gather_of_scan (oneLine_indentation depth) (scan_indentation depth), List.append_nil]
  refine ⟨.mark opening :: (ls ++ [.mark closing]), between, [], ?_, rests_between, ?_⟩
  · rw [gather, if_neg h.clean.1, hopen]
    simp only
    rw [gather, if_pos rfl, hbetween]
    simp only [List.append_nil, hnesting, if_false]
    rw [gather_append hgather, gather_append hindent, gather, if_neg h.clean.2, hclose]
    simp only [gather, List.append_assoc, List.cons_append, List.nil_append]
  · rw [List.append_nil]
    exact h.spell hwords hls

end

/-! ## Literals of values -/

/-- A key and a value after a colon. -/
theorem gathers_entry (k : String) {e : List Char} {spelled : List Lexeme} (h : Gathers e spelled) :
    Gathers ((stringLiteral k).toList ++ (':' :: ' ' :: e)) (.text k :: .mark ':' :: spelled) := by
  intro begun
  obtain ⟨ls, m, last, hgather, hrests, hspell⟩ := h (begun ++ [.text k, .mark ':'])
  have hkey : gather begun between (stringLiteral k).toList = some (begun ++ [.text k], between) :=
    gather_of_scan (oneLine_stringLiteral k) (scan_stringLiteral k)
  have hcolon : gather (begun ++ [.text k]) between [':', ' '] = some (begun ++ [.text k] ++ [.mark ':'], between) :=
    gather_of_scan (by decide) rfl
  refine ⟨.text k :: .mark ':' :: ls, m, last, ?_, hrests, fun rest hrest => ?_, fun depth => ?_⟩
  · have hsplit : ':' :: ' ' :: e = [':', ' '] ++ e := rfl
    rw [gather_append hkey, hsplit, gather_append hcolon, List.append_assoc]
    refine hgather.trans ?_
    simp only [List.append_assoc, List.cons_append, List.nil_append]
  · change Lexeme.text k :: .mark ':' :: words [] (ls ++ last ++ rest) = _
    rw [hspell.words rest hrest]
    rfl
  · exact hspell.nesting depth

/-- The lines of elements, element by element. -/
theorem toList_elementLines_cons (depth : Nat) (e : String) (elements : List String) :
    (elementLines depth (e :: elements)).toList =
      (indentation (depth + 1)).toList ++ (e.toList ++ (',' :: '
' :: (elementLines depth elements).toList)) := by
  rw [elementLines, List.map_cons, String.join_cons, ← elementLines]
  simp only [String.toList_append, List.append_assoc]
  rfl

mutual

/-- The literal of a value spells its words. -/
theorem gathers_literal (v : Json) (depth : Nat) : Gathers (literal depth v).toList v.words := by
  cases v with
  | null => exact gathers_keyword "None" (by simp)
  | bool b =>
    cases b
    · exact gathers_keyword "False" (by simp)
    · exact gathers_keyword "True" (by simp)
  | int n => exact gathers_numeral (isNumeral_toString n)
  | real x => exact gathers_numeral (isNumeral_finiteText x)
  | str s => exact gathers_stringLiteral s
  | arr items =>
    cases items with
    | nil =>
      rw [literal, Json.words]
      exact brackets_list.gathers_nil
    | cons v items =>
      have h := brackets_list.gathers (gathers_literalItems (v :: items) depth (depth + 1)) depth
      simp only [literal, Json.words, String.toList_append, List.append_assoc]
      exact h
  | obj entries =>
    cases entries with
    | nil =>
      rw [literal, Json.words]
      exact brackets_dict.gathers_nil
    | cons entry entries =>
      have h := brackets_dict.gathers (gathers_literalEntries (entry :: entries) depth (depth + 1)) depth
      simp only [literal, Json.words, String.toList_append, List.append_assoc]
      exact h

/-- The lines of the items of an array spell the words of the items. -/
theorem gathers_literalItems (items : List Json) (depth inside : Nat) :
    GathersElements (elementLines depth (literalItems inside items)).toList (Json.itemWords items) := by
  cases items with
  | nil => exact gathersElements_nil
  | cons v items =>
    rw [literalItems, toList_elementLines_cons, Json.itemWords]
    exact gathersElements_cons (depth + 1) (gathers_literal v inside) (gathers_literalItems items depth inside)

/-- The lines of the entries of an object spell the words of the entries. -/
theorem gathers_literalEntries (entries : List (String × Json)) (depth inside : Nat) :
    GathersElements (elementLines depth (literalEntries inside entries)).toList (Json.entryWords entries) := by
  cases entries with
  | nil => exact gathersElements_nil
  | cons entry entries =>
    obtain ⟨k, v⟩ := entry
    have hentry := gathers_entry k (gathers_literal v inside)
    have h := gathersElements_cons (depth + 1) hentry (gathers_literalEntries entries depth inside)
    rw [literalEntries, toList_elementLines_cons, Json.entryWords]
    simp only [String.toList_append, List.append_assoc]
    simp only [List.cons_append, List.append_assoc] at h
    exact h

end

/-- Lexemes that spell the words of a value are not none. -/
theorem Spell.ne_nil {ls : List Lexeme} {v : Json} (h : Spell ls v.words) : ls ≠ [] := by
  rintro rfl
  obtain ⟨l, rest, hwords, -⟩ := LiteralMode.words_eq_cons v
  have hnil := h.words [] (Or.inl rfl)
  rw [hwords] at hnil
  cases hnil

/-- A text that is read across its lines is one statement. -/
theorem statements?_of_gather_nil {text : String} {ls last : List Lexeme} {m : LexMode}
    (h : gather [] between text.toList = some (ls, m)) (hlast : m.finish = some last) (hclosed : nesting 0 (ls ++ last) = 0)
    (hne : ls ++ last ≠ []) (lines : List (List Char)) :
    statements? [] (partsBetween '\n' text.toList ++ lines) = (statements? [] lines).map ([ls ++ last] ++ ·) := by
  obtain ⟨first, more, hparts⟩ := List.exists_cons_of_ne_nil (partsBetween_ne_nil '\n' text.toList)
  rw [hparts]
  have hempty : between.scan [] = some ([], between) := rfl
  exact statements?_of_gather hempty h hlast hclosed hne lines first more hparts

/-- A literal behind a wording at the beginning of a line is a statement with it. -/
theorem states_assignment {wording : String} {begun : List Lexeme} (hclean : OneLine wording)
    (hscan : between.scan wording.toList = some (begun, between)) (hclosed : nesting 0 begun = 0) (v : Json) :
    ∃ ls, States [top (wording ++ literal 0 v)] [begun ++ ls] ∧ valueOf? ls = some v := by
  obtain ⟨ls, m, last, hgather, hrests, hspell⟩ := gathers_literal v 0 begun
  refine ⟨ls ++ last, fun rest => ?_, valueOf?_of_spell hspell⟩
  have hwording : gather [] between wording.toList = some (begun, between) := gather_of_scan hclean hscan
  have htext : gather [] between (wording ++ literal 0 v).toList = some (begun ++ ls, m) := by
    rw [String.toList_append, gather_append hwording, hgather]
  have hnesting : nesting 0 (begun ++ ls ++ last) = 0 := by
    rw [List.append_assoc, nesting_append, hclosed, hspell.nesting]
  have hne : begun ++ ls ++ last ≠ [] := by
    rw [List.append_assoc]
    exact List.append_ne_nil_of_right_ne_nil _ hspell.ne_nil
  rw [List.flatMap_singleton, toList_physical_top, statements?_of_gather_nil htext hrests.finish hnesting hne, List.append_assoc]

/-- A literal reads back as its value, at every depth. -/
theorem readLiteral?_of_literal (v : Json) (depth : Nat) : readLiteral? (literal depth v) = some v := by
  obtain ⟨ls, m, last, hgather, hrests, hspell⟩ := gathers_literal v depth []
  have hstatement := statements?_of_gather_nil hgather hrests.finish (hspell.nesting 0) hspell.ne_nil []
  have hend : statements? [] [] = some [] := rfl
  rw [List.append_nil, List.nil_append, hend, Option.map_some, List.append_nil] at hstatement
  rw [readLiteral?, statementsOf?, linesOf, hstatement]
  exact valueOf?_of_spell hspell

/-- Literals read back. Every value is read from its literal, at every depth; no two texts have one literal, and no literal of a
text holds a control character; an outermost line that consists of a literal is the literal and a line feed. -/
theorem readLiteral?_literal :
    (∀ (v : Json) (depth : Nat), readLiteral? (literal depth v) = some v) ∧
      Function.Injective stringLiteral ∧
      (∀ s, ∀ c ∈ (stringLiteral s).toList, 0x20 ≤ c.toNat ∧ c.toNat ≠ 0x7F) ∧
      ∀ v : Json, renderLines [top (literal 0 v)] = literal 0 v ++ "\n" := by
  refine ⟨readLiteral?_of_literal, ?_, isPlain_of_mem_stringLiteral, fun v => ?_⟩
  · intro s t h
    have hs := scan_stringLiteral s
    rw [h, scan_stringLiteral t] at hs
    simpa using hs.symm
  · rw [renderLines_eq, List.map_singleton, String.join_cons, String.join_nil, String.append_empty, SealedFrom.script_top]

end Workflow
