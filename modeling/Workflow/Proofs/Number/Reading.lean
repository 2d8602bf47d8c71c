import Workflow.Proofs.Number.Numeral

/-!
# Numerals read back

A reader of numerals, and that it gives back every number that was written: a whole number from its digits
(`numeral?_toString`), a finite double from its shortest decimal, in full or with a power of ten
(`Double.numeral?_finiteText`). No two numbers have one text.
-/

namespace Workflow

open Yaml

/-- The number that a numeral without its sign spells: digits alone are a whole number, anything else is the nearest double. -/
def unsigned? (negative : Bool) (cs : List Char) : Option Number :=
  if cs.all Char.isDigit then
    if cs.isEmpty || hasLeadingZero cs then none
    else some (.int (if negative then -(decimalValue cs : Int) else decimalValue cs))
  else (finiteNumber? negative cs).map .real

/-- The number that a numeral spells. -/
def numeral? : List Char → Option Number
  | '-' :: rest => unsigned? true rest
  | cs => unsigned? false cs

/-- A minus sign, or nothing. -/
def signChars (negative : Bool) : List Char := if negative then ['-'] else []

/-- The sign of a numeral is read off in front of its first digit. -/
theorem numeral?_signChars (negative : Bool) {c : Char} {cs : List Char} (hc : c.isDigit = true) :
    numeral? (signChars negative ++ c :: cs) = unsigned? negative (c :: cs) := by
  cases negative with
  | true => rfl
  | false =>
    have hne : c ≠ '-' := by
      rintro rfl
      cases hc
    rw [signChars, if_neg Bool.false_ne_true, List.nil_append]
    unfold numeral?
    split
    · next heq => exact absurd (List.cons.inj heq).1 hne
    · rfl

/-! ## Whole numbers -/

/-- A number is written with digits alone. -/
theorem isDigit_of_mem_toDigits (n : Nat) : ∀ c ∈ Nat.toDigits 10 n, c.isDigit = true := fun _ hc =>
  Nat.isDigit_of_mem_toDigits (by decide) (by decide) hc

theorem hasLeadingZero_toDigits (n : Nat) : hasLeadingZero (Nat.toDigits 10 n) = false := by
  by_cases hn : n = 0
  · rw [hn]
    rfl
  · have hhead := head?_toDigits n hn
    unfold hasLeadingZero
    split
    · next heq =>
      rw [heq] at hhead
      exact absurd rfl hhead
    · rfl

/-- The digits of a number spell it. -/
theorem unsigned?_toDigits (negative : Bool) (n : Nat) :
    unsigned? negative (Nat.toDigits 10 n) = some (.int (if negative then -(n : Int) else n)) := by
  have hall : (Nat.toDigits 10 n).all Char.isDigit = true :=
    List.all_eq_true.mpr (isDigit_of_mem_toDigits n)
  have hne : (Nat.toDigits 10 n).isEmpty = false := List.isEmpty_eq_false_iff.mpr Nat.toDigits_ne_nil
  rw [unsigned?, if_pos hall, hne, hasLeadingZero_toDigits, decimalValue_toDigits]
  rfl

/-- A whole number is written with its sign and the digits of its size. -/
theorem toList_toString_int (n : Int) : (toString n).toList = signChars (n < 0) ++ Nat.toDigits 10 n.natAbs := by
  have hnat : ∀ m : Nat, (toString m).toList = Nat.toDigits 10 m := by
    intro m
    rw [Nat.toString_eq_ofList_toDigits, String.toList_ofList]
  cases n with
  | ofNat m => exact hnat m
  | negSucc m =>
    have htext : toString (Int.negSucc m) = "-" ++ toString (m + 1) := rfl
    rw [htext, String.toList_append, hnat, decide_eq_true (Int.negSucc_lt_zero m)]
    rfl

/-- A whole number reads back. -/
theorem numeral?_toString (n : Int) : numeral? (toString n).toList = some (.int n) := by
  have hdigits := isDigit_of_mem_toDigits n.natAbs
  have hread := unsigned?_toDigits (n < 0) n.natAbs
  rw [toList_toString_int]
  cases hd : Nat.toDigits 10 n.natAbs with
  | nil => exact absurd hd Nat.toDigits_ne_nil
  | cons c cs =>
    rw [hd] at hdigits hread
    rw [numeral?_signChars _ (hdigits c List.mem_cons_self), hread]
    congr 2
    by_cases hneg : n < 0
    · simp only [hneg, decide_true, if_true]
      omega
    · simp only [hneg, decide_false, Bool.false_eq_true, if_false]
      omega

/-! ## Parts of decimals -/

/-- Digits are a number in base ten. -/
theorem digitsValue?_of_isDigit {digits : List Char} (hne : digits ≠ []) (h : ∀ d ∈ digits, d.isDigit = true) :
    digitsValue? 10 digits = some (decimalValue digits) := by
  have hdigit : ∀ d : Char, d.isDigit = true → Yaml.digitValue? 10 d = some (d.toNat - '0'.toNat) := by
    intro d hd
    have hle : d.toNat ≤ 57 := by
      rw [Char.isDigit, Bool.and_eq_true, decide_eq_true_eq, decide_eq_true_eq] at hd
      exact hd.2
    have hzero : '0'.toNat = 48 := rfl
    rw [Yaml.digitValue?, hexValue?, if_pos hd, Option.filter_some, if_pos]
    rw [decide_eq_true_eq, hzero]
    omega
  have hfold : ∀ ds : List Char, (∀ d ∈ ds, d.isDigit = true) → ∀ n : Nat,
      ds.foldlM (fun n d => do return 10 * n + (← Yaml.digitValue? 10 d)) n =
        some (ds.foldl (fun n d => 10 * n + (d.toNat - '0'.toNat)) n) := by
    intro ds
    induction ds with
    | nil => intro _ n; rfl
    | cons d ds ih =>
      intro hall n
      rw [List.foldlM_cons, hdigit d (hall d List.mem_cons_self)]
      exact ih (fun c hc => hall c (List.mem_cons_of_mem d hc)) _
  rw [digitsValue?, if_neg (by simpa using hne)]
  exact hfold digits h 0

/-- What does not go on with a digit. -/
def EndsDigits (rest : List Char) : Prop := ∀ c, rest.head? = some c → c.isDigit = false

/-- Digits are read up to where they end. -/
theorem takeWhile_isDigit_append {digits rest : List Char} (h : ∀ d ∈ digits, d.isDigit = true) (hrest : EndsDigits rest) :
    (digits ++ rest).takeWhile Char.isDigit = digits ∧ (digits ++ rest).dropWhile Char.isDigit = rest := by
  rw [List.takeWhile_append_of_pos h, List.dropWhile_append_of_pos h]
  cases rest with
  | nil => exact ⟨List.append_nil digits, rfl⟩
  | cons c rest =>
    have hc : ¬c.isDigit = true := by simp [hrest c rfl]
    rw [List.takeWhile_cons_of_neg hc, List.dropWhile_cons_of_neg hc, List.append_nil]
    exact ⟨rfl, rfl⟩

/-- The parts of a decimal with a point. -/
theorem decimalParts?_point {whole fraction rest : List Char} (hwhole : ∀ d ∈ whole, d.isDigit = true)
    (hfraction : ∀ d ∈ fraction, d.isDigit = true) (hne : whole ≠ []) (hrest : EndsDigits rest) :
    decimalParts? (whole ++ '.' :: (fraction ++ rest)) =
      (powerOfTen? rest).map fun power => ⟨whole ++ fraction, fraction.length, power⟩ := by
  have hpoint : EndsDigits ('.' :: (fraction ++ rest)) := by
    rintro c ⟨⟩
    rfl
  obtain ⟨htake, hdrop⟩ := takeWhile_isDigit_append hwhole hpoint
  obtain ⟨htake', hdrop'⟩ := takeWhile_isDigit_append hfraction hrest
  have hempty : whole.isEmpty = false := List.isEmpty_eq_false_iff.mpr hne
  rw [decimalParts?]
  simp only [htake, hdrop, htake', hdrop', hempty, Bool.false_and, Bool.false_eq_true, if_false]

/-- The parts of a decimal without a point. -/
theorem decimalParts?_whole {whole rest : List Char} (hwhole : ∀ d ∈ whole, d.isDigit = true) (hne : whole ≠ [])
    (hrest : EndsDigits rest) (hpoint : rest.head? ≠ some '.') :
    decimalParts? (whole ++ rest) = (powerOfTen? rest).map fun power => ⟨whole, 0, power⟩ := by
  obtain ⟨htake, hdrop⟩ := takeWhile_isDigit_append hwhole hrest
  have hempty : whole.isEmpty = false := List.isEmpty_eq_false_iff.mpr hne
  rw [decimalParts?]
  simp only [htake, hdrop]
  split
  · exact absurd rfl hpoint
  · simp only [hempty, Bool.false_and, Bool.false_eq_true, if_false, List.append_nil, List.length_nil]

/-- A power of ten is written with its sign, and reads back. -/
theorem powerOfTen?_text (power : Int) :
    powerOfTen? ('e' :: ((if 0 ≤ power then ['+'] else []) ++ (toString power).toList)) = some power := by
  have hread : ∀ n : Nat, digitsValue? 10 (Nat.toDigits 10 n) = some n := fun n => by
    rw [digitsValue?_of_isDigit Nat.toDigits_ne_nil (isDigit_of_mem_toDigits n), decimalValue_toDigits]
  have hplus : ∀ n : Nat, powerOfTen? ('e' :: '+' :: Nat.toDigits 10 n) = some (n : Int) := fun n => by
    simp [powerOfTen?, hread]
  have hminus : ∀ n : Nat, powerOfTen? ('e' :: '-' :: Nat.toDigits 10 n) = some (-(n : Int)) := fun n => by
    simp [powerOfTen?, hread]
  rw [toList_toString_int]
  cases power with
  | ofNat n =>
    rw [decide_eq_false (show ¬Int.ofNat n < 0 by simp), if_pos (show 0 ≤ Int.ofNat n from Int.natCast_nonneg n)]
    exact hplus n
  | negSucc n =>
    rw [decide_eq_true (Int.negSucc_lt_zero n), if_neg (by simp)]
    exact hminus (n + 1)

/-! ## Finite numbers -/

/-- A decimal whose parts stand for a number that reads as a positive double spells it. -/
theorem finiteNumber?_of_readsAs {negative : Bool} {cs : List Char} {parts : DecimalParts} {m : Nat} {q : Int}
    (hparts : decimalParts? cs = some parts) (hdigits : ∀ d ∈ parts.digits, d.isDigit = true) (hd : IsDouble m q) (hm : 0 < m)
    (h : Double.ReadsAs m q (decimalValue parts.digits * 10 ^ (parts.power - (parts.places : Int)))) :
    finiteNumber? negative cs = some (.finite ⟨negative, m, q, hd⟩) := by
  have hread := Double.ofDecimal_of_readsAs negative hd hm (decimalValue_lt hdigits) h
  simp only [finiteNumber?, hparts, Option.bind_eq_bind, Option.bind_some, hread]
  rfl

namespace Double

/-- Digits with a point or a power of ten, the parts of which stand for a decimal. -/
structure Spells (d : Decimal) (cs : List Char) : Prop where
  parts : ∃ parts, decimalParts? cs = some parts ∧ (∀ c ∈ parts.digits, c.isDigit = true) ∧
    decimalValue parts.digits * 10 ^ (parts.power - (parts.places : Int)) = d.value
  digit : ∃ c rest, cs = c :: rest ∧ c.isDigit = true
  mark : ∃ c ∈ cs, c.isDigit = false

section

variable {d : Decimal} {whole fraction rest : List Char} {power : Int}

/-- Digits are not none if they go on with others. -/
theorem exists_digit_append (hne : whole ≠ []) (hwhole : ∀ c ∈ whole, c.isDigit = true) (rest : List Char) :
    ∃ c more, whole ++ rest = c :: more ∧ c.isDigit = true := by
  obtain ⟨c, more, rfl⟩ := List.exists_cons_of_ne_nil hne
  exact ⟨c, more ++ rest, rfl, hwhole c List.mem_cons_self⟩

/-- Digits with a point, and perhaps a power of ten, spell what their parts stand for. -/
theorem spells_point (hne : whole ≠ []) (hwhole : ∀ c ∈ whole, c.isDigit = true) (hfraction : ∀ c ∈ fraction, c.isDigit = true)
    (hrest : EndsDigits rest) (hpower : powerOfTen? rest = some power)
    (hvalue : decimalValue (whole ++ fraction) * 10 ^ (power - (fraction.length : Int)) = d.value) :
    Spells d (whole ++ '.' :: (fraction ++ rest)) where
  parts := ⟨⟨whole ++ fraction, fraction.length, power⟩, by rw [decimalParts?_point hwhole hfraction hne hrest, hpower]; rfl,
    List.forall_mem_append.mpr ⟨hwhole, hfraction⟩, hvalue⟩
  digit := exists_digit_append hne hwhole _
  mark := ⟨'.', by simp, rfl⟩

/-- Digits with a power of ten alone spell what their parts stand for. -/
theorem spells_power (hne : whole ≠ []) (hwhole : ∀ c ∈ whole, c.isDigit = true) (hpower : powerOfTen? ('e' :: rest) = some power)
    (hvalue : decimalValue whole * 10 ^ power = d.value) : Spells d (whole ++ 'e' :: rest) where
  parts := by
    refine ⟨⟨whole, 0, power⟩, ?_, hwhole, by rwa [Nat.cast_zero, sub_zero]⟩
    rw [decimalParts?_whole hwhole hne (by rintro c ⟨⟩; rfl) (by simp), hpower]
    rfl
  digit := exists_digit_append hne hwhole _
  mark := ⟨'e', by simp, rfl⟩

end

variable {d : Decimal}

/-- Digits behind zeros and a point have the value of the decimal, if there are as many zeros as the point is before the digits. -/
theorem value_zeros_digits {k : Nat} (hk : -d.point = k) :
    decimalValue (['0'] ++ (List.replicate k '0' ++ d.digits)) *
      (10 : ℚ) ^ (0 - ((List.replicate k '0' ++ d.digits).length : Int)) = d.value := by
  have hzeros : ['0'] ++ List.replicate k '0' = List.replicate (k + 1) '0' := rfl
  rw [← List.append_assoc, decimalValue_append, hzeros, decimalValue_zeros, Nat.zero_mul, Nat.zero_add, Decimal.value,
    List.length_append, List.length_replicate]
  congr 2
  push_cast
  omega

/-- Digits before zeros have the value of the decimal, if there are as many zeros as the point is behind the digits. -/
theorem value_digits_zeros {k : Nat} (hk : d.point - d.digits.length = k) :
    decimalValue (d.digits ++ List.replicate k '0' ++ ['0']) * (10 : ℚ) ^ (0 - (['0'].length : Int)) = d.value := by
  have hten : (10 : ℚ) ≠ 0 := by norm_num
  have hzeros : List.replicate k '0' ++ ['0'] = List.replicate (k + 1) '0' := List.replicate_succ'.symm
  rw [List.append_assoc, hzeros, decimalValue_append, decimalValue_zeros, Nat.add_zero, Decimal.value, List.length_replicate, hk]
  rw [Nat.cast_mul, Nat.cast_pow, Nat.cast_ofNat, mul_assoc, ← zpow_natCast, ← zpow_add₀ hten, List.length_singleton]
  congr 2
  omega

/-- Digits on both sides of the point have the value of the decimal. -/
theorem value_digits_point {k : Nat} (hk : d.point = k) (hle : k ≤ d.digits.length) :
    decimalValue (d.digits.take k ++ d.digits.drop k) * (10 : ℚ) ^ (0 - ((d.digits.drop k).length : Int)) = d.value := by
  rw [List.take_append_drop, Decimal.value, List.length_drop]
  congr 2
  omega

/-- Digits in full spell the decimal. -/
theorem spells_plainText (hne : d.digits ≠ []) (hall : ∀ c ∈ d.digits, c.isDigit = true) :
    Spells d (d.plainText ".0").toList := by
  have hend : EndsDigits [] := by
    rintro c ⟨⟩
  have hzeros : ∀ k, ∀ c ∈ List.replicate k '0', c.isDigit = true := fun k => isDigit_of_mem_zeros
  rw [Decimal.plainText]
  split
  · next hpoint =>
    obtain ⟨k, hk⟩ := Int.eq_ofNat_of_zero_le (show 0 ≤ -d.point by omega)
    have hspells := spells_point (List.cons_ne_nil '0' []) (List.forall_mem_singleton.mpr rfl)
      (List.forall_mem_append.mpr ⟨hzeros k, hall⟩) hend rfl (value_zeros_digits hk)
    rw [List.append_nil] at hspells
    simp only [hk, Int.toNat_natCast, String.toList_append, String.toList_ofList]
    exact hspells
  · split
    · next hpoint hcount =>
      obtain ⟨k, hk⟩ := Int.eq_ofNat_of_zero_le (show 0 ≤ d.point - d.digits.length by omega)
      have hspells := spells_point (List.append_ne_nil_of_left_ne_nil hne _) (List.forall_mem_append.mpr ⟨hall, hzeros k⟩)
        (List.forall_mem_singleton.mpr rfl) hend rfl (value_digits_zeros hk)
      rw [hk, Int.toNat_natCast, String.toList_append, String.toList_ofList]
      exact hspells
    · next hpoint hcount =>
      obtain ⟨k, hk⟩ := Int.eq_ofNat_of_zero_le (show 0 ≤ d.point by omega)
      have hwhole : d.digits.take k ≠ [] := by
        rw [ne_eq, List.take_eq_nil_iff, not_or]
        exact ⟨by omega, hne⟩
      have hspells := spells_point hwhole (fun c hc => hall c (List.mem_of_mem_take hc))
        (fun c hc => hall c (List.mem_of_mem_drop hc)) hend rfl (value_digits_point hk (by omega))
      rw [List.append_nil] at hspells
      simp only [hk, Int.toNat_natCast, String.toList_append, String.toList_ofList, List.append_assoc]
      exact hspells

/-- Digits with a power of ten spell the decimal. -/
theorem spells_powerText (hne : d.digits ≠ []) (hall : ∀ c ∈ d.digits, c.isDigit = true) :
    Spells d (d.powerText true).toList := by
  have hpower := powerOfTen?_text (d.point - 1)
  have hlead : d.digits.take 1 ≠ [] := by
    rw [ne_eq, List.take_eq_nil_iff, not_or]
    exact ⟨by decide, hne⟩
  have hsign : (if true && decide (0 ≤ d.point - 1) then "+" else "").toList = if 0 ≤ d.point - 1 then ['+'] else [] := by
    rw [Bool.true_and, apply_ite String.toList]
    simp only [decide_eq_true_eq]
    rfl
  have hlength : 0 < d.digits.length := List.length_pos_iff.mpr hne
  have htake : ∀ c ∈ d.digits.take 1, c.isDigit = true := fun c hc => hall c (List.mem_of_mem_take hc)
  rw [Decimal.powerText]
  simp only [String.toList_append, String.toList_ofList, hsign, List.append_assoc]
  split
  · next hempty =>
    rw [List.isEmpty_iff, List.drop_eq_nil_iff] at hempty
    have hvalue : decimalValue (d.digits.take 1) * (10 : ℚ) ^ (d.point - 1) = d.value := by
      rw [List.take_of_length_le hempty, Decimal.value]
      congr 2
      omega
    exact spells_power hlead htake hpower hvalue
  · have hvalue : decimalValue (d.digits.take 1 ++ d.digits.drop 1) *
        (10 : ℚ) ^ (d.point - 1 - ((d.digits.drop 1).length : Int)) = d.value := by
      rw [List.take_append_drop, Decimal.value, List.length_drop]
      congr 2
      omega
    simp only [String.toList_append, String.toList_ofList]
    exact spells_point hlead htake (fun c hc => hall c (List.mem_of_mem_drop hc)) (by rintro c ⟨⟩; rfl) hpower hvalue

/-- A finite double reads back, zero with its sign. -/
theorem numeral?_finiteText (x : Finite) : numeral? (finiteText .json x).toList = some (.real (.finite x)) := by
  have hsigned : ∀ body : String, (∃ c rest, body.toList = c :: rest ∧ c.isDigit = true) →
      (∃ c ∈ body.toList, c.isDigit = false) → finiteNumber? x.negative body.toList = some (.finite x) →
      numeral? ((if x.negative then "-" else "") ++ body).toList = some (.real (.finite x)) := by
    rintro body ⟨c, rest, hbody, hc⟩ ⟨mark, hmark, hno⟩ hread
    have hsign : (if x.negative then "-" else "").toList = signChars x.negative := by
      cases x.negative <;> rfl
    have hall : ¬(c :: rest).all Char.isDigit = true := by
      intro hall
      rw [← hbody] at hall
      rw [List.all_eq_true.mp hall mark hmark] at hno
      cases hno
    rw [hbody] at hread
    rw [String.toList_append, hsign, hbody, numeral?_signChars _ hc, unsigned?, if_neg hall, hread]
    rfl
  rw [finiteText]
  obtain ⟨negative, m, q, hd⟩ := x
  by_cases hm : m = 0
  · subst hm
    have hq : q = leastExponent := hd.2.2.2.resolve_left (by decide)
    subst hq
    simp only [if_true]
    rw [String.append_assoc]
    exact hsigned ("0" ++ ".0") ⟨'0', ['.', '0'], rfl, rfl⟩ ⟨'.', by decide, rfl⟩ rfl
  · have hpos := Nat.pos_of_ne_zero hm
    have hreads := readsAs_shortest NumberStyle.json.tieUp hd hpos
    obtain ⟨hne, hall⟩ := digits_shortest NumberStyle.json.tieUp hm q
    have hspells : ∀ {text : String}, Spells (shortest NumberStyle.json.tieUp m q) text.toList →
        numeral? ((if negative then "-" else "") ++ text).toList = some (.real (.finite ⟨negative, m, q, hd⟩)) := by
      intro text hspells
      obtain ⟨parts, hparts, hdigits, hvalue⟩ := hspells.parts
      exact hsigned text hspells.digit hspells.mark
        (finiteNumber?_of_readsAs hparts hdigits hd hpos (by rwa [hvalue]))
    have hplain := spells_plainText hne hall
    have hpower := spells_powerText hne hall
    have hending : NumberStyle.json.wholeEnding = ".0" := rfl
    have hplus : NumberStyle.json.plusSign = true := rfl
    simp only [hm, if_false, hending, hplus]
    generalize shortest NumberStyle.json.tieUp m q = d at hspells hplain hpower ⊢
    cases NumberStyle.json.plain d.point
    · exact hspells hpower
    · exact hspells hplain

end Double

end Workflow
