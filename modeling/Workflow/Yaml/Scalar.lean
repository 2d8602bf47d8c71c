import Workflow.Yaml.Tree
import Workflow.Yaml.Token

/-!
# What plain scalars mean

A plain scalar may spell null, a truth value, a whole number or a double; otherwise it is a text. Whole numbers are
limited to 64 bits, and such as need up to 128 bits are refused rather than rounded.
-/

namespace Workflow

namespace Yaml

/-- Whether a text spells null. -/
def spellsNull (s : String) : Bool := s ∈ ["null", "Null", "NULL", "~"]

/-- The truth value that a text spells. -/
def truthValue? (s : String) : Option Bool :=
  if s ∈ ["true", "True", "TRUE"] then some true
  else if s ∈ ["false", "False", "FALSE"] then some false
  else none

/-- The value of a digit in a base of at most sixteen. -/
def digitValue? (base : Nat) (c : Char) : Option Nat :=
  (hexValue? c).filter (· < base)

/-- The number that digits spell in a base; there has to be one. -/
def digitsValue? (base : Nat) (digits : List Char) : Option Nat :=
  if digits.isEmpty then none
  else digits.foldlM (fun n d => do return base * n + (← digitValue? base d)) 0

/-- The base that a mark before the digits announces, with the digits. -/
def announcedBase? : List Char → Option (Nat × List Char)
  | '0' :: 'x' :: digits => some (16, digits)
  | '0' :: 'o' :: digits => some (8, digits)
  | '0' :: 'b' :: digits => some (2, digits)
  | _ => none

/-- Whether digits begin with a zero that is not all of them. Such digits are no number. -/
def hasLeadingZero : List Char → Bool
  | '0' :: d :: digits => (d :: digits).all Char.isDigit
  | _ => false

/-- The whole number that a text spells: a sign, then decimal digits, or the digits of an announced base. -/
def wholeNumber? (cs : List Char) : Option Int :=
  let (negative, digits) :=
    match cs with
    | '+' :: rest => (false, rest)
    | '-' :: rest => (true, rest)
    | _ => (false, cs)
  let size :=
    match announcedBase? digits with
    | some (base, rest) => digitsValue? base rest
    | none => if hasLeadingZero digits then none else digitsValue? 10 digits
  size.map fun n => if negative then -(n : Int) else n

/-- The parts of a decimal fraction: its digits without the point, how many of them follow the point, and its power of
ten. -/
structure DecimalParts where
  digits : List Char
  places : Nat
  power : Int

/-- The power of ten at the end of a fraction, if the rest of a text is one. -/
def powerOfTen? : List Char → Option Int
  | [] => some 0
  | c :: rest =>
    if c == 'e' || c == 'E' then
      match rest with
      | '+' :: digits => (digitsValue? 10 digits).map fun n => (n : Int)
      | '-' :: digits => (digitsValue? 10 digits).map fun n => -(n : Int)
      | digits => (digitsValue? 10 digits).map fun n => (n : Int)
    else none

/-- The parts of a decimal fraction that a text spells. -/
def decimalParts? (cs : List Char) : Option DecimalParts :=
  let whole := cs.takeWhile Char.isDigit
  let (fraction, rest) :=
    match cs.dropWhile Char.isDigit with
    | '.' :: after => (after.takeWhile Char.isDigit, after.dropWhile Char.isDigit)
    | after => ([], after)
  if whole.isEmpty && fraction.isEmpty then none
  else (powerOfTen? rest).map fun power => ⟨whole ++ fraction, fraction.length, power⟩

/-- The number that digits spell, zero if there are none. -/
def decimalValue (digits : List Char) : Nat :=
  digits.foldl (fun n d => 10 * n + (d.toNat - '0'.toNat)) 0

/-- The finite double that a decimal fraction with a sign spells. -/
def finiteNumber? (negative : Bool) (cs : List Char) : Option Double := do
  let parts ← decimalParts? cs
  let x :=
    Double.ofDecimal negative (decimalValue parts.digits) parts.digits.length (parts.power - (parts.places : Int))
  guard x.isFinite
  return x

/-- The double that a text spells. -/
def double? (s : String) : Option Double :=
  if s ∈ [".inf", ".Inf", ".INF", "+.inf", "+.Inf", "+.INF"] then some (.infinite false)
  else if s ∈ ["-.inf", "-.Inf", "-.INF"] then some (.infinite true)
  else if s ∈ [".nan", ".NaN", ".NAN"] then some .nan
  else
    match s.toList with
    | '+' :: rest => finiteNumber? false rest
    | '-' :: rest => finiteNumber? true rest
    | cs => finiteNumber? false cs

/-- A whole number that no value can hold, though it has at most 128 bits. -/
structure TooWide where
  value : Int
  deriving DecidableEq

/-- The wording of the refusal of a number that is too wide. -/
def TooWide.message (w : TooWide) : String :=
  "invalid type: integer \x60" ++ toString w.value ++ "\x60 as " ++ (if w.value < 0 then "i128" else "u128") ++
    ", expected any YAML value"

/-- Whether a number fits into so many bits, one of which is the sign if the number is negative. -/
def fitsBits (bits : Nat) : Int → Bool
  | .ofNat n => decide (n < 1 <<< bits)
  | .negSucc n => decide (n < 1 <<< (bits - 1))

/-- The whole number that a text spells, if it has at most 128 bits, refused if it needs more than 64. -/
def integer? (s : String) : Option (Except TooWide Tree) :=
  match wholeNumber? s.toList with
  | none => none
  | some n =>
    if fitsBits 64 n then some (.ok (.num (.int n)))
    else if fitsBits 128 n then some (.error ⟨n⟩)
    else none

/-- Whether a text consists of a sign, if any, and digits that are no number for their leading zero. -/
def isPaddedNumber (s : String) : Bool :=
  match s.toList with
  | '+' :: digits => hasLeadingZero digits
  | '-' :: digits => hasLeadingZero digits
  | digits => hasLeadingZero digits

/-- What a plain scalar means. -/
def plainValue (s : String) : Except TooWide Tree :=
  if s.isEmpty || spellsNull s then .ok .null
  else
    match truthValue? s, integer? s with
    | some b, _ => .ok (.bool b)
    | none, some result => result
    | none, none =>
      if isPaddedNumber s then .ok (.str s)
      else
        match double? s with
        | some x => .ok (.num (.real x))
        | none => .ok (.str s)

end Yaml

end Workflow
