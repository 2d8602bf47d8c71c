import Workflow.Number.Shortest

/-!
# Styles of writing numbers

How the digits of a double become text: where the point stands, when a power of ten is written out, and what stands for
the values without digits. One record holds the decisions of one style.
-/

namespace Workflow

/-- The decisions of one way to write a double with digits `0.d₁d₂… · 10 ^ point`. -/
structure NumberStyle where
  /-- The points for which the digits are written in full, without a power of ten. -/
  plain : Int → Bool
  /-- Whether a power of ten that is not negative takes a plus sign. -/
  plusSign : Bool
  /-- What follows the digits of a whole number that is written in full. -/
  wholeEnding : String
  /-- Of two shortest decimals that are equally near, the upper one is taken if this is set, else the even one. -/
  tieUp : Bool
  notANumber : String
  infinity : String

namespace NumberStyle

/-- Digits in full for `0.00001` up to sixteen digits before the point; a whole number keeps `.0`. -/
def keepsFraction (point : Int) : Bool :=
  decide (-5 < point ∧ point ≤ 16)

/-- Numbers in configuration text: `1.0`, `1e+16`, `1e-7`. Only finite numbers are written there. -/
def json : NumberStyle where
  plain := keepsFraction
  plusSign := true
  wholeEnding := ".0"
  tieUp := false
  notANumber := "nan"
  infinity := "inf"

/-- Numbers in document text: `1.0`, `1e16`, `1e-7`, `.inf`. -/
def yaml : NumberStyle where
  plain := keepsFraction
  plusSign := false
  wholeEnding := ".0"
  tieUp := false
  notANumber := ".nan"
  infinity := ".inf"

/-- Numbers in sentences: all digits in full, `2`, `0.0000001`, `inf`. -/
def prose : NumberStyle where
  plain := fun _ => true
  plusSign := false
  wholeEnding := ""
  tieUp := true
  notANumber := "NaN"
  infinity := "inf"

end NumberStyle

namespace Double

/-- The digits of a decimal in full: zeros fill the places between the digits and the point. -/
def Decimal.plainText (wholeEnding : String) (d : Decimal) : String :=
  let count : Int := d.digits.length
  if d.point ≤ 0 then "0." ++ String.ofList (List.replicate (-d.point).toNat '0' ++ d.digits)
  else if count ≤ d.point then
    String.ofList (d.digits ++ List.replicate (d.point - count).toNat '0') ++ wholeEnding
  else String.ofList (d.digits.take d.point.toNat) ++ "." ++ String.ofList (d.digits.drop d.point.toNat)

/-- The digits of a decimal with one digit before the point, then the power of ten. -/
def Decimal.powerText (plusSign : Bool) (d : Decimal) : String :=
  let power := d.point - 1
  let lead := String.ofList (d.digits.take 1)
  let rest := d.digits.drop 1
  let fraction := if rest.isEmpty then "" else "." ++ String.ofList rest
  let sign := if plusSign && decide (0 ≤ power) then "+" else ""
  lead ++ fraction ++ "e" ++ sign ++ toString power

/-- The text of a finite number in a style. -/
def finiteText (style : NumberStyle) (x : Finite) : String :=
  let sign := if x.negative then "-" else ""
  if x.mantissa = 0 then sign ++ "0" ++ style.wholeEnding
  else
    let d := shortest style.tieUp x.mantissa x.exponent
    sign ++ (if style.plain d.point then d.plainText style.wholeEnding else d.powerText style.plusSign)

/-- The text of a double in a style. -/
def text (style : NumberStyle) : Double → String
  | .nan => style.notANumber
  | .infinite negative => (if negative then "-" else "") ++ style.infinity
  | .finite x => finiteText style x

end Double

end Workflow
