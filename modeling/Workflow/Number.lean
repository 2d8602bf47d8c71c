import Workflow.Number.Style

/-!
# Numbers

A number of a document is a whole number or a double; the two kinds are never equal as keys, whatever their values.
-/

namespace Workflow

/-- A number as a document or a configuration holds it: a whole number, or a double. -/
inductive Number
  | int (n : Int)
  | real (x : Double)
  deriving DecidableEq, Inhabited

namespace Number

/-- The nearest double. -/
def toDouble : Number → Double
  | int n => .ofInt n
  | real x => x

/-- The text of a number in a style; a whole number is its decimal digits in every style. -/
def text (style : NumberStyle) : Number → String
  | int n => toString n
  | real x => x.text style

/-- Whether two numbers name the same value where values serve as keys. A whole number and a double never do. -/
def sameValue : Number → Number → Bool
  | int a, int b => a == b
  | real x, real y => x.sameValue y
  | _, _ => false

end Number

end Workflow
