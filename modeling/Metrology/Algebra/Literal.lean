import Metrology.Decimal.Shortest
import Metrology.Formula.Tree

/-! # Literals as exact numbers

Algebra on formulas is exact. An integral literal denotes its value, every other one the decimal number that
it is written with: the literal of one tenth is exactly 1/10. A result goes back to the nearest double.
-/
namespace Metrology.Algebra

/-- The number that decimal digits with a point after the first one, moved by `point` places, denote. -/
def decimalValue (d : Decimal.Digits) : Rat :=
  let digits := d.digits.foldl (fun n c => 10 * n + (c.toNat - '0'.toNat)) 0
  let scale := d.point - (d.digits.length - 1 : Nat)
  ((digits * Decimal.powUp 10 scale : Nat) : Rat) / (Decimal.powDown 10 scale : Nat)

def isIntegral (mantissa : Nat) (exponent : Int) : Bool := mantissa % Decimal.powDown 2 exponent == 0

/-- The exact number of a finite literal. -/
def literalValue? (x : Float) : Option Rat :=
  match Decimal.Double.ofFloat x with
  | .finite negative mantissa exponent =>
    let magnitude : Rat :=
      if isIntegral mantissa exponent then
        ((mantissa * Decimal.powUp 2 exponent / Decimal.powDown 2 exponent : Nat) : Rat)
      else decimalValue (Decimal.shortest mantissa exponent)
    some (if negative then -magnitude else magnitude)
  | _ => none

def literal (q : Rat) : Formula.Tree := .number (Decimal.ofRat q)

end Metrology.Algebra
