import Metrology.Decimal.Double
import Metrology.Formula.Operator

/-! # Arithmetic of formulas

The operations on doubles that formulas are made of. Those in `Checked` fail for some operands. A formula does
not reach them there: division, remainders, powers and angles look at their operands first, or at what went
wrong, and give the value that doubles have for it.
-/
namespace Metrology.Formula

inductive ArithmeticError where
  | zeroDivision
  | overflow
  | domain
  deriving DecidableEq, Repr

def ArithmeticError.message : ArithmeticError → String
  | .zeroDivision => "float division by zero"
  | .overflow => "math range error"
  | .domain => "math domain error"

def isSigned (x : Float) : Bool := x.toBits.toNat.testBit 63

def copySign (size sign : Float) : Float := if isSigned sign then -size.abs else size.abs

def isOddInteger (x : Float) : Bool :=
  match Decimal.Double.ofFloat x with
  | .finite _ m e =>
    m % Decimal.powDown 2 e == 0 && m * Decimal.powUp 2 e / Decimal.powDown 2 e % 2 == 1
  | _ => false

/-- The remainder of a truncated division of numbers, which is exact and takes the sign of the dividend. -/
def truncatedRemainder (x y : Float) : Float :=
  match Decimal.Double.ofFloat x, Decimal.Double.ofFloat y with
  | .finite _ _ _, .infinity _ => x
  | .finite negative m e, .finite _ n f =>
    let unit := min e f
    let rest := (m * Decimal.powUp 2 (e - unit)) % (n * Decimal.powUp 2 (f - unit))
    Decimal.nearest negative (rest * Decimal.powUp 2 unit) (Decimal.powDown 2 unit)
  | _, _ => Decimal.nan

namespace Checked

def divide (x y : Float) : Except ArithmeticError Float :=
  if y == 0.0 then .error .zeroDivision else .ok (x / y)

def remainder (x y : Float) : Except ArithmeticError Float :=
  if x.isNaN || y.isNaN then .ok Decimal.nan
  else if x.isInf || y == 0.0 then .error .domain
  else .ok (truncatedRemainder x y)

/-- A power of numbers that is infinite is an error, as is one that is undefined. -/
def power (x y : Float) : Except ArithmeticError Float :=
  let z := Float.pow x y
  if !x.isFinite || !y.isFinite then .ok z
  else if z.isNaN then .error .domain
  else if z.isInf then .error (if x == 0.0 then .domain else .overflow)
  else .ok z

def circular (f : Float → Float) (x : Float) : Except ArithmeticError Float :=
  if x.isInf then .error .domain else .ok (f x)

end Checked

def divide (x y : Float) : Except ArithmeticError Float :=
  if y == 0.0 then
    if x == 0.0 || x.isNaN then .ok Decimal.nan
    else .ok (copySign Decimal.infinity x * copySign 1.0 y)
  else Checked.divide x y

def remainder (x y : Float) : Except ArithmeticError Float :=
  if y == 0.0 || x.isInf then .ok Decimal.nan else Checked.remainder x y

/-- A power that is too large is infinite, and negative if its base is and the exponent is odd. Of the others
that fail those of zero are infinite too. -/
def power (x y : Float) : Except ArithmeticError Float :=
  match Checked.power x y with
  | .error .overflow => .ok (if x < 0.0 && isOddInteger y then -Decimal.infinity else Decimal.infinity)
  | .error .domain =>
    if x == 0.0 then .ok (if isOddInteger y then copySign Decimal.infinity x else Decimal.infinity)
    else .ok Decimal.nan
  | found => found

def trigonometric (f : Float → Float) (x : Float) : Except ArithmeticError Float :=
  if x.isInf then .ok Decimal.nan else Checked.circular f x

def Operator.apply? : Operator → Option (Float → Float → Except ArithmeticError Float)
  | .add => some fun x y => .ok (x + y)
  | .sub => some fun x y => .ok (x - y)
  | .mul => some fun x y => .ok (x * y)
  | .div => some divide
  | .pow => some power
  | .mod => some remainder
  | .negate => none
  | .convert => none

/-- The value of a function; an extremum keeps the first of the arguments that no later one beats. -/
def Function.apply (f : Function) (first : Float) (rest : List Float) : Except ArithmeticError Float :=
  match f with
  | .max => .ok (rest.foldl (fun best x => if x > best then x else best) first)
  | .min => .ok (rest.foldl (fun best x => if x < best then x else best) first)
  | .sin => trigonometric Float.sin first
  | .cos => trigonometric Float.cos first
  | .tan => trigonometric Float.tan first

end Metrology.Formula
