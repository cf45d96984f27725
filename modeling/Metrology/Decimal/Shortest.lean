import Metrology.Decimal.Double

/-! # Decimal digits of a double

Two ways to write a positive dyadic number `mantissa * 2 ^ exponent` in decimal: the fewest digits that read
back as the same double (`shortest`), and a given number of digits, rounded (`rounded`). Both are exact:
candidates are compared as quotients of natural numbers.
-/
namespace Metrology.Decimal

/-- Significant digits of a positive number; `point` is the power of ten of the first digit. -/
structure Digits where
  digits : List Char
  point : Int
  deriving DecidableEq

def digitCount (n : Nat) : Nat := (Nat.toDigits 10 n).length

def floorLog10 (num den : Nat) : Int :=
  if den ≤ num then (digitCount (num / den) : Int) - 1 else -(digitCount ((den - 1) / num) : Int)

def Digits.ofNat (n : Nat) (scale : Int) : Digits :=
  let digits := Nat.toDigits 10 n
  ⟨(digits.reverse.dropWhile fun c => c == '0').reverse, scale + digits.length - 1⟩

/-- The numbers that read back as one double, in quarters of its last binary place: `value` itself and the
ends of the interval, which belong to it when `closed`. -/
structure Neighbourhood where
  low : Nat
  value : Nat
  high : Nat
  closed : Bool
  unit : Int

/-- Below a power of two the doubles lie twice as dense, except at the bottom of the range. -/
def Neighbourhood.of (mantissa : Nat) (exponent : Int) : Neighbourhood where
  low := 4 * mantissa - (if mantissa = fractionCount ∧ -1074 < exponent then 1 else 2)
  value := 4 * mantissa
  high := 4 * mantissa + 2
  closed := mantissa % 2 == 0
  unit := exponent - 2

/-- The multiple of `10 ^ scale` nearest to the value among its two neighbours on that grid that read back, a
tie going to the even one. -/
def Neighbourhood.onGrid? (b : Neighbourhood) (scale : Int) : Option Nat :=
  let num := powUp 2 b.unit * powDown 10 scale
  let den := powDown 2 b.unit * powUp 10 scale
  let reads (c : Nat) : Bool :=
    if b.closed then b.low * num ≤ c * den && c * den ≤ b.high * num
    else b.low * num < c * den && c * den < b.high * num
  let below := b.value * num / den
  match reads below, reads (below + 1) with
  | false, false => none
  | true, false => some below
  | false, true => some (below + 1)
  | true, true => some (roundDiv (b.value * num) den)

def Neighbourhood.search (b : Neighbourhood) : Nat → Int → Option Digits
  | 0, _ => none
  | count + 1, scale =>
    match b.onGrid? scale with
    | some n => some (Digits.ofNat n scale)
    | none => b.search count (scale - 1)

def roundedQuotient (num den digits : Nat) : Digits :=
  let point := floorLog10 num den
  let scale := point - digits + 1
  let n := roundDiv (num * powDown 10 scale) (den * powUp 10 scale)
  if n = Nat.pow 10 digits then ⟨Nat.toDigits 10 (Nat.pow 10 (digits - 1)), point + 1⟩ else ⟨Nat.toDigits 10 n, point⟩

def rounded (mantissa : Nat) (exponent : Int) (digits : Nat) : Digits :=
  roundedQuotient (mantissa * powUp 2 exponent) (powDown 2 exponent) digits

/-- The fewest digits that read back as the double; seventeen always do. -/
def shortest (mantissa : Nat) (exponent : Int) : Digits :=
  let point := floorLog10 (mantissa * powUp 2 exponent) (powDown 2 exponent)
  ((Neighbourhood.of mantissa exponent).search 17 point).getD (rounded mantissa exponent 17)

end Metrology.Decimal
