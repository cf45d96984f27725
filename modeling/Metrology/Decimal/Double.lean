/-! # Doubles as exact dyadic numbers

`Double.ofFloat` reads a double as a signed mantissa times a power of two; `nearest` goes the other way and
rounds any quotient of natural numbers to the nearest double, a tie to the even mantissa.
-/
namespace Metrology.Decimal

/-- What a double denotes; a finite one is `mantissa * 2 ^ exponent` with its sign. -/
inductive Double where
  | nan
  | infinity (negative : Bool)
  | finite (negative : Bool) (mantissa : Nat) (exponent : Int)
  deriving DecidableEq

/-- The number of fractions that share an exponent, which is the bit that a mantissa has besides its
fraction. -/
def fractionCount : Nat := 0x10000000000000

def Double.ofBits (bits : Nat) : Double :=
  let negative := bits / (2048 * fractionCount) % 2 == 1
  let field : Nat := bits / fractionCount % 2048
  let fraction := bits % fractionCount
  if field = 2047 then if fraction = 0 then .infinity negative else .nan
  else if field = 0 then .finite negative fraction (-1074)
  else .finite negative (fractionCount + fraction) ((field : Int) - 1075)

def Double.ofFloat (x : Float) : Double := Double.ofBits x.toBits.toNat

def nan : Float := 0.0 / 0.0

def infinity : Float := 1.0 / 0.0

/-- A power of a base with a negative exponent counted as one, for the numerator of a quotient. -/
def powUp (base : Nat) (exponent : Int) : Nat := Nat.pow base exponent.toNat

def powDown (base : Nat) (exponent : Int) : Nat := Nat.pow base (-exponent).toNat

/-- The quotient rounded to the nearest natural number, a tie to the even one. -/
def roundDiv (num den : Nat) : Nat :=
  let quotient := num / den
  let twice := 2 * (num % den)
  if twice < den then quotient
  else if den < twice then quotient + 1
  else quotient + quotient % 2

def floorLog2 (num den : Nat) : Int :=
  let guess : Int := (num.log2 : Int) - den.log2
  if num * powDown 2 guess < den * powUp 2 guess then guess - 1 else guess

/-- The bits of the double nearest to a quotient, sign apart. A mantissa that rounds up to the next power of
two carries into the exponent field, and from the largest field into infinity. -/
def nearestBits (num den : Nat) : Nat :=
  if num = 0 then 0
  else
    let exponent := max (-1074) (floorLog2 num den - 52)
    if 971 < exponent then 2047 * fractionCount
    else
      let mantissa := roundDiv (num * powDown 2 exponent) (den * powUp 2 exponent)
      if mantissa < fractionCount then mantissa
      else (exponent + 1075).toNat * fractionCount + (mantissa - fractionCount)

def nearest (negative : Bool) (num den : Nat) : Float :=
  let magnitude := Float.ofBits (nearestBits num den).toUInt64
  if negative then -magnitude else magnitude

def ofRat (q : Rat) : Float := nearest (q.num < 0) q.num.natAbs q.den

/-- The double nearest to an integer, unless it lies beyond the largest double. -/
def ofInt? (n : Int) : Option Float :=
  let x := nearest (n < 0) n.natAbs 1
  if x.isFinite then some x else none

end Metrology.Decimal
