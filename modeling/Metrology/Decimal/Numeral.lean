import Metrology.Decimal.Double
import Metrology.Text.Digit

/-! # Numerals

A numeral is an optional sign, digits with an optional point among them, and an optional exponent.
`Numeral.read?` reads one from a whole text, `Numeral.readFront?` from the front of one, and `Numeral.value`
is the double nearest to the decimal number that it denotes.
-/
namespace Metrology.Decimal

/-- The number `digits * 10 ^ scale` with its sign, the digits read from left to right. -/
structure Numeral where
  negative : Bool
  digits : List Nat
  scale : Int
  deriving DecidableEq

def digitRun : List Char → List Nat × List Char
  | [] => ([], [])
  | c :: rest =>
    match Text.digitValue? c with
    | some d => (d :: (digitRun rest).1, (digitRun rest).2)
    | none => ([], c :: rest)

def natOfDigits (digits : List Nat) : Nat := digits.foldl (fun n d => 10 * n + d) 0

def readSign : List Char → Bool × List Char
  | '-' :: rest => (true, rest)
  | '+' :: rest => (false, rest)
  | cs => (false, cs)

/-- Takes an exponent off the front, zero if there is none; a letter without digits after it is no
exponent. -/
def readExponent (cs : List Char) : Int × List Char :=
  match cs with
  | [] => (0, [])
  | c :: rest =>
    let (negative, after) := readSign rest
    match digitRun after with
    | ([], _) => (0, cs)
    | (digits, after) =>
      if c = 'e' ∨ c = 'E' then ((if negative then -(natOfDigits digits : Int) else natOfDigits digits), after)
      else (0, cs)

def readFraction : List Char → List Nat × List Char
  | '.' :: rest => digitRun rest
  | cs => ([], cs)

/-- Takes the longest numeral off the front; a digit has to stand on one side of the point at least. -/
def Numeral.readFront? (cs : List Char) : Option (Numeral × List Char) :=
  let (negative, cs) := readSign cs
  let (whole, cs) := digitRun cs
  let (fraction, cs) := readFraction cs
  if whole.isEmpty && fraction.isEmpty then none
  else
    let (exponent, cs) := readExponent cs
    some (⟨negative, whole ++ fraction, exponent - fraction.length⟩, cs)

def Numeral.read? (cs : List Char) : Option Numeral :=
  match Numeral.readFront? cs with
  | some (n, []) => some n
  | _ => none

/-- The nearest double. Numbers that are far outside the range go to zero or infinity without being written
out. -/
def Numeral.value (n : Numeral) : Float :=
  let m := natOfDigits n.digits
  let reach := (n.digits.length : Int) + n.scale
  if m = 0 ∨ reach < -400 then nearest n.negative 0 1
  else if 400 + n.digits.length < reach then nearest n.negative (powUp 2 1100) 1
  else nearest n.negative (m * powUp 10 n.scale) (powDown 10 n.scale)

def readFloat? (s : String) : Option Float :=
  if s = "inf" then some (1.0 / 0.0)
  else if s = "-inf" then some (-1.0 / 0.0)
  else if s = "nan" then some nan
  else (Numeral.read? s.toList).map Numeral.value

end Metrology.Decimal
