import Metrology.Decimal.Shortest

/-! # Styles of number text

The three styles that numbers are written in: `plain` for values that have to read back, `compact` with six
digits for drawings, and `scientific` with six places for very large and very small results.
-/
namespace Metrology.Decimal

def exponentText (e : Int) : List Char :=
  let digits := Nat.toDigits 10 e.natAbs
  'e' :: (if e < 0 then '-' else '+') :: (if digits.length < 2 then '0' :: digits else digits)

def exponentForm (d : Digits) : List Char :=
  match d.digits with
  | [] => []
  | first :: [] => first :: exponentText d.point
  | first :: rest => first :: '.' :: rest ++ exponentText d.point

/-- Digits around the point at its place; `whole` is written after the digits of an integral number. -/
def pointForm (d : Digits) (whole : List Char) : List Char :=
  if d.point < 0 then
    '0' :: '.' :: List.replicate ((-d.point).toNat - 1) '0' ++ d.digits
  else
    let places := d.point.toNat + 1
    if d.digits.length ≤ places then d.digits ++ List.replicate (places - d.digits.length) '0' ++ whole
    else d.digits.take places ++ '.' :: d.digits.drop places

def withSign (nought : List Char) (body : Nat → Int → List Char) (x : Float) : String :=
  match Double.ofFloat x with
  | .nan => "nan"
  | .infinity negative => if negative then "-inf" else "inf"
  | .finite negative mantissa exponent =>
    let text := if mantissa = 0 then nought else body mantissa exponent
    String.ofList (if negative then '-' :: text else text)

/-- The fewest digits that read back, by place from `1e-4` up to below `1e16` and with an exponent outside; an
integral number keeps one zero after the point. -/
def plain (x : Float) : String :=
  withSign ['0', '.', '0'] (fun m e =>
    let d := shortest m e
    if -4 ≤ d.point ∧ d.point < 16 then pointForm d ['.', '0'] else exponentForm d) x

def dropTrailingZeros (digits : List Char) : List Char :=
  (digits.reverse.dropWhile fun c => c == '0').reverse

/-- Six digits without trailing zeros, by place from `1e-4` up to below `1e6`. -/
def compact (x : Float) : String :=
  withSign ['0'] (fun m e =>
    let r := rounded m e 6
    let d : Digits := ⟨dropTrailingZeros r.digits, r.point⟩
    if -4 ≤ d.point ∧ d.point < 6 then pointForm d [] else exponentForm d) x

/-- One digit before the point and six after it, always with an exponent. -/
def scientific (x : Float) : String :=
  withSign "0.000000e+00".toList (fun m e => exponentForm (rounded m e 7)) x

end Metrology.Decimal
