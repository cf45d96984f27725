import Metrology.Algebra.Root

/-! # Approximations

Real numbers are approximated by fractions with `precision` significant binary places, and complex numbers by
pairs of them. That is far more than a double has.
-/
namespace Metrology.Algebra

def precision : Nat := 320

def roundTo (places : Nat) (q : Rat) : Rat := ((q * (Nat.pow 2 places : Nat)).floor : Int) / (Nat.pow 2 places : Nat)

def trim (q : Rat) : Rat :=
  if q = 0 then 0
  else
    let size : Int := (q.num.natAbs.log2 : Int) - (q.den.log2 : Int)
    let shift := (precision : Int) - size
    if 0 ≤ shift then roundTo shift.toNat q
    else ((q / (Nat.pow 2 (-shift).toNat : Nat)).floor : Int) * ((Nat.pow 2 (-shift).toNat : Nat) : Rat)

def approximatePower (q e : Rat) : Rat :=
  let raised : Rat := if e.num < 0 then 1 / q ^ e.num.natAbs else q ^ e.num.natAbs
  let places := precision + 2 * raised.den.log2 + 2
  let scaled := (raised * (Nat.pow 2 (places * e.den) : Rat)).floor.toNat
  trim (((rootPart e.den scaled : Nat) : Rat) / (Nat.pow 2 places : Rat))

def approximateRoot (q : Rat) : Rat := if q ≤ 0 then 0 else approximatePower q (1 / 2)

def seriesPlaces : Nat := precision + 40

def toUnits (places : Nat) (q : Rat) : Int := (q * (Nat.pow 2 places : Nat)).floor

def ofUnits (places : Nat) (n : Int) : Rat := (n : Rat) / (Nat.pow 2 places : Nat)

def timesUnits (places : Nat) (a b : Int) : Int := (a * b) >>> places

/-- Adds terms until they vanish; `step` gives the next term and `weigh` what it contributes, by its index. -/
def seriesRounds (step weigh : Int → Nat → Int) (term total : Int) (index : Nat) : Nat → Int
  | 0 => total
  | bound + 1 =>
    if term = 0 ∨ term = -1 then total
    else seriesRounds step weigh (step term index) (total + weigh term index) (index + 1) bound

def series (first : Int) (step weigh : Int → Nat → Int) : Int :=
  seriesRounds step weigh first 0 0 (2 * seriesPlaces)

def arcUnits (places : Nat) (x : Int) : Int :=
  let square := timesUnits places x x
  seriesRounds (fun t _ => -timesUnits places t square) (fun t i => t / ((2 * i + 1 : Nat) : Int)) x 0 0 (2 * places)

/-- Four times the circle number is the sum of sixteen and four inverse tangents. -/
def circleNumberTo (places : Nat) : Rat :=
  ofUnits places (16 * arcUnits places (toUnits places (1 / 5)) - 4 * arcUnits places (toUnits places (1 / 239)))

def circleNumber : Rat := circleNumberTo seriesPlaces

/-- An angle in units within one half turn that has the same sine and cosine; large angles need more places of
the circle number. -/
def reduceAngle (x : Rat) : Int :=
  let size := x.num.natAbs.log2 - x.den.log2
  let turn := 2 * (if size < 3 then circleNumber else circleNumberTo (seriesPlaces + size + 1))
  if -3 < x ∧ x < 3 then toUnits seriesPlaces x else toUnits seriesPlaces (x - turn * ((x / turn + 1 / 2).floor : Int))

def sinOf (x : Rat) : Rat :=
  let a := reduceAngle x
  let square := timesUnits seriesPlaces a a
  ofUnits seriesPlaces
    (series a (fun t i => -timesUnits seriesPlaces t square / (((2 * i + 2) * (2 * i + 3) : Nat) : Int)) fun t _ => t)

def cosOf (x : Rat) : Rat :=
  let a := reduceAngle x
  let square := timesUnits seriesPlaces a a
  ofUnits seriesPlaces
    (series (toUnits seriesPlaces 1)
      (fun t i => -timesUnits seriesPlaces t square / (((2 * i + 1) * (2 * i + 2) : Nat) : Int)) fun t _ => t)

def expOf (x : Rat) : Rat :=
  let halvings := x.num.natAbs.log2 - x.den.log2 + 12
  let small := toUnits seriesPlaces (x / (Nat.pow 2 halvings : Nat))
  let power := series (toUnits seriesPlaces 1)
    (fun t i => timesUnits seriesPlaces t small / ((i + 1 : Nat) : Int)) fun t _ => t
  (List.range halvings).foldl (fun p _ => trim (p * p)) (ofUnits seriesPlaces power)

def logOf (x : Rat) : Rat :=
  let near (m : Rat) : Rat :=
    let r := toUnits seriesPlaces ((m - 1) / (m + 1))
    let square := timesUnits seriesPlaces r r
    2 * ofUnits seriesPlaces
      (series r (fun t _ => timesUnits seriesPlaces t square) fun t i => t / ((2 * i + 1 : Nat) : Int))
  let k : Int := (x.num.natAbs.log2 : Int) - (x.den.log2 : Int)
  let m := if 0 ≤ k then x / (Nat.pow 2 k.toNat : Nat) else x * (Nat.pow 2 (-k).toNat : Nat)
  trim (near m + k * near 2)

def arcTangent (x : Rat) : Rat :=
  let halve (t : Rat) : Rat := trim (t / (1 + approximateRoot (1 + t * t)))
  8 * ofUnits seriesPlaces (arcUnits seriesPlaces (toUnits seriesPlaces (halve (halve (halve x)))))

/-- The angle of a point, from the negative to the positive half turn. -/
def angleOf (re im : Rat) : Rat :=
  if 0 < re then arcTangent (im / re)
  else if re = 0 then (if 0 < im then circleNumber / 2 else if im < 0 then -circleNumber / 2 else 0)
  else if 0 ≤ im then circleNumber + arcTangent (im / re)
  else arcTangent (im / re) - circleNumber

structure Complex where
  re : Rat
  im : Rat
  deriving DecidableEq

namespace Complex

def ofRat (q : Rat) : Complex := ⟨q, 0⟩

def add (a b : Complex) : Complex := ⟨trim (a.re + b.re), trim (a.im + b.im)⟩

def neg (a : Complex) : Complex := ⟨-a.re, -a.im⟩

def mul (a b : Complex) : Complex := ⟨trim (a.re * b.re - a.im * b.im), trim (a.re * b.im + a.im * b.re)⟩

def square (a : Complex) : Rat := a.re * a.re + a.im * a.im

def inverse? (a : Complex) : Option Complex :=
  let s := trim a.square
  if s = 0 then none else some ⟨trim (a.re / s), trim (-a.im / s)⟩

def size (a : Complex) : Rat := if a.im = 0 then (if a.re < 0 then -a.re else a.re) else approximateRoot a.square

def natPow (a : Complex) : Nat → Complex
  | 0 => ofRat 1
  | n + 1 => (natPow a n).mul a

def exponentLimit : Nat := 1000

def exp (a : Complex) : Complex :=
  let r := expOf a.re
  if a.im = 0 then ⟨r, 0⟩ else ⟨trim (r * cosOf a.im), trim (r * sinOf a.im)⟩

def power? (a e : Complex) : Option Complex :=
  if e.im = 0 ∧ e.re.den = 1 ∧ e.re.num.natAbs ≤ exponentLimit then
    if e.re.num < 0 then (a.natPow e.re.num.natAbs).inverse? else some (a.natPow e.re.num.natAbs)
  else if a.square = 0 then (if 0 < e.re then some ⟨0, 0⟩ else none)
  else if a.im = 0 ∧ 0 < a.re ∧ e.im = 0 ∧ e.re.den ≤ 64 ∧ e.re.num.natAbs ≤ exponentLimit then
    some ⟨approximatePower a.re e.re, 0⟩
  else
    let log : Complex := ⟨logOf (trim a.square) / 2, angleOf a.re a.im⟩
    let exponent := log.mul e
    if 4096 < exponent.re ∨ exponent.re < -4096 then none else some exponent.exp

def sin (a : Complex) : Complex :=
  let p := expOf a.im
  let m := expOf (-a.im)
  if a.im = 0 then ⟨trim (sinOf a.re), 0⟩
  else ⟨trim (sinOf a.re * (p + m) / 2), trim (cosOf a.re * (p - m) / 2)⟩

def cos (a : Complex) : Complex :=
  let p := expOf a.im
  let m := expOf (-a.im)
  if a.im = 0 then ⟨trim (cosOf a.re), 0⟩
  else ⟨trim (cosOf a.re * (p + m) / 2), trim (-(sinOf a.re * (p - m) / 2))⟩

end Complex

end Metrology.Algebra
