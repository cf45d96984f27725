import Metrology.Algebra.Expansion
import Metrology.Algebra.Text

/-! # Polynomials

Polynomials with rational coefficients in several generators, which are terms of any kind. A polynomial is a
list of exponents with coefficients other than zero, by falling exponents. Greatest common divisors are found
by pseudodivision in the first generator, whose coefficients are polynomials in the others.
-/
namespace Metrology.Algebra

/-- Exponents with coefficients; all exponents of a polynomial are equally many. -/
abbrev Polynomial := List (List Nat × Rat)

namespace Polynomial

def compareExponents : List Nat → List Nat → Ordering
  | a :: as, b :: bs => (Ord.compare a b).then (compareExponents as bs)
  | _, _ => .eq

def add : Polynomial → Polynomial → Polynomial
  | [], q => q
  | p, [] => p
  | (e, c) :: p, (f, d) :: q =>
    match compareExponents e f with
    | .gt => (e, c) :: add p ((f, d) :: q)
    | .lt => (f, d) :: add ((e, c) :: p) q
    | .eq => if c + d = 0 then add p q else (e, c + d) :: add p q
  termination_by p q => p.length + q.length

def scale (c : Rat) (p : Polynomial) : Polynomial := if c = 0 then [] else p.map fun m => (m.1, c * m.2)

def neg (p : Polynomial) : Polynomial := scale (-1) p

def sub (p q : Polynomial) : Polynomial := add p (neg q)

def shift (e : List Nat) (c : Rat) (p : Polynomial) : Polynomial :=
  if c = 0 then [] else p.map fun m => ((m.1.zip e).map fun x => x.1 + x.2, c * m.2)

def mul (p q : Polynomial) : Polynomial := p.foldl (fun total m => add total (shift m.1 m.2 q)) []

def one (count : Nat) : Polynomial := [(List.replicate count 0, 1)]

def isConstant (p : Polynomial) : Bool := p.all fun m => m.1.all fun e => e == 0

def content (p : Polynomial) : Rat :=
  let g : Nat := p.foldl (fun g m => Nat.gcd g m.2.num.natAbs) 0
  let l : Nat := p.foldl (fun l m => Nat.lcm l m.2.den) 1
  mkRat g l

def leading (p : Polynomial) : Rat := match p with
  | [] => 0
  | m :: _ => m.2

def normalized (p : Polynomial) : Polynomial :=
  let c := p.content
  if c = 0 then [] else scale (if p.leading < 0 then -1 / c else 1 / c) p

/-- Whether the first exponents are not less than the second ones, and their difference. -/
def subtractExponents? : List Nat → List Nat → Option (List Nat)
  | a :: as, b :: bs => if b ≤ a then (subtractExponents? as bs).map fun r => (a - b) :: r else none
  | _, _ => some []

def divideWithin (q : Polynomial) : Nat → Polynomial → Option Polynomial
  | 0, _ => none
  | _, [] => some []
  | fuel + 1, (e, c) :: p =>
    match q with
    | [] => none
    | (f, d) :: _ =>
      match subtractExponents? e f with
      | none => none
      | some r => (divideWithin q fuel (sub ((e, c) :: p) (shift r (c / d) q))).map fun rest => (r, c / d) :: rest

def divisionBound : Nat := 3000

def divide (p q : Polynomial) : Polynomial := (divideWithin q divisionBound p).getD p

def degree (p : Polynomial) : Nat := match p with
  | (e :: _, _) :: _ => e
  | _ => 0

def coefficient (n : Nat) (p : Polynomial) : Polynomial :=
  p.filterMap fun m => match m.1 with
    | e :: rest => if e = n then some (rest, m.2) else none
    | [] => none

def raise (n : Nat) (p : Polynomial) : Polynomial := p.map fun m => (n :: m.1, m.2)

/-- The remainder of a division in which the dividend is multiplied as often as necessary. -/
def pseudoRemainder (q : Polynomial) : Nat → Polynomial → Polynomial
  | 0, p => p
  | fuel + 1, p =>
    if p.isEmpty || p.degree < q.degree then p
    else
      let a := raise 0 (coefficient q.degree q)
      let b := raise (p.degree - q.degree) (coefficient p.degree p)
      pseudoRemainder q fuel (normalized (sub (mul a p) (mul b q)))

def innerContent (gcd : Polynomial → Polynomial → Polynomial) (p : Polynomial) : Polynomial :=
  (List.range (p.degree + 1)).foldl (fun g n => gcd g (coefficient n p)) []

def euclid (gcd : Polynomial → Polynomial → Polynomial) : Nat → Polynomial → Polynomial → Polynomial
  | 0, p, _ => p
  | fuel + 1, p, q =>
    if q.isEmpty then p
    else if q.degree = 0 then one ((p.head?.map fun m => m.1.length).getD 0)
    else
      let r := pseudoRemainder q (p.degree + 2) p
      if r.isEmpty then q else euclid gcd fuel q (divide r (raise 0 (innerContent gcd r)))

def gcdIn : Nat → Polynomial → Polynomial → Polynomial
  | 0, p, q => if p.isEmpty && q.isEmpty then [] else one 0
  | count + 1, p, q =>
    if p.isEmpty then normalized q
    else if q.isEmpty then normalized p
    else
      let a := innerContent (gcdIn count) p
      let b := innerContent (gcdIn count) q
      let p := normalized (divide p (raise 0 a))
      let q := normalized (divide q (raise 0 b))
      let (p, q) := if p.degree < q.degree then (q, p) else (p, q)
      let common := euclid (gcdIn count) (p.degree + q.degree + 2) p q
      normalized (mul (raise 0 (gcdIn count a b)) common)

/-- A quotient of polynomials in lowest terms: both have integer coefficients, without a common divisor, and
the leading one of the denominator is positive. -/
def cancel (count : Nat) (p q : Polynomial) : Polynomial × Polynomial :=
  if p.isEmpty then ([], one count)
  else
    let g := gcdIn count p q
    let p := divide p g
    let q := divide q g
    let c := p.content
    let d := q.content
    let r := c / d
    let p := scale ((r.num : Rat) / c) p
    let q := scale ((r.den : Rat) / d) q
    if q.leading < 0 then (neg p, neg q) else (p, q)

end Polynomial

namespace Term

/-- The place of a generator: letters at the end of the alphabet come first, and other names last. -/
def letterRank (name : String) : Nat :=
  match name.toList with
  | [c] =>
    if 'x' ≤ c ∧ c ≤ 'z' then 124 + (c.toNat - 'x'.toNat)
    else if 'p' ≤ c ∧ c ≤ 'w' then 216 + (c.toNat - 'p'.toNat)
    else if 'a' ≤ c ∧ c ≤ 'o' then 301 + (c.toNat - 'a'.toNat)
    else 1000
  | _ => 1000

def splitIndex (s : String) : String × Nat :=
  let digits := (s.toList.reverse.takeWhile Char.isDigit).reverse
  (String.ofList (s.toList.take (s.length - digits.length)),
    digits.foldl (fun n c => 10 * n + (c.toNat - '0'.toNat)) 0)

def compareGenerators (a b : Term) : Ordering :=
  let (m, i) := splitIndex a.text
  let (n, j) := splitIndex b.text
  (Ord.compare (letterRank m) (letterRank n)).then ((Ord.compare m n).then (Ord.compare i j))

/-- A generator with the exponent in which it stands; a power below the line is one of the reciprocal. -/
def generatorPower (t : Term) : Term × Nat :=
  match unitPower t with
  | (b, n) => if n < 0 then (power b minusOne, n.natAbs) else (b, n.natAbs)

def readFactors (t : Term) : List (Term × Nat) × Rat :=
  let (c, rest) := splitCoefficient t
  if rest == one then ([], c) else (rest.factorsOf.map generatorPower, c)

def generatorsOf (ts : List Term) : List Term :=
  let all := ts.flatMap fun t => t.termsOf.flatMap fun t => (readFactors t).1.map Prod.fst
  (all.foldl (fun found g => if found.contains g then found else found ++ [g]) []).mergeSort
    fun a b => compareGenerators a b != .gt

def toPolynomial (generators : List Term) (t : Term) : Polynomial :=
  t.termsOf.foldl (fun total t =>
    let (powers, c) := readFactors t
    let exponents := generators.map fun g => (powers.filter fun p => p.1 == g).foldl (fun n p => n + p.2) 0
    if c = 0 then total else total.add [(exponents, c)]) []

def ofPolynomial (generators : List Term) (p : Polynomial) : Term :=
  sum (p.map fun m => product (.num m.2 :: (generators.zip m.1).map fun x => power x.1 (.num x.2)))

/-- The greatest common divisor of terms as polynomials. With integers only it has their common content, else
its leading coefficient is one. -/
def polynomialGcd (a b : Term) : Term :=
  let a := expand a
  let b := expand b
  let generators := generatorsOf [a, b]
  let p := toPolynomial generators a
  let q := toPolynomial generators b
  let g := Polynomial.gcdIn generators.length p q
  let whole := (p ++ q).all fun m => m.2.den == 1
  let c : Rat := if whole then mkRat (Nat.gcd p.content.num.natAbs q.content.num.natAbs) 1 else 1 / g.leading
  ofPolynomial generators (g.scale c)

end Term

end Metrology.Algebra
