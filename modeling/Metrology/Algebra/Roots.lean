import Metrology.Algebra.NumericRoots
import Metrology.Algebra.Substitution

/-! # Roots of polynomials in one generator

`rootsIn` lists the roots of a polynomial in its first generator, each once, with the other generators as
parameters. An equation that is linear in a parameter has the roots that both of its parts share besides those
of what is left.
-/
namespace Metrology.Algebra

namespace Polynomial

def derivative (p : Polynomial) : Polynomial :=
  p.filterMap fun m => match m.1 with
    | [] => none
    | 0 :: _ => none
    | (e + 1) :: rest => some (e :: rest, ((e + 1 : Nat) : Rat) * m.2)

def lowestDegree (p : Polynomial) : Nat := (p.map fun m => m.1.headD 0).foldl min p.degree

def lower (n : Nat) (p : Polynomial) : Polynomial := p.map fun m => match m.1 with
  | e :: rest => ((e - n) :: rest, m.2)
  | [] => m

/-- A polynomial without repeated roots and without a factor that lacks the first generator. -/
def squarefree (count : Nat) (p : Polynomial) : Polynomial :=
  let p := divide p (raise 0 (innerContent (gcdIn (count - 1)) p))
  normalized (divide p (gcdIn count p (derivative p)))

def parameters (p : Polynomial) : List Nat :=
  match p with
  | [] => []
  | m :: _ => (List.range m.1.length).filter fun i => i != 0 && p.any fun m => m.1.getD i 0 != 0

/-- The factor that a polynomial which is linear in one parameter has without it. -/
def fixedPart (count : Nat) (p : Polynomial) : Polynomial :=
  let linear := (parameters p).find? fun i => p.all fun m => m.1.getD i 0 ≤ 1
  match linear with
  | none => one count
  | some i =>
    let without := p.filter fun m => m.1.getD i 0 == 0
    let withIt := (p.filter fun m => m.1.getD i 0 == 1).map fun m => (m.1.set i 0, m.2)
    gcdIn count without withIt

def valueAt (x : Rat) (p : Polynomial) : Rat := p.foldl (fun total m => total + m.2 * x ^ (m.1.headD 0)) 0

def divisors (n : Nat) : List Nat := (List.range (min n 2000)).filterMap fun k =>
    if n % (k + 1) = 0 then some (k + 1) else none

/-- The rational roots of a polynomial with integer coefficients in one generator, which does not vanish at
zero. -/
def rationalRoots (p : Polynomial) : List Rat :=
  let first := p.leading.num.natAbs
  let last := ((p.getLast?.map fun m => m.2.num.natAbs)).getD 1
  let fractions : List Rat := (divisors last).flatMap fun (a : Nat) =>
    (divisors first).map fun (b : Nat) => (a : Rat) / b
  let candidates := fractions.flatMap fun x => [x, -x]
  (candidates.filter fun x => valueAt x p == 0).eraseDups

def degrees (p : Polynomial) : List Nat := (p.map fun m => m.1.headD 0).eraseDups

end Polynomial

namespace Term

def cubeRootsOfOne : List Term :=
  let turn (c : Rat) : Term := sum [.num (-1 / 2), product [.num (c / 2), power (.num 3) half, .imaginary]]
  [turn (-1), turn 1]

def factoredQuotient (n d : Term) : Term :=
  let (c, n) := n.primitive
  let (e, d) := d.primitive
  product [.num (c / e), quotient n d]

def rootsOfRest (parameters : List Term) (p : Polynomial) : Option (List Term) :=
  let part (n : Nat) : Term := ofPolynomial parameters (Polynomial.coefficient n p)
  match p.degree with
  | 0 => some []
  | 1 => some [factoredQuotient (negate (part 0)) (part 1)]
  | 2 =>
    let a := part 2
    let b := part 1
    let c := part 0
    let root := power (expand (difference (power b (.num 2)) (product [.num 4, a, c]))) half
    let ends := [sum [negate b, root], sum [negate b, negate root]]
    some (ends.map fun t => product [half, quotient t a])
  | 3 =>
    if p.degrees = [3, 0] then
      let first := power (cancel (quotient (negate (part 0)) (part 3))) (.num (1 / 3))
      some (first :: cubeRootsOfOne.map fun z => expandProducts (product [first, z]))
    else none
  | _ => none

def coefficientsDown (p : Polynomial) : List Rat :=
  ((List.range (p.degree + 1)).map fun n => ((Polynomial.coefficient n p).leading)).reverse

def imaginaryTrace : Rat := 1 / (Nat.pow 2 140 : Nat)

/-- The roots of a polynomial without parameters as numbers. A cubic with three real roots has no real
expression for them by roots; its roots are not taken as real. -/
def numericRoots (p : Polynomial) : List Term :=
  let found := approximateRoots (coefficientsDown p)
  let traced := p.degree = 3 ∧ found.all fun z => z.im == 0
  found.map fun z =>
    let im := if traced then imaginaryTrace else z.im
    if im = 0 then .num z.re else sum [.num z.re, product [.num im, .imaginary]]

/-- The roots of an expanded term in a generator, each once, unless there are too many of them to tell. -/
def rootsIn (g : Term) (t : Term) : Option (List Term) :=
  let generators := generatorsOf [t]
  let parameters := generators.filter fun h => !(h == g)
  let count := generators.length
  let p := Polynomial.squarefree count (toPolynomial (g :: parameters) t)
  let lowest := p.lowestDegree
  let p := p.lower lowest
  let fixed := p.fixedPart count
  let rest := Polynomial.divide p fixed
  let known := (if lowest = 0 then [] else [zero]) ++ fixed.rationalRoots.map Term.num
  let (known, rest) :=
    if (rest.parameters).isEmpty then
      let rational := rest.rationalRoots
      (known ++ rational.map Term.num, rational.foldl (fun p x =>
        Polynomial.divide p (Polynomial.normalized (Polynomial.add [(1 :: List.replicate (count - 1) 0, 1)]
          (Polynomial.scale (-x) (Polynomial.one count))))) rest)
    else (known, rest)
  if (rest.parameters).isEmpty && 3 ≤ rest.degree then some (known ++ numericRoots rest)
  else (rootsOfRest parameters rest).map fun roots => known ++ roots

end Term

end Metrology.Algebra
