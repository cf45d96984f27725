import Metrology.Algebra.Cost
import Metrology.Algebra.Factoring

/-! # Simplification

`simplify` tries several forms of a term, brought over one denominator, reduced, multiplied out, with powers
joined or common factors taken out, and keeps the cheapest one.
-/
namespace Metrology.Algebra.Term

def multiplicity (p q : Rat) : Nat :=
  if q.den = 1 ∧ p.den = 1 then (divideOut p.num.natAbs q.num.natAbs (q.num.natAbs.log2 + 1)).1 else 0

def joinableBase (t : Term) : Term × Term :=
  let (b, e) := splitPower t
  if b.isPower then (power b e, one) else (b, e)

def addExponent (b e : Term) : List (Term × Term) → List (Term × Term)
  | [] => [(b, e)]
  | (c, f) :: rest => if c == b then (c, sum [f, e]) :: rest else (c, f) :: addExponent b e rest

def absorbCoefficient (c : Rat) (ps : List (Term × Term)) : Rat × List (Term × Term) :=
  ps.foldl (fun found p =>
    let (c, done) := found
    match p with
    | (.num b, e) =>
      let m := multiplicity (if b < 0 then -b else b) (if c < 0 then -c else c)
      if e.isNumber || c = 1 || b = 1 || b = -1 || m = 0 then (c, done ++ [p])
      else (c / b ^ m, done ++ [(.num b, sum [e, .num m])])
    | p => (c, done ++ [p])) (c, [])

def joinNegated (ps : List (Term × Term)) : List (Term × Term) :=
  ps.foldl (fun found p =>
    let (b, e) := p
    let opposite := negate b
    if (b.isVariable || b.isSum) && e.isInteger && (found.any fun p => p.1 == b) &&
        found.any fun p => p.1 == opposite then
      addExponent minusOne e (addExponent opposite e (found.filter fun p => !(p.1 == b)))
    else found) ps

def joinExponents (t : Term) : Term :=
  match t with
  | .mul ts =>
    let c := numbersAmong ts
    let powers := (ts.filter fun t => !t.isNumber).foldl
      (fun found t => addExponent (joinableBase t).1 (joinableBase t).2 found) []
    let (c, powers) := absorbCoefficient c powers
    let powers := if c = 1 then powers else addExponent (.num c) one powers
    product (((joinNegated powers).filter fun p => !(p.2 == zero)).map fun p => power p.1 p.2)
  | t => t

def spreadCount : Nat → Term → Nat
  | 0, _ => 1
  | fuel + 1, .add ts => (ts.map (spreadCount fuel)).foldl (fun n m => n + m) 0
  | fuel + 1, .mul ts => (ts.map (spreadCount fuel)).foldl (fun n m => n * m) 1
  | _, _ => 1

def moveCoefficient (b e : Term) : Term × Term :=
  let (n, d) := numerDenom b
  if !(n.isNonnegative && d.isNonnegative) || e.isInteger then (b, e)
  else
    let (c, rest) := splitCoefficient e
    if c = 1 ∨ rest == one then (b, e) else (power b (.num c), rest)

/-- The powers that bases with one exponent amount to; those with unknown signs stay apart. -/
def joinBasesWith (e : Term) (bases : List Term) : List Term :=
  match bases with
  | [b] => [power b e]
  | bases =>
    if e.isInteger then [power (product bases) e]
    else
      let negative := bases.filter isNegative
      let nonnegative := bases.filter fun b => !b.isNegative && b.isNonnegative
      let unknown := bases.filter fun b => !b.isNegative && !b.isNonnegative
      let (unknown, joined) :=
        if (unknown.length == 1 && negative.isEmpty) || (negative.length == 1 && unknown.isEmpty) then
          ([], nonnegative ++ unknown ++ negative)
        else if negative.isEmpty then (unknown, nonnegative)
        else if e.isNumber then (unknown ++ negative.map fun _ => minusOne, nonnegative ++ negative.map negate)
        else (unknown ++ negative, nonnegative)
      let base := product joined
      let spread := expandProducts base
      let base := if spread.termsOf.length < spreadCount (base.size + 1) base then factorTerms spread else base
      (unknown ++ [base]).map fun b => power b e

def joinBases (t : Term) : Term :=
  match t with
  | .mul ts =>
    let powers := ts.map fun t => moveCoefficient (splitPower t).1 (splitPower t).2
    let powers := powers.map fun (b, e) =>
      if e.isSum && (b.isPositive || e.isInteger) then
        let e := factorTerms e
        if hasNegativeCoefficient e then (power b minusOne, negate e) else (b, e)
      else (b, e)
    product ((group (powers.map fun p => (p.2, p.1))).flatMap fun p => joinBasesWith p.1 p.2)
  | t => t

/-- Joins powers in the products of a sum, or in a product; deep down if asked for, and with bases or
without. -/
def joinPowersWithin (deep bases : Bool) : Nat → Term → Term
  | 0, t => t
  | fuel + 1, t =>
    let inner := joinPowersWithin deep bases fuel
    let finish (t : Term) : Term := if bases then joinBases (joinExponents t) else joinExponents t
    match t with
    | .add ts => sum (ts.map inner)
    | .mul ts =>
      match product (ts.map inner) with
      | .mul us => finish (.mul us)
      | u => if deep then u else inner u
    | .pow b e => if deep then power (inner b) (inner e) else .pow b e
    | .call f ts => if deep then .call f (ts.map inner) else .call f ts
    | t => t

def joinPowers (t : Term) : Term := joinPowersWithin false true (2 * t.size + 4) t

def joinPowersDeep (t : Term) : Term := joinPowersWithin true false (2 * t.size + 4) t

/-- A term as one fraction. Rational denominators stay in front as coefficients. -/
def asFraction (t : Term) : Term :=
  let (n, d) := numerDenom t
  match d with
  | .num q => if q = 1 then n else keepCoefficient (1 / q) n
  | d => quotient n d

def fractionsWithin : Nat → Term → Term
  | 0, t => t
  | fuel + 1, t =>
    let inner := fractionsWithin fuel
    match t with
    | .add ts => asFraction (sum (ts.map inner))
    | .mul ts => asFraction (product (ts.map inner))
    | .pow b e => asFraction (power (inner b) (inner e))
    | .call f ts => .call f (ts.map inner)
    | t => t

def rationalize? (d : Term) : Option (Term × Term) :=
  match d with
  | .add [.num a, t] =>
    let (b, root) := splitCoefficient t
    match root with
    | .pow (.num r) (.num h) =>
      if h = 1 / 2 then some (sum [.num a, scale (-b) root], .num (a * a - b * b * r)) else none
    | .imaginary => some (sum [.num a, scale (-b) .imaginary], .num (a * a + b * b))
    | _ => none
  | _ => none

def unfoldHollow : Nat → Term → Term
  | 0, t => t
  | fuel + 1, t =>
    match t with
    | .mul [.num c, .add ts] => scale c (.add ts)
    | .mul ts =>
      let us := ts.map (unfoldHollow fuel)
      if sameAll us ts then t else product us
    | .add ts =>
      let us := ts.map (unfoldHollow fuel)
      if sameAll us ts then t else sum us
    | .pow b e =>
      let b' := unfoldHollow fuel b
      let e' := unfoldHollow fuel e
      if b' == b && e' == e then t else power b' e'
    | t => t

def reducedForm (t : Term) : Term :=
  let (content, p) := contentPrimitive (joinPowers (fractionsWithin (2 * t.size + 4) t))
  let t := product [.num content, p]
  let reduced := cancel t
  let reduced := cheapest reduced [cancel (multiplied reduced)]
  let joined := cheapest (together t) [together reduced]
  factorTermsUnsigned (cheapest joined [reduced, t])

def shortestForm (t : Term) : Term :=
  let short := cheapest (joinPowersDeep t) [joinPowers t, t]
  let short := cheapest short [cancel short]
  cheapest short [factorTerms short, expandExponents (expandProducts short)]

def settleFraction (t : Term) : Term :=
  let (n, d) := numerDenom t
  let t := match if d.isConstant then rationalize? d else none with
    | some (above, below) => quotient (expand (product [n, above])) below
    | none => t
  if t.prefersNegation then
    let (n, d) := fraction t
    if d == zero then t else settleSigns (quotient (negate n) (negate d))
  else t

def isMultiple : Term → Bool
  | .var _ => true
  | .mul [.num _, .var _] => true
  | _ => false

def isLinear : Term → Bool
  | .add [.num _, t] => t.isMultiple
  | t => t.isMultiple

/-- The simplest form of a term. One that is far longer than the term is not taken, and a linear term is as
simple as it can be. -/
def simplify (t : Term) : Term :=
  if t.isLinear then t
  else
    let start := settleSigns t
    match start with
    | .add _ => finish start
    | .mul _ => finish start
    | .pow _ _ => finish start
    | t => t
where
  finish (start : Term) : Term :=
    if start.hasPart fun u => u.isInfinite || u.isUndefined then start
    else
      let t := shortestForm (reducedForm start)
      let t := settleFraction (unfoldHollow (2 * t.size + 4) t)
      spread (if start.cost * 17 < t.cost * 10 then start else t)

end Metrology.Algebra.Term
