import Metrology.Algebra.Polynomial

/-! # Common factors

`factorTerms` takes out of sums what their terms have in common, `together` brings them over a common
denominator and `cancel` reduces a quotient of polynomials. They go by the factors as they are written and
find no factors of polynomials.
-/
namespace Metrology.Algebra

/-- A term by its factors: a coefficient, and bases with exponents above and below the line. -/
structure Factored where
  coefficient : Rat
  above : List (Term × Nat)
  below : List (Term × Nat)

namespace Factored

def insert (b : Term) (n : Nat) : List (Term × Nat) → List (Term × Nat)
  | [] => [(b, n)]
  | (c, m) :: rest => if c == b then (c, m + n) :: rest else (c, m) :: insert b n rest

def insertFactor (f : Factored) (t : Term) : Factored :=
  let (b, n) := t.unitPower
  let (content, b) := if b.isSum then b.primitive else (1, b)
  let c := f.coefficient * (if n < 0 then 1 / content ^ n.natAbs else content ^ n.natAbs)
  if n < 0 then { f with coefficient := c, below := insert b n.natAbs f.below }
  else { f with coefficient := c, above := insert b n.natAbs f.above }

def ofTerm (t : Term) : Factored :=
  let (c, rest) := t.splitCoefficient
  if rest == .one then ⟨c, [], []⟩ else rest.factorsOf.foldl insertFactor ⟨c, [], []⟩

def exponentIn (fs : List (Term × Nat)) (b : Term) : Nat := ((fs.find? fun f => f.1 == b).map Prod.snd).getD 0

def common (fs gs : List (Term × Nat)) : List (Term × Nat) :=
  (fs.map fun f => (f.1, min f.2 (exponentIn gs f.1))).filter fun f => f.2 != 0

def joint (fs gs : List (Term × Nat)) : List (Term × Nat) :=
  (fs.map fun f => (f.1, max f.2 (exponentIn gs f.1))) ++ gs.filter fun g => exponentIn fs g.1 == 0

def without (fs gs : List (Term × Nat)) : List (Term × Nat) :=
  (fs.map fun f => (f.1, f.2 - exponentIn gs f.1)).filter fun f => f.2 != 0

def gcd (s t : Factored) : Factored :=
  ⟨mkRat (Nat.gcd s.coefficient.num.natAbs t.coefficient.num.natAbs) (Nat.lcm s.coefficient.den t.coefficient.den),
    common s.above t.above, common s.below t.below⟩

def factorsTerm (fs : List (Term × Nat)) : Term := Term.product (fs.map fun f => Term.power f.1 (.num f.2))

def quo (s t : Factored) : Factored :=
  let above := t.below.foldl (fun fs f => insert f.1 f.2 fs) s.above
  let below := t.above.foldl (fun fs f => insert f.1 f.2 fs) s.below
  ⟨s.coefficient / t.coefficient, without above below, without below above⟩

def toTerm (s : Factored) : Term :=
  Term.product [.num s.coefficient, Term.quotient (factorsTerm s.above) (factorsTerm s.below)]

end Factored

namespace Term

/-- What terms have in common, and the numerator and denominator of the sum of what is left of them. -/
structure CommonParts where
  content : Term
  numerator : Term
  denominator : Term

def commonParts (isPrimitive withDenominator : Bool) (ts : List Term) : CommonParts :=
  let raw : CommonParts :=
    match (ts.filter fun t => !(t == zero)).map Factored.ofTerm with
    | [] => ⟨zero, zero, one⟩
    | [t] => ⟨.num t.coefficient, Factored.factorsTerm t.above, Factored.factorsTerm t.below⟩
    | t :: rest =>
      let common := rest.foldl Factored.gcd t
      let left := (t :: rest).map fun s => s.quo common
      if withDenominator then
        let below := left.foldl (fun fs s => Factored.joint fs s.below) []
        let numerators := left.map fun s =>
          let extra := Factored.without below s.below
          product [.num s.coefficient,
            Factored.factorsTerm (extra.foldl (fun fs f => Factored.insert f.1 f.2 fs) s.above)]
        ⟨common.toTerm, sum numerators, Factored.factorsTerm below⟩
      else ⟨common.toTerm, sum (left.map Factored.toTerm), one⟩
  if !isPrimitive && raw.numerator.isSum then
    let (content, numerator) := raw.numerator.primitive
    ⟨product [raw.content, .num content], numerator, raw.denominator⟩
  else raw

def joinTerms (isPrimitive clear withDenominator : Bool) (ts : List Term) : Term :=
  let parts := commonParts isPrimitive withDenominator ts
  let (c, factors) := parts.content.splitCoefficient
  let (c, numerator) := if clear || c.den = 1 then (c, parts.numerator) else uncleared (c, parts.numerator)
  let t := quotient (product [factors, numerator]) parts.denominator
  if clear then keepCoefficient c t else keepUncleared c t

mutual

def gcdTermsWithin (clear withDenominator : Bool) : Nat → Term → Term
  | 0, t => t
  | fuel + 1, t =>
    match t with
    | .add ts => joinTerms false clear withDenominator ts
    | .mul ts =>
      let (c, rest) := splitCoefficient (.mul ts)
      let t := product (gcdTermsAll clear withDenominator fuel rest.factorsOf)
      if clear then keepCoefficient c t else keepUncleared c t
    | .pow b e => power (gcdTermsWithin clear withDenominator fuel b) (gcdTermsWithin clear withDenominator fuel e)
    | .call f ts => .call f (gcdTermsAll clear withDenominator fuel ts)
    | t => t

def gcdTermsAll (clear withDenominator : Bool) : Nat → List Term → List Term
  | 0, ts => ts
  | fuel + 1, ts => ts.map (gcdTermsWithin clear withDenominator fuel)

end

def gcdTerms (t : Term) : Term := gcdTermsWithin false false (2 * t.size + 4) t

def hasNegativeCoefficient (t : Term) : Bool := (splitCoefficient t).1 < 0

/-- Takes common factors out of all sums. A sum of negative terms is the negative of one of positive terms;
the minus sign stays in front if `keepSign` is set. -/
def factorTermsWithin (clear withDenominator keepSign : Bool) : Nat → Term → Term
  | 0, t => t
  | fuel + 1, t =>
    let inner := factorTermsWithin clear withDenominator keepSign fuel
    match t with
    | .pow b e =>
      let b' := inner b
      let e' := inner e
      if b' == b && e' == e then t else power b' e'
    | .call f ts => .call f (ts.map inner)
    | .mul _ => finish inner t
    | .add _ => finish inner t
    | t => t
where
  finish (inner : Term → Term) (t : Term) : Term :=
    let (content, p) := contentWithin clear (2 * t.size + 4) t
    let (content, p) := match p with
      | .add ts =>
        let ts := ts.map inner
        let (content, ts) := if ts.all hasNegativeCoefficient then (-content, ts.map negate) else (content, ts)
        (content, joinTerms true clear withDenominator ts)
      | .mul ts => (content, product (ts.map inner))
      | .pow b e => (content, power (inner b) (inner e))
      | .call f ts => (content, .call f (ts.map inner))
      | p => (content, p)
    match p with
    | .add ts =>
      if content = -1 then (if keepSign then .mul [minusOne, .add ts] else negate p)
      else if clear then keepCoefficient content p else keepUncleared content p
    | p => keepCoefficient content p

def factorTerms (t : Term) : Term := factorTermsWithin false false true (2 * t.size + 4) t

def factorTermsUnsigned (t : Term) : Term := factorTermsWithin false false false (2 * t.size + 4) t

def factorTermsCleared (t : Term) : Term := factorTermsWithin true false true (2 * t.size + 4) t

def togetherWithin : Nat → Term → Term
  | 0, t => t
  | fuel + 1, t =>
    match t with
    | .add ts => joinTerms false true true (ts.map (togetherWithin fuel))
    | .mul ts => product (ts.map (togetherWithin fuel))
    | .pow b e => power (togetherWithin fuel b) (togetherWithin fuel e)
    | .call f ts => .call f (ts.map (togetherWithin fuel))
    | t => t

def together (t : Term) : Term := togetherWithin (2 * t.size + 4) t

mutual

def spread : Term → Term
  | .pow b e => power (spread b) (spread e)
  | .mul ts => product (spreadAll ts)
  | .add ts => sum (spreadAll ts)
  | .call f ts => .call f (spreadAll ts)
  | t => t

def spreadAll : List Term → List Term
  | [] => []
  | t :: rest => spread t :: spreadAll rest

end

mutual

def turnSums : Term → Term
  | .pow b e => power (turnSums b) (turnSums e)
  | .mul ts => product (turnAll ts)
  | .add ts =>
    if prefersNegation (.add ts) then ofFactors [minusOne, sum ((turnAll ts).map negate)] else sum (turnAll ts)
  | .call f ts => .call f (turnAll ts)
  | t => t

def turnAll : List Term → List Term
  | [] => []
  | t :: rest => turnSums t :: turnAll rest

end

/-- Moves minus signs from sums to the products that they are factors of. -/
def settleSigns (t : Term) : Term :=
  match turnSums (spread t) with
  | .add ts => sum (ts.map fun t => spread (turnSums t))
  | t => spread t

def reduceFraction (p q : Term) : Term :=
  let generators := generatorsOf [p, q]
  let (n, d) := Polynomial.cancel generators.length (toPolynomial generators p) (toPolynomial generators q)
  quotient (ofPolynomial generators n) (ofPolynomial generators d)

def cancel (t : Term) : Term :=
  let t := settleSigns t
  if t.isNumber || t.hasPart (fun u => u.isInfinite || u.isUndefined) then t
  else
    let f := factorTerms t
    let (p, q) := numerDenom f
    let p := expand p
    let q := expand q
    if (generatorsOf [p, q]).isEmpty then expand f else reduceFraction p q

end Term

end Metrology.Algebra
