import Metrology.Algebra.Normal

/-! # Numerators and denominators

`fraction` reads the factors of a term as those above and below the line. `numerDenom` makes one fraction of a
term: the terms of a sum are brought to a common denominator, which is the product of the different
denominators. Before that the rational content of a sum is taken out with `primitive`.
-/
namespace Metrology.Algebra.Term

/-- A term multiplied by a number; a sum is not multiplied out. -/
def keepCoefficient (c : Rat) (t : Term) : Term :=
  if t == one then .num c
  else if c = 1 then t
  else if c = -1 then negate t
  else
    match t with
    | .add ts => .mul [.num c, .add ts]
    | .mul (.num d :: rest) => if c * d = 1 then ofFactors rest else .mul (.num (c * d) :: rest)
    | .mul ts => .mul (.num c :: ts)
    | t => product [.num c, t]

def sortTerms (ts : List Term) : List Term := (ts.filter isNumber) ++ sort (ts.filter fun t => !t.isNumber)

/-- The rational content of a sum and what it multiplies: a sum of multiples by integers without a common
divisor. -/
def primitive (t : Term) : Rat × Term :=
  match t with
  | .add ts =>
    let parts := ts.map splitCoefficient
    let g : Nat := parts.foldl (fun g p => Nat.gcd g p.1.num.natAbs) 0
    let l : Nat := parts.foldl (fun l p => Nat.lcm l p.1.den) 1
    if g = 1 ∧ l = 1 then (1, t)
    else if g = 0 ∨ ts.any isInfinite then (1, t)
    else
      let content : Rat := mkRat g l
      (content, .add (sortTerms (parts.map fun p => keepCoefficient (p.1 / content) p.2)))
  | t => (1, t)

/-- A number times a sum that need not be cleared of denominators: a coefficient that is no integer is
distributed if that makes a coefficient of the sum an integer. -/
def keepUncleared (c : Rat) (t : Term) : Term :=
  match t with
  | .add ts =>
    if c.den ≠ 1 ∧ ts.any fun t => (c * (splitCoefficient t).1).den = 1 then
      .add (ts.map fun t => keepCoefficient (c * (splitCoefficient t).1) (splitCoefficient t).2)
    else keepCoefficient c t
  | t => keepCoefficient c t

/-- Puts the denominator of a content back into the sum if that leaves one of its coefficients an integer. -/
def uncleared (p : Rat × Term) : Rat × Term :=
  let (content, t) := p
  match t with
  | .add ts =>
    if content.den ≠ 1 ∧ ts.any fun t => ((splitCoefficient t).1 / content.den).den = 1 then
      (content.num, product [.num (1 / (content.den : Rat)), t])
    else p
  | _ => p

/-- The rational content of a term with what it multiplies. Numbers are positive contents, with their signs
left over. Sums are cleared of denominators on request only. -/
def contentWithin (clear : Bool) : Nat → Term → Rat × Term
  | 0, t => (1, t)
  | fuel + 1, t =>
    let kept (t : Term) : Term := keepCoefficient (contentWithin clear fuel t).1 (contentWithin clear fuel t).2
    match t with
    | .num q => if q = 0 then (1, zero) else if 0 < q then (q, one) else (-q, minusOne)
    | .mul ts =>
      let parts := ts.map (contentWithin clear fuel)
      (parts.foldl (fun (c : Rat) p => c * p.1) 1, product ((parts.map Prod.snd).filter fun t => !(t == one)))
    | .add ts =>
      let found := primitive (sum (ts.map kept))
      if clear then found else uncleared found
    | .pow b e =>
      let (b, e) := splitPower (.pow b e)
      let b := kept b
      match b, e with
      | .num q, e =>
        let (ce, pe) := contentWithin clear fuel e
        let (h, t) := splitConstant pe
        if q = 0 then (1, .pow b e)
        else
          match power b (.num (ce * h)) with
          | .num c => (c, power b (keepCoefficient ce t))
          | _ =>
            let whole := (ce * h).floor
            match power b (.num whole) with
            | .num c => (c, power b (keepCoefficient ce (sum [t, .num ((ce * h - whole) / ce)])))
            | _ => (1, .pow b e)
      | .mul ts, .num r =>
        let (h, t) := contentWithin clear fuel (.mul ts)
        match power (.num h) (.num r) with
        | .num c => (c, power t (.num r))
        | _ => (1, power b e)
      | b, e => (1, power b (kept e))
    | t => (1, t)

def contentPrimitive (t : Term) : Rat × Term := contentWithin true (2 * t.size + 4) t

def isNegativeExponent (e : Term) : Bool :=
  if e.isNegative then true
  else
    match e with
    | .mul _ => !e.isPositive && e.prefersNegation
    | _ => false

def addToGroup (d n : Term) : List (Term × List Term) → List (Term × List Term)
  | [] => [(d, [n])]
  | (e, ns) :: rest => if e == d then (e, ns ++ [n]) :: rest else (e, ns) :: addToGroup d n rest

/-- The product of all values but one, which has its own. -/
def crossProducts (before : List Term) : List (Term × Term) → List Term
  | [] => []
  | (d, n) :: rest => product (before ++ n :: rest.map Prod.fst) :: crossProducts (before ++ [d]) rest

def numerDenomWithin : Nat → Term → Term × Term
  | 0, t => (t, one)
  | fuel + 1, t =>
    match t with
    | .num q => (.num q.num, .num q.den)
    | .mul ts =>
      let parts := ts.map (numerDenomWithin fuel)
      (product (parts.map Prod.fst), product (parts.map Prod.snd))
    | .pow _ _ =>
      let (b, e) := splitPower t
      let (n, d) := numerDenomWithin fuel b
      let whole := e.isInteger
      let (n, d) :=
        if d.isReal && d.isNonpositive then (negate n, negate d)
        else if whole then (n, d)
        else if d.isPositive then (n, d)
        else (b, one)
      if isNegativeExponent e then (power d (negate e), power n (negate e)) else (power n e, power d e)
    | .add _ =>
      let (content, rest) := primitive t
      match rest with
      | .add ts =>
        let parts := ts.map (numerDenomWithin fuel)
        let groups := parts.foldl (fun found p => addToGroup p.2 p.1 found) []
        match groups with
        | [(d, ns)] =>
          (sum (ns.map (keepCoefficient content.num)), keepCoefficient (content.den : Rat) d)
        | groups =>
          let groups := groups.map fun p => (p.1, match p.2 with | [n] => n | ns => sum ns)
          (keepCoefficient content.num (sum (crossProducts [] groups)),
            keepCoefficient (content.den : Rat) (product (groups.map Prod.fst)))
      | rest => numerDenomWithin fuel (.mul [.num content, rest])
    | t => (t, one)

def numerDenom (t : Term) : Term × Term := numerDenomWithin (2 * t.size + 4) t

def fractionFactors : List Term → List Term × List Term
  | [] => ([], [])
  | t :: rest =>
    let (above, below) := fractionFactors rest
    match t with
    | .pow _ _ =>
      let (b, e) := splitPower t
      if e.isNegative then (above, power b (negate e) :: below)
      else if e.isPositive then (t :: above, below)
      else
        match e with
        | .mul _ =>
          let (n, d) := numerDenom t
          (if n == one then above else n :: above, d :: below)
        | _ => (t :: above, below)
    | .num q => if q.den = 1 then (t :: above, below)
      else (if q.num = 1 then above else .num q.num :: above, .num q.den :: below)
    | t => (t :: above, below)

def fraction (t : Term) : Term × Term :=
  let (above, below) := fractionFactors t.factorsOf
  (product above, product below)

end Metrology.Algebra.Term
