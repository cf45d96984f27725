import Metrology.Algebra.Fact

/-! # The written order

Besides the order of operands there is an order in which terms are written: by their kinds, then by their
parts, then by their exponents and coefficients. The terms of a sum are written by falling powers. This order
also decides which one of a sum and its negative is preferred, where they have as many negative terms.
-/
namespace Metrology.Algebra

/-- What the written order compares: a number, or the kind, the parts, the exponent and the coefficient of a
term. An atom has its name instead of parts. -/
inductive SortKey where
  | number (q : Rat)
  | node (kind : Nat) (name : String) (atom : Option String) (parts : List SortKey) (exponent : SortKey)
      (coefficient : Rat)

def compareValues (p q : Rat) : Ordering := if p < q then .lt else if q < p then .gt else .eq

def compareLists : List Int → List Int → Ordering
  | a :: as, b :: bs => (Ord.compare a b).then (compareLists as bs)
  | _, _ => .eq

namespace SortKey

mutual

protected def compare : SortKey → SortKey → Ordering
  | .number p, .number q => compareValues p q
  | .number _, .node _ _ _ _ _ _ => .lt
  | .node _ _ _ _ _ _, .number _ => .gt
  | .node k n a ps e c, .node l m b qs f d =>
    (Ord.compare k l).then ((Ord.compare n m).then
      ((Ord.compare (ps.length + a.toList.length) (qs.length + b.toList.length)).then
        ((Ord.compare (a.getD "") (b.getD "")).then
          ((compareAll ps qs).then ((SortKey.compare e f).then (compareValues c d))))))

def compareAll : List SortKey → List SortKey → Ordering
  | p :: ps, q :: qs => (SortKey.compare p q).then (compareAll ps qs)
  | _, _ => .eq

end

end SortKey

namespace Term

def splitCoefficient : Term → Rat × Term
  | .num q => (q, one)
  | .mul (.num c :: rest) => (c, ofFactors rest)
  | t => (1, t)

def splitConstant : Term → Rat × Term
  | .num q => (q, zero)
  | .add (.num c :: rest) => (c, ofTerms rest)
  | t => (0, t)

/-- A term as a base and an exponent; the base of a reciprocal of an integer is turned around. -/
def splitPower : Term → Term × Term
  | .pow (.num q) e =>
    if q.num = 1 ∧ q.den ≠ 1 then (.num q.den, negated e) else (.num q, e)
  | .pow b e => (b, e)
  | t => (t, one)
where
  negated : Term → Term
    | .num q => .num (-q)
    | .mul (.num c :: rest) => if c = -1 then ofFactors rest else .mul (.num (-c) :: rest)
    | .mul ts => .mul (minusOne :: ts)
    | t => .mul [minusOne, t]

def negateProduct : Term → Term
  | .num q => .num (-q)
  | .infinite => .infinite
  | .undefined => .undefined
  | .mul (.infinite :: rest) => .mul (.infinite :: rest)
  | .mul (.num c :: rest) => if c = -1 then ofFactors rest else .mul (.num (-c) :: rest)
  | .mul ts => .mul (minusOne :: ts)
  | t => .mul [minusOne, t]

def negate : Term → Term
  | .add ts => .add (sort (ts.map negateProduct))
  | t => negateProduct t

/-- The largest unit fraction of an exponent and its multiple, both in a base. -/
def unitPower (t : Term) : Term × Int :=
  match t with
  | .pow _ _ =>
    match splitPower t with
    | (b, .num r) => (if r.den = 1 then b else .pow b (.num (1 / (r.den : Rat))), r.num)
    | (b, e) =>
      let (c, rest) := splitCoefficient e
      if c = 1 then (t, 1)
      else if c = -1 then (.pow b rest, -1)
      else if c.den = 1 then (.pow b rest, c.num)
      else (.pow b (.mul (.num (1 / (c.den : Rat)) :: factorsOf rest)), c.num)
  | t => (t, 1)

def kindIndex : Term → Nat
  | .num _ => 0
  | .imaginary => 1
  | .infinite => 1
  | .undefined => 1
  | .var _ => 1
  | .auxiliary _ _ => 1
  | .mul _ => 2
  | .add _ => 3
  | .pow _ _ => 4
  | .call .sin _ => 5
  | .call .cos _ => 6
  | .call .tan _ => 7
  | .call .sinh _ => 8
  | .call .cosh _ => 9
  | .call .tanh _ => 10
  | .call .abs _ => 11
  | .call .mod _ => 11
  | .call .max _ => 12
  | .call .min _ => 12

def kindName : Term → String
  | .imaginary => "ImaginaryUnit"
  | .infinite => "ComplexInfinity"
  | .undefined => "NaN"
  | .var _ => "Symbol"
  | .auxiliary _ _ => "Dummy"
  | .call f _ => f.name
  | _ => ""

def ratText (q : Rat) : String := if q.den = 1 then toString q.num else toString q.num ++ "/" ++ toString q.den

def atomText? : Term → Option String
  | .num q => some (ratText q)
  | .imaginary => some "I"
  | .infinite => some "zoo"
  | .undefined => some "nan"
  | .var name => some name
  | .auxiliary i _ => some ("_" ++ toString i)
  | _ => none

structure Monomial where
  powers : List (Term × Int)
  number : Complex

def Monomial.insert (m : Monomial) (t : Term) : Monomial :=
  match if t.isConstant then t.value? else none with
  | some x => { m with number := m.number.mul x }
  | none => { m with powers := m.powers ++ [unitPower t] }

def monomialOf (t : Term) : Monomial :=
  let (c, rest) := splitCoefficient t
  if rest == one then ⟨[], .ofRat c⟩ else (factorsOf rest).foldl Monomial.insert ⟨[], .ofRat c⟩

/-- Whether a sum is a positive number less a positive multiple; it is written as it stands. -/
def isDifference : List Term → Bool
  | [.num p, .mul [.num q, _]] => 0 < p && q < 0
  | _ => false

def compareComplex (a b : Complex) : Ordering :=
  (Ord.compare (a.im != 0) (b.im != 0)).then ((compareValues a.im b.im).then (compareValues a.re b.re))

mutual

def sortKeyWithin : Nat → Term → SortKey
  | 0, _ => .number 0
  | _ + 1, .num q => .number q
  | bound + 1, t =>
    let (c, rest) := splitCoefficient t
    let (body, exponent) := match rest with
      | .pow b e => (b, e)
      | t => (t, one)
    let parts := match body with
      | .add ts => orderedWithin bound ts
      | .mul ts => orderedFactorsWithin bound ts
      | .pow b e => [b, e]
      | .call _ ts => ts
      | _ => []
    .node body.kindIndex body.kindName body.atomText? (parts.map (sortKeyWithin bound)) (sortKeyWithin bound exponent) c

def orderedFactorsWithin : Nat → List Term → List Term
  | 0, ts => ts
  | bound + 1, ts =>
    ((ts.map fun t => (sortKeyWithin bound t, t)).mergeSort fun a b => a.1.compare b.1 != .gt).map Prod.snd

def orderedWithin : Nat → List Term → List Term
  | 0, ts => ts
  | bound + 1, ts =>
    if isDifference ts then ts
    else
      let monomials := ts.map monomialOf
      let generators := (monomials.flatMap fun m => m.powers.map Prod.fst).foldl
        (fun found g => if found.contains g then found else found ++ [g]) []
      let generators := ((generators.map fun g => (sortKeyWithin bound g, g)).mergeSort
        fun a b => a.1.compare b.1 != .gt).map Prod.snd
      let place (m : Monomial) : List Int :=
        generators.map fun g => ((m.powers.reverse.find? fun p => p.1 == g).map Prod.snd).getD 0
      let before (a b : Monomial × Term) : Bool :=
        (compareLists (place b.1) (place a.1)).then (compareComplex a.1.number b.1.number) != .gt
      ((monomials.zip ts).mergeSort before).map Prod.snd

end

def sortKey (t : Term) : SortKey := sortKeyWithin (2 * t.size + 8) t

def sortWritten (ts : List Term) : List Term :=
  ((ts.map fun t => (t.sortKey, t)).mergeSort fun a b => a.1.compare b.1 != .gt).map Prod.snd

def writtenTerms (t : Term) : List Term := orderedWithin (2 * t.size + 8) t.termsOf

/-- Whether a minus sign is at the front of a term, or its negative is preferred to it: a sum with more
negative terms than others is not preferred, and neither is the one of two sums that comes first. -/
def prefersNegation (t : Term) : Bool :=
  match t with
  | .num q => q < 0
  | .mul (.num c :: rest) => c < 0 && !(rest.head?.any fun t => t == .infinite)
  | .add ts =>
    let negative := (ts.filter leadsNegative).length
    if negative * 2 = ts.length then t.sortKey.compare (negate t).sortKey == .lt else ts.length < negative * 2
  | _ => false
where
  leadsNegative : Term → Bool
    | .num q => q < 0
    | .mul (.num c :: _) => c < 0
    | _ => false

end Term

end Metrology.Algebra
