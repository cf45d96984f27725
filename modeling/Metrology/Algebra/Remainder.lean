import Metrology.Algebra.Factoring

/-! # Remainders

`remainder` evaluates a division with remainder, whose result has the sign of the divisor. Multiples of the
divisor vanish, nested remainders by the same divisor are joined, and a common divisor of both sides comes out
in front.
-/
namespace Metrology.Algebra.Term

def remainders (t : Term) : Nat := (t.parts.filter isRemainder).length
where
  isRemainder : Term → Bool
    | .call .mod _ => true
    | _ => false

def truncated? (t : Term) : Option Int :=
  if t.isConstant then t.realValue?.map fun q => if q < 0 then -(-q).floor else q.floor else none

/-- A remainder that numbers decide: of constants, and of multiples of the divisor. -/
def decidedRemainder? (p q : Term) : Option Term :=
  if p.isUndefined || q.isUndefined || p.isInfinite || q.isInfinite then some .undefined
  else if p == zero || p == q || p == negate q || (q == one && p.isInteger) then some zero
  else
    match p, q with
    | .num a, .num b => some (.num (floorMod a b))
    | p, q =>
      let r := quotient p q
      if r.isInteger then some zero
      else
        (truncated? r).map fun d =>
          let left := difference p (scale d q)
          if (product [left, q]).isNegative then sum [left, q] else left

def nested? (p q : Term) : Option (Term × Term) :=
  match p with
  | .call .mod [a, b] => if (decidedRemainder? b q).any fun t => t == zero then some (a, q) else none
  | .mul [.num c, .call .mod [a, b]] =>
    if c = -1 ∧ (decidedRemainder? b q).any fun t => t == zero then some (negate a, q) else none
  | .add ts =>
    let inner := ts.filterMap fun t => match t with
      | .call .mod [a, b] => some (a, b)
      | _ => none
    if !inner.isEmpty && inner.all fun i => i.2 == q then
      some (sum [sum (ts.filter fun t => !remainders.isRemainder t), sum (inner.map Prod.fst)], q)
    else none
  | _ => none

/-- Whether a remainder has no effect because its argument is one by a smaller divisor. -/
def isReduced (p q : Term) : Bool :=
  match p with
  | .call .mod [_, b] => (product [b, difference q b]).isNonnegative
  | .mul [.num c, .call .mod [_, b]] => c = -1 && (product [b, sum [q, b]]).isNonpositive
  | _ => false

def remainderWithin : Nat → Term → Term → Term
  | 0, p, q => .call .mod [p, q]
  | fuel + 1, p, q =>
    match decidedRemainder? p q with
    | some t => t
    | none =>
      match nested? p q with
      | some (a, b) => remainderWithin fuel a b
      | none =>
        if isReduced p q then p
        else
          let g := polynomialGcd p q
          let unit := g == one
          let p := if unit then p else gcdTerms (quotient p g)
          let q := if unit then q else gcdTerms (quotient q g)
          let reduced := match p with
            | .add ts =>
              let us := ts.map fun t =>
                let r := remainderWithin fuel t q
                if remainders t < remainders r then t else r
              if sameAll us ts then p else sum us
            | p => p
          let turn := reduced.prefersNegation && q.prefersNegation
          let g := if turn then negate g else g
          let a := if turn then negate reduced else reduced
          let b := if turn then negate q else q
          match decidedRemainder? a b with
          | some t => product [t, g]
          | none => product [g, if a == p && b == q then .call .mod [a, b] else remainderWithin fuel a b]

def remainder? (p q : Term) : Option Term := if q == zero then none else some (remainderWithin 12 p q)

end Metrology.Algebra.Term
