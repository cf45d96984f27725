import Metrology.Algebra.Ratio

/-! # The cost of a term

The cost of a term is the number of operations that its usual notation shows: signs, sums and differences,
products, quotients, powers and calls. Of two forms of a term the cheaper one is preferred, and the first one
if both cost the same.
-/
namespace Metrology.Algebra.Term

def numberCost (q : Rat) : Nat := (if q < 0 then 1 else 0) + (if q.den = 1 then 0 else 1)

def children : Term → List Term
  | .pow b e => [b, e]
  | .mul ts => ts
  | .add ts => ts
  | .call _ ts => ts
  | _ => []

def sumCost (ts : List Term) : Nat :=
  if ts.all prefersNegation then ts.length else ts.length - 1

def costWithin : Nat → Term → Nat
  | 0, _ => 0
  | fuel + 1, t =>
    let all (ts : List Term) : Nat := ts.foldl (fun n t => n + costWithin fuel t) 0
    let rest (t : Term) : Nat :=
      match t with
      | .pow b (.num (-1)) => 1 + costWithin fuel b
      | .mul ts => ts.length - 1 + all ts
      | .call .max ts => ts.length - 1 + all ts
      | .call .min ts => ts.length - 1 + all ts
      | .pow b e => 1 + all [b, e]
      | .call _ ts => 1 + all ts
      | t => all t.children
    match t with
    | .num q => numberCost q
    | .add ts => sumCost ts + all (ts.map fun t => if t.prefersNegation then negate t else t)
    | .mul _ =>
      let turned := t.prefersNegation
      let sign := if turned then 1 else 0
      let t := if turned then negateProduct t else t
      match fraction t with
      | (.num q, d) =>
        if q.den = 1 then sign + 1 + (if q < 0 then 1 else 0) + costWithin fuel d else sign + rest t
      | (n, d) =>
        if d == one then sign + rest t
        else
          let below := match d with
            | .num _ => 0
            | d => costWithin fuel d
          sign + 1 + below + costWithin fuel n
    | t => rest t

def cost (t : Term) : Nat := costWithin (2 * t.size + 8) t

def cheapest (t : Term) (others : List Term) : Term :=
  others.foldl (fun best u => if u.cost < best.cost then u else best) t

end Metrology.Algebra.Term
