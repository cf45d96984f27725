import Metrology.Algebra.Simplification

/-! # Substitution and derivatives

`substitute` puts a term in the place of a variable, `derivative` is the derivative by a variable, and
`denominators` are the terms below the line that a value of a variable must not make zero.
-/
namespace Metrology.Algebra.Term

mutual

def substitute (x s : Term) : Term → Term
  | .pow b e => if Term.pow b e == x then s else power (substitute x s b) (substitute x s e)
  | .mul ts => if Term.mul ts == x then s else product (substituteAll x s ts)
  | .add ts => if Term.add ts == x then s else sum (substituteAll x s ts)
  | .call f ts => .call f (substituteAll x s ts)
  | t => if t == x then s else t

def substituteAll (x s : Term) : List Term → List Term
  | [] => []
  | t :: rest => substitute x s t :: substituteAll x s rest

end

mutual

/-- The derivative by a variable. Of functions and powers with the variable in the exponent it only says that
they vary. -/
def derivative (x : Term) : Term → Term
  | .pow b e =>
    if occursIn x e then .pow b e
    else if occursIn x b then product [.pow b e, product [derivative x b, e, power b minusOne]]
    else zero
  | .mul ts => sum (derivativeFactors x [] ts)
  | .add ts => sum (derivativeTerms x ts)
  | .call f ts => if occursIn x (.call f ts) then .call f ts else zero
  | t => if t == x then one else zero

def derivativeFactors (x : Term) (before : List Term) : List Term → List Term
  | [] => []
  | t :: rest => product (before ++ derivative x t :: rest) :: derivativeFactors x (before ++ [t]) rest

def derivativeTerms (x : Term) : List Term → List Term
  | [] => []
  | t :: rest => derivative x t :: derivativeTerms x rest

end

/-- The terms with a variable that are below the line anywhere; of powers, their bases. -/
def denominators (x t : Term) : List Term :=
  let below := t.parts.flatMap fun t => (fraction t).2.factorsOf
  (below.filter (occursIn x)).map fun t => match t with
    | .pow b (.num _) => b
    | t => t

def unsettledVariables (t : Term) : List Term :=
  t.unknowns.filter fun v => match v with
    | .auxiliary _ positive => !positive
    | _ => true

/-- Auxiliary variables from this one on stand for the variables of a term as positive numbers. -/
def positiveIndex : Nat := 1000

def assumePositive (t : Term) : Term :=
  ((unsettledVariables t).zip (List.range t.size)).foldl
    (fun t v => substitute v.1 (.auxiliary (positiveIndex + v.2) true) t) t

end Metrology.Algebra.Term
