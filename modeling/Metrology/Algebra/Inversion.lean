import Metrology.Algebra.Bridge
import Metrology.Algebra.Equation
import Metrology.Formula.Basic

/-! # Inverse formulas

A formula for `y` in terms of `x` is inverted by reading it as a term, solving the equation for `x`, and
writing the solution as a formula again. There is an inverse only if the solution is the only one. If both
variables have the same name, the equation asks for the one number that the formula leaves as it is.
-/
namespace Metrology.Algebra

open Formula (Tree)

mutual

/-- Whether a formula computes an extremum or a remainder anywhere, which have no single inverse. -/
def isPiecewise : Tree → Bool
  | .number _ => false
  | .var _ => false
  | .binary op l r => op = .mod || isPiecewise l || isPiecewise r
  | .unary _ t => isPiecewise t
  | .call f args => f = .max || f = .min || anyPiecewise args

def anyPiecewise : List Tree → Bool
  | [] => false
  | t :: rest => isPiecewise t || anyPiecewise rest

end

/-- What finds the solutions for `x` of an equation `y = t`, given `x`, `y` and `t`. -/
abbrev Solver := Term → Term → Term → Equation.Answer

def invertWith (solve : Solver) (f : Formula) (source target : String) : Except Dilemma (Option Formula) :=
  if f.vars = [source] ∧ !isPiecewise f.tree then
    match Term.ofTree f.tree with
    | .error _ => .ok none
    | .ok t =>
      match solve (.var source) (.var target) t with
      | .ok (some [s]) => .ok (s.toTree.toOption.map Formula.ofTree)
      | .ok _ => .ok none
      | .error e => .error e
  else .ok none

/-- Whether a term is an infinite multiple of a power of a variable with an exponent above one, plus a
constant. Only zero leaves such a term undetermined. -/
def isInfinitePower (x : Term) (t : Term) : Bool :=
  match t.termsOf.filter (x.occursIn ·) with
  | [.mul [.infinite, .pow b (.num n)]] => b == x && n.den == 1 && 1 < n
  | _ => false

/-- Fractions with denominators above this power of two are approximations. -/
def exactPlaces : Nat := 200

def roundApproximation : Term → Term
  | .num q => .num (if q.den.log2 < exactPlaces then q else Term.roundPlaces Term.doublePlaces q)
  | t => t

def solutions : Solver := fun x y t =>
  if t.hasPart Term.isUndefined then .ok none
  else if t.hasPart Term.isInfinite then .ok (if isInfinitePower x t then some [.zero] else none)
  else
    match Equation.solve x (.add (y :: (Term.negate t).termsOf)) with
    | .ok (some found) => .ok (some (found.map roundApproximation))
    | answer => answer

def invert (f : Formula) (source target : String) : Except Dilemma (Option Formula) :=
  invertWith solutions f source target

end Metrology.Algebra
