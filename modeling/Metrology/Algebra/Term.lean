import Metrology.Formula.Operator

/-! # Terms

The algebraic form of formulas. Numbers are exact, division by zero gives `infinite`, and what has no value at
all is `undefined`. The operands of products and sums are sorted by `Term.compare`, a number first: numbers
come before variables, then powers, products, sums and calls. A term need not be evaluated; the functions that
build terms decide how far they evaluate them.
-/
namespace Metrology.Algebra

/-- What a term can call. Besides the functions of formulas these are the ones that imaginary angles and even
roots lead to. -/
inductive Callee where
  | sin
  | cos
  | tan
  | sinh
  | cosh
  | tanh
  | abs
  | max
  | min
  | mod
  deriving DecidableEq

inductive Term where
  | num (q : Rat)
  /-- The square root of minus one. -/
  | imaginary
  | infinite
  | undefined
  | var (name : String)
  /-- A variable that no formula has; it may stand for positive numbers only. -/
  | auxiliary (index : Nat) (positive : Bool)
  | pow (base exponent : Term)
  | mul (factors : List Term)
  | add (terms : List Term)
  | call (f : Callee) (args : List Term)

def Callee.name : Callee → String
  | .sin => "sin"
  | .cos => "cos"
  | .tan => "tan"
  | .sinh => "sinh"
  | .cosh => "cosh"
  | .tanh => "tanh"
  | .abs => "Abs"
  | .max => "Max"
  | .min => "Min"
  | .mod => "Mod"

def Callee.isCircular : Callee → Bool
  | .sin => true
  | .cos => true
  | .tan => true
  | _ => false

namespace Term

def zero : Term := .num 0

def one : Term := .num 1

def minusOne : Term := .num (-1)

def half : Term := .num (1 / 2)

/-- Numbers with a place of their own in the order come before the other integers and fractions. -/
def numberRank (q : Rat) : Nat :=
  if q = 0 then 0
  else if q = 1 then 1
  else if q = 1 / 2 then 2
  else if q = -1 then 3
  else if q.den = 1 then 4
  else 5

def rank : Term → Nat
  | .num q => numberRank q
  | .undefined => 2
  | .imaginary => 6
  | .var _ => 7
  | .pow _ _ => 8
  | .mul _ => 9
  | .add _ => 10
  | .call .abs _ => 11
  | .infinite => 12
  | .auxiliary _ _ => 13
  | .call .max _ => 14
  | .call .min _ => 15
  | .call .mod _ => 16
  | .call .cos _ => 17
  | .call .cosh _ => 18
  | .call .sin _ => 19
  | .call .sinh _ => 20
  | .call .tan _ => 21
  | .call .tanh _ => 22

def compareNumbers (p q : Rat) : Ordering :=
  (Ord.compare (numberRank p) (numberRank q)).then ((Ord.compare p.num q.num).then (Ord.compare p.den q.den))

mutual

protected def compare : Term → Term → Ordering
  | .num p, .num q => compareNumbers p q
  | .var a, .var b => Ord.compare a b
  | .auxiliary i _, .auxiliary j _ => Ord.compare i j
  | .pow b e, .pow c f => (Term.compare b c).then (Term.compare e f)
  | .mul ss, .mul ts => (Ord.compare ss.length ts.length).then (compareAll ss ts)
  | .add ss, .add ts => (Ord.compare ss.length ts.length).then (compareAll ss ts)
  | .call f ss, .call g ts =>
    (Ord.compare (Term.call f ss).rank (Term.call g ts).rank).then
      ((Ord.compare ss.length ts.length).then (compareAll ss ts))
  | s, t => Ord.compare s.rank t.rank

def compareAll : List Term → List Term → Ordering
  | s :: ss, t :: ts => (Term.compare s t).then (compareAll ss ts)
  | _, _ => .eq

end

mutual

def same : Term → Term → Bool
  | .num p, .num q => p == q
  | .imaginary, .imaginary => true
  | .infinite, .infinite => true
  | .undefined, .undefined => true
  | .var a, .var b => a == b
  | .auxiliary i p, .auxiliary j q => i == j && p == q
  | .pow b e, .pow c f => same b c && same e f
  | .mul ss, .mul ts => sameAll ss ts
  | .add ss, .add ts => sameAll ss ts
  | .call f ss, .call g ts => f == g && sameAll ss ts
  | _, _ => false

def sameAll : List Term → List Term → Bool
  | [], [] => true
  | s :: ss, t :: ts => same s t && sameAll ss ts
  | _, _ => false

end

instance : BEq Term := ⟨same⟩

instance : Inhabited Term := ⟨zero⟩

def sort (ts : List Term) : List Term := ts.mergeSort fun s t => s.compare t != .gt

def isNumber : Term → Bool
  | .num _ => true
  | _ => false

def isSum : Term → Bool
  | .add _ => true
  | _ => false

def isProduct : Term → Bool
  | .mul _ => true
  | _ => false

def isPower : Term → Bool
  | .pow _ _ => true
  | _ => false

def termsOf : Term → List Term
  | .add ts => ts
  | t => [t]

def factorsOf : Term → List Term
  | .mul ts => ts
  | t => [t]

def ofFactors : List Term → Term
  | [] => one
  | [t] => t
  | ts => .mul ts

def ofTerms : List Term → Term
  | [] => zero
  | [t] => t
  | ts => .add ts

mutual

def hasPart (p : Term → Bool) : Term → Bool
  | .pow b e => p (.pow b e) || hasPart p b || hasPart p e
  | .mul ts => p (.mul ts) || anyHasPart p ts
  | .add ts => p (.add ts) || anyHasPart p ts
  | .call f ts => p (.call f ts) || anyHasPart p ts
  | t => p t

def anyHasPart (p : Term → Bool) : List Term → Bool
  | [] => false
  | t :: rest => hasPart p t || anyHasPart p rest

end

mutual

def parts : Term → List Term
  | .pow b e => .pow b e :: (parts b ++ parts e)
  | .mul ts => .mul ts :: partsOfAll ts
  | .add ts => .add ts :: partsOfAll ts
  | .call f ts => .call f ts :: partsOfAll ts
  | t => [t]

def partsOfAll : List Term → List Term
  | [] => []
  | t :: rest => parts t ++ partsOfAll rest

end

def isVariable : Term → Bool
  | .var _ => true
  | .auxiliary _ _ => true
  | _ => false

def isConstant (t : Term) : Bool := !t.hasPart isVariable

def occursIn (s t : Term) : Bool := t.hasPart fun u => u == s

def unknowns (t : Term) : List Term :=
  (t.parts.filter isVariable).foldl (fun found v => if found.contains v then found else found ++ [v]) []

mutual

/-- The number of steps that a recursion through a term can need. -/
def size : Term → Nat
  | .pow b e => size b + size e + 1
  | .mul ts => sizeAll ts + 1
  | .add ts => sizeAll ts + 1
  | .call _ ts => sizeAll ts + 1
  | _ => 1

def sizeAll : List Term → Nat
  | [] => 0
  | t :: rest => size t + sizeAll rest + 1

end

end Term

end Metrology.Algebra
