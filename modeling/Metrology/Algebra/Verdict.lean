import Metrology.Algebra.Substitution

/-! # Whether a value is a solution

`verdict?` says whether a term vanishes if a value is put in for a variable, if that can be told. What stays
undecided is looked at once more as if all variables were positive. A value that is found wrong so is no
solution, even if it is right for other values of the variables.
-/
namespace Metrology.Algebra.Term

def tolerance : Rat := 1 / 1000000000

def isIllegal (t : Term) : Bool := t.hasPart fun u => u.isInfinite || u.isUndefined

def vanishes? (t : Term) : Option Bool :=
  match t with
  | .num q => some (q == 0)
  | t => if t.isConstant then t.value?.map fun z => z.square < tolerance * tolerance else none

def hasIrrationalPart (t : Term) : Bool :=
  t.hasPart fun u => match u with
    | .pow _ (.num e) => e.den != 1
    | .pow _ _ => true
    | .call _ _ => true
    | _ => false

def numeratorExpanded (t : Term) : Term := multipliedFully (numerDenom (contentPrimitive t).2).1

/-- Whether a term vanishes for a value of a variable, by putting it in and multiplying out. -/
def quickVerdict? (x f s : Term) : Option Bool :=
  if f.isConstant then vanishes? f
  else if !x.occursIn f then none
  else if s.isIllegal then some false
  else
    let v := substitute x s f
    if v.isIllegal then some false
    else
      match vanishes? v with
      | some b => some b
      | none => vanishes? (numeratorExpanded v)

/-- Whether a term vanishes for a value of a variable, also by supposing that the other variables are
positive. -/
def verdict? (x f s : Term) : Option Bool :=
  match quickVerdict? x f s with
  | some b => some b
  | none =>
    if f.isConstant || !x.occursIn f then none
    else
      let v := assumePositive (simplify (substitute x s (multipliedFully f)))
      match vanishes? v with
      | some b => some b
      | none =>
        match vanishes? (multipliedFully v) with
        | some b => some b
        | none => if (expandProducts v).hasIrrationalPart then none else some false

end Metrology.Algebra.Term
