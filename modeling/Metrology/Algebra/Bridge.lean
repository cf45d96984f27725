import Metrology.Algebra.Circular
import Metrology.Algebra.Extremum
import Metrology.Algebra.Literal
import Metrology.Algebra.Remainder

/-! # Between formulas and terms

`Term.ofTree` reads a formula as an evaluated term and `Term.toTree` writes a term as a formula. Constants are
written as single numbers, so they have to be real.
-/
namespace Metrology.Algebra

open Formula (Tree)

inductive Obstacle where
  | nonFiniteLiteral (x : Float)
  | nonRealConstant (t : Term)
  /-- A call that formulas do not have. -/
  | unknownCall (t : Term)
  /-- A remainder by zero. -/
  | zeroModulus
  /-- An extremum of a constant that is not real. -/
  | notComparable (t : Term)
  /-- An operator or a call without meaning among terms. -/
  | inexpressible

def Obstacle.message : Obstacle → String
  | .nonFiniteLiteral x => "non-finite literal " ++ Decimal.plain x
  | .nonRealConstant t => "non-real constant " ++ t.text
  | .unknownCall t => "no AST form for " ++ t.text
  | .zeroModulus => "modulo by zero"
  | .notComparable t => "The argument '" ++ t.text ++ "' is not comparable."
  | .inexpressible => "cannot translate"

def Callee.ofFunction : Formula.Function → Callee
  | .sin => .sin
  | .cos => .cos
  | .tan => .tan
  | .max => .max
  | .min => .min

def Callee.toFunction? : Callee → Option Formula.Function
  | .sin => some .sin
  | .cos => some .cos
  | .tan => some .tan
  | .max => some .max
  | .min => some .min
  | _ => none

namespace Term

/-- Constants that are not rational are rounded to this many binary places first. -/
def doublePlaces : Nat := 57

/-- The nearest number with a few significant binary places, an even one if two are as near. -/
def roundPlaces (places : Nat) (q : Rat) : Rat :=
  let size := if q < 0 then -q else q
  if size = 0 then 0
  else
    let shift : Int := (places : Int) - ((size.num.natAbs.log2 : Int) - (size.den.log2 : Int)) - 1
    let unit (shift : Int) : Rat :=
      if 0 ≤ shift then 1 / (Nat.pow 2 shift.toNat : Nat) else (Nat.pow 2 (-shift).toNat : Nat)
    let shift := if size < unit shift * (Nat.pow 2 (places - 1) : Nat) then shift + 1 else shift
    let scaled := size / unit shift
    let whole := scaled.floor
    let rest := scaled - whole
    let rounded : Int := if 1 / 2 < rest ∨ (rest = 1 / 2 ∧ whole % 2 = 1) then whole + 1 else whole
    (if q < 0 then -1 else 1) * ((rounded : Int) : Rat) * unit shift

/-- The double that a term without variables stands for, unless it is not real. -/
def double? (t : Term) : Option Float :=
  match t with
  | .undefined => some Decimal.nan
  | .num q => some (Decimal.ofRat q)
  | t => t.realValue?.map fun q => Decimal.ofRat (roundPlaces doublePlaces q)

def isIncomparable (t : Term) : Bool := t.isConstant && t.realValue?.isNone

def ofCall (f : Formula.Function) (ts : List Term) : Except Obstacle Term :=
  let callee := Callee.ofFunction f
  if callee.isCircular then
    match ts with
    | [t] => .ok (circular callee t)
    | _ => .error .inexpressible
  else
    match ts.find? isIncomparable with
    | some t => .error (.notComparable t)
    | none => .ok (extremum callee ts)

def ofBinary (op : Formula.Operator) (a b : Term) : Except Obstacle Term :=
  match op with
  | .add => .ok (sum [a, b])
  | .sub => .ok (difference a b)
  | .mul => .ok (product [a, b])
  | .div => .ok (quotient a b)
  | .pow => .ok (power a b)
  | .mod =>
    match remainder? a b with
    | some t => .ok t
    | none => .error .zeroModulus
  | _ => .error .inexpressible

mutual

def ofTree : Tree → Except Obstacle Term
  | .number v =>
    match literalValue? v with
    | some q => .ok (.num q)
    | none => .error (.nonFiniteLiteral v)
  | .var name => .ok (.var name)
  | .unary _ t =>
    match ofTree t with
    | .ok t => .ok (negate t)
    | .error e => .error e
  | .binary op l r =>
    match ofTree l with
    | .error e => .error e
    | .ok a =>
      match ofTree r with
      | .error e => .error e
      | .ok b => ofBinary op a b
  | .call f args =>
    match ofTrees args with
    | .error e => .error e
    | .ok ts => ofCall f ts

def ofTrees : List Tree → Except Obstacle (List Term)
  | [] => .ok []
  | t :: rest =>
    match ofTree t with
    | .error e => .error e
    | .ok t =>
      match ofTrees rest with
      | .error e => .error e
      | .ok ts => .ok (t :: ts)

end

def constantTree (t : Term) : Except Obstacle Tree :=
  match t.double? with
  | some x => .ok (.number x)
  | none => .error (.nonRealConstant t)

def joined (op : Formula.Operator) : List Tree → Tree
  | [] => .number 0.0
  | t :: rest => rest.foldl (fun l r => .binary op l r) t

def callTree (f : Callee) (ts : List Term) : Except Obstacle (List Tree) → Except Obstacle Tree
  | .error o => .error o
  | .ok trees =>
    match f, trees with
    | .mod, [l, r] => .ok (.binary .mod l r)
    | f, trees =>
      match f.toFunction? with
      | some g => .ok (.call g trees)
      | none => .error (.unknownCall (.call f ts))

mutual

def toTree (t : Term) : Except Obstacle Tree :=
  if t.isConstant then constantTree t
  else
    match t with
    | .var name => .ok (.var name)
    | .pow b e =>
      match toTree b with
      | .error o => .error o
      | .ok l =>
        match e with
        | .num (-1) => .ok (.binary .div (.number 1.0) l)
        | e =>
          match toTree e with
          | .error o => .error o
          | .ok r => .ok (.binary .pow l r)
    | .mul ts =>
      match toTrees ts with
      | .error o => .error o
      | .ok trees => .ok (joined .mul trees)
    | .add ts =>
      match toTrees ts with
      | .error o => .error o
      | .ok trees => .ok (joined .add trees)
    | .call f ts =>
      if f.toFunction?.isNone && f != .mod then .error (.unknownCall (.call f ts))
      else callTree f ts (toTrees ts)
    | t => constantTree t

def toTrees : List Term → Except Obstacle (List Tree)
  | [] => .ok []
  | t :: rest =>
    match toTree t with
    | .error o => .error o
    | .ok tree =>
      match toTrees rest with
      | .error o => .error o
      | .ok trees => .ok (tree :: trees)

end

end Term

def normalize (t : Tree) : Except Obstacle Tree :=
  match Term.ofTree t with
  | .error o => .error o
  | .ok t => t.toTree

end Metrology.Algebra
