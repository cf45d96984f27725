import Metrology.Algebra.Approximation
import Metrology.Algebra.Term

/-! # Facts about terms

What can be told about the value of a term from how it is written: the number that a constant is close to, the
signs that a real term may have, and whether it is an integer. Nothing is known about the variables of
formulas, which stand for any complex number; so only few terms with variables are known to be real.
-/
namespace Metrology.Algebra

def negligible : Rat := 1 / (Nat.pow 2 200 : Nat)

/-- The remainder with the sign of the divisor. -/
def floorMod (a b : Rat) : Rat := a - b * ((a / b).floor : Int)

def Callee.real? (f : Callee) (xs : List Rat) : Option Rat :=
  match f, xs with
  | .max, x :: rest => some (rest.foldl (fun a b => if a < b then b else a) x)
  | .min, x :: rest => some (rest.foldl (fun a b => if b < a then b else a) x)
  | .mod, [a, b] => if b = 0 then none else some (floorMod a b)
  | _, _ => none

def Callee.value? (f : Callee) (xs : List Complex) : Option Complex :=
  match f, xs with
  | .sin, [a] => some a.sin
  | .cos, [a] => some a.cos
  | .tan, [a] => a.cos.inverse?.map a.sin.mul
  | .sinh, [a] => some (Complex.mul ⟨0, -1⟩ (Complex.mul ⟨0, 1⟩ a).sin)
  | .cosh, [a] => some (Complex.mul ⟨0, 1⟩ a).cos
  | .tanh, [a] => (Complex.mul ⟨0, 1⟩ a).cos.inverse?.map fun c =>
      Complex.mul ⟨0, -1⟩ ((Complex.mul ⟨0, 1⟩ a).sin.mul c)
  | .abs, [a] => some (.ofRat a.size)
  | f, xs => if xs.all fun x => x.im == 0 then (f.real? (xs.map Complex.re)).map Complex.ofRat else none

namespace Term

mutual

/-- The number that a term is close to if its variables have the given values. -/
def valueAt? (at? : Term → Option Complex) : Term → Option Complex
  | .num q => some (.ofRat q)
  | .imaginary => some ⟨0, 1⟩
  | .var name => at? (.var name)
  | .auxiliary i p => at? (.auxiliary i p)
  | .pow b e =>
    match valueAt? at? b, valueAt? at? e with
    | some b, some e => b.power? e
    | _, _ => none
  | .mul ts => (valuesAt? at? ts).map fun xs => xs.foldl Complex.mul (.ofRat 1)
  | .add ts => (valuesAt? at? ts).map fun xs => xs.foldl Complex.add (.ofRat 0)
  | .call f ts => (valuesAt? at? ts).bind f.value?
  | _ => none

def valuesAt? (at? : Term → Option Complex) : List Term → Option (List Complex)
  | [] => some []
  | t :: rest =>
    match valueAt? at? t, valuesAt? at? rest with
    | some x, some xs => some (x :: xs)
    | _, _ => none

end

def value? (t : Term) : Option Complex :=
  match t with
  | .num q => some (.ofRat q)
  | t => t.valueAt? fun _ => none

def realValue? (t : Term) : Option Rat :=
  match t.value? with
  | some x => if x.im = 0 ∨ (-negligible * x.size < x.im ∧ x.im < negligible * x.size) then some x.re else none
  | none => none

end Term

/-- The signs that a real term may have. -/
structure Signs where
  negative : Bool
  zero : Bool
  positive : Bool
  deriving DecidableEq

namespace Signs

def any : Signs := ⟨true, true, true⟩

def isPositive (s : Signs) : Bool := !s.negative && !s.zero

def isNegative (s : Signs) : Bool := !s.positive && !s.zero

def isNonnegative (s : Signs) : Bool := !s.negative

def isNonpositive (s : Signs) : Bool := !s.positive

def ofRat (q : Rat) : Signs := ⟨q < 0, q == 0, 0 < q⟩

def ofApproximation (q : Rat) : Signs :=
  if q < -negligible then ⟨true, false, false⟩ else if negligible < q then ⟨false, false, true⟩ else any

def neg (s : Signs) : Signs := ⟨s.positive, s.zero, s.negative⟩

def add (s t : Signs) : Signs :=
  ⟨s.negative || t.negative, (s.zero && t.zero) || (s.negative && t.positive) || (s.positive && t.negative),
    s.positive || t.positive⟩

def mul (s t : Signs) : Signs :=
  ⟨(s.negative && t.positive) || (s.positive && t.negative), s.zero || t.zero,
    (s.negative && t.negative) || (s.positive && t.positive)⟩

/-- The signs of an integer power; zero has no negative one. -/
def integerPower? (s : Signs) (n : Int) : Option Signs :=
  if n < 0 ∧ s.zero then none
  else if n % 2 = 0 then some ⟨false, s.zero, s.negative || s.positive⟩
  else some s

def rootPower? (s : Signs) (e : Rat) : Option Signs :=
  if s.negative || (s.zero && e < 0) then none else some s

/-- The signs of the greatest of some terms, of which those that are not known to be real are missing. -/
def greatest (found : List (Option Signs)) : Option Signs :=
  let known := found.filterMap id
  if known.any isPositive then some ⟨false, false, true⟩
  else if known.any isNonnegative then some ⟨false, true, true⟩
  else if found.all Option.isSome then
    some ⟨known.all fun s => s.negative, known.any fun s => s.zero, known.any fun s => s.positive⟩
  else none

end Signs

def Callee.signs? (f : Callee) (found : List (Option Signs)) : Option Signs :=
  match f, found with
  | .max, found => Signs.greatest found
  | .min, found => (Signs.greatest (found.map fun s => s.map Signs.neg)).map Signs.neg
  | .mod, [_, some s] =>
    if s.isPositive then some ⟨false, true, true⟩ else if s.isNegative then some ⟨true, true, false⟩ else none
  | .abs, _ => some ⟨false, true, true⟩
  | .cosh, [some _] => some ⟨false, false, true⟩
  | .tan, _ => none
  | .mod, _ => none
  | _, [some _] => some .any
  | _, _ => none

def Signs.power? (s : Signs) (e : Term) (exponent : Option Signs) : Option Signs :=
  match e with
  | .num r => if r.den = 1 then s.integerPower? r.num else s.rootPower? r
  | _ => if s.isPositive && exponent.isSome then some s else none

namespace Term

mutual

def signs? : Term → Option Signs
  | .num q => some (.ofRat q)
  | .auxiliary _ positive => if positive then some ⟨false, false, true⟩ else none
  | .pow b e =>
    if isConstant (.pow b e) then (realValue? (.pow b e)).map Signs.ofApproximation
    else (signs? b).bind fun s => s.power? e (signs? e)
  | .mul ts =>
    if isConstant (.mul ts) then (realValue? (.mul ts)).map Signs.ofApproximation
    else (allSigns ts).foldl (fun s t => s.bind fun s => t.map s.mul) (some (.ofRat 1))
  | .add ts =>
    if isConstant (.add ts) then (realValue? (.add ts)).map Signs.ofApproximation
    else (allSigns ts).foldl (fun s t => s.bind fun s => t.map s.add) (some (.ofRat 0))
  | .call f ts =>
    if isConstant (.call f ts) then (realValue? (.call f ts)).map Signs.ofApproximation
    else f.signs? (allSigns ts)
  | _ => none

def allSigns : List Term → List (Option Signs)
  | [] => []
  | t :: rest => signs? t :: allSigns rest

end

def isReal (t : Term) : Bool := t.signs?.isSome

def isPositive (t : Term) : Bool := t.signs?.any Signs.isPositive

def isNegative (t : Term) : Bool := t.signs?.any Signs.isNegative

def isNonnegative (t : Term) : Bool := t.signs?.any Signs.isNonnegative

def isNonpositive (t : Term) : Bool := t.signs?.any Signs.isNonpositive

/-- Whether a term is known not to be zero, whether real or not. -/
def isNonzero (t : Term) : Bool :=
  match t.signs? with
  | some s => !s.zero
  | none => t.isConstant && t.value?.any fun x => negligible < x.size

inductive Standing where
  | nonnegative
  /-- Negative, or not real at all. -/
  | negative
  | unknown
  deriving DecidableEq

def standing (t : Term) : Standing :=
  match t.signs? with
  | some s => if s.isNonnegative then .nonnegative else if s.isNegative then .negative else .unknown
  | none =>
    if t.isConstant && t.value?.any fun x => negligible < x.im || x.im < -negligible then .negative else .unknown

mutual

def isInteger? : Term → Option Bool
  | .num q => some (q.den == 1)
  | .imaginary => some false
  | .pow b e =>
    match isInteger? b, e with
    | some true, .num r => if r.den = 1 ∧ 0 ≤ r.num then some true else if isConstant b then some false else none
    | _, e => if isConstant (.pow b e) then some false else none
  | .mul ts => if allIntegers ts then some true else if isConstant (.mul ts) then some false else none
  | .add ts => if allIntegers ts then some true else if isConstant (.add ts) then some false else none
  | .call f ts =>
    match f with
    | .max => if allIntegers ts then some true else none
    | .min => if allIntegers ts then some true else none
    | .mod => if allIntegers ts then some true else none
    | .abs => if allIntegers ts then some true else none
    | _ => if anyConstant ts then some false else none
  | _ => none

def allIntegers : List Term → Bool
  | [] => true
  | t :: rest => isInteger? t == some true && allIntegers rest

def anyConstant : List Term → Bool
  | [] => false
  | t :: rest => isConstant t || anyConstant rest

end

def isInteger (t : Term) : Bool := t.isInteger? == some true

end Term

end Metrology.Algebra
