import Metrology.Algebra.Roots
import Metrology.Algebra.Verdict
import Metrology.Algebra.Extremum

/-! # Equations

`solve` solves an equation for a variable. One that is linear in it is solved at once. Otherwise it has to be
a polynomial in one generator, as in a root, whose roots are solved for the variable in turn, or the roots in
it are cleared. Solutions that make a denominator zero, or that turn out to be wrong, are left out.
-/
namespace Metrology.Algebra

/-- Why an equation cannot be given an answer at all. -/
inductive Dilemma where
  /-- A power of minus one has no logarithm to find its exponent with. -/
  | noLogarithm
  deriving DecidableEq

namespace Equation

open Term

/-- How much is done for an equation: whether solutions are simplified and roots of polynomials are looked
for. -/
structure Effort where
  simplified : Bool
  rooted : Bool

/-- The solutions of an equation, unless they are too many or too hard to find. -/
abbrev Answer := Except Dilemma (Option (List Term))

inductive FirstLook where
  | unsolvable
  | linear (solution : Term)
  | general (numerator : Term)

def firstLook (x f : Term) : FirstLook :=
  let (n, _) := numerDenom f
  if n == zero || !x.occursIn n then .unsolvable
  else
    let d := derivative x n
    let free := d.unknowns
    let varies := !(d == zero) &&
      (free.isEmpty || (free.any fun s => !(derivative s d == zero)) || free == [x])
    if !varies then .unsolvable
    else if x.occursIn d then .general n
    else
      let s := expandProducts (product [negate (power d minusOne), substitute x zero n])
      if s.isUndefined then .unsolvable
      else if (denominators x f).any fun d => quickVerdict? x d s == some true then .general n
      else .linear s

def distinct (ts : List Term) : List Term :=
  ts.foldl (fun found t => if found.contains t then found else found ++ [t]) []

def accepted (x f n : Term) (checked simplified : Bool) (found : List Term) : List Term :=
  let found := distinct found
  let found := if simplified then distinct (found.map simplify) else found
  let below := denominators x f
  let found := found.filter fun s => !below.any fun d => verdict? x d s == some true
  if checked then found.filter fun s => verdict? x n s != some false else found

def rootDegree (t : Term) : Nat :=
  match t with
  | .pow _ e => (splitCoefficient e).1.den
  | _ => 1

def isRootOf (x t : Term) : Bool := t.factorsOf.any fun u => rootDegree u != 1 && x.occursIn u

def baseOf (t : Term) : Term := (splitPower t).1

def isTranscendental (x g : Term) : Bool :=
  g.hasPart fun u => match u with
    | .pow _ e => x.occursIn e
    | .call f ts => x.occursIn (.call f ts)
    | _ => false

/-- Whether an equation says that a power of minus one has some value. -/
def isPowerOfMinusOne (g : Term) (t : Term) : Bool :=
  match g with
  | .pow (.num q) _ =>
    q = -1 && (toPolynomial (g :: (generatorsOf [t]).filter fun h => !(h == g)) t).degrees.length == 2
  | _ => false

structure RootTerms where
  roots : List Term
  terms : List Term
  others : Term

def insertByRoots (key : List Nat) (t : Term) : List (List Nat × List Term) → List (List Nat × List Term)
  | [] => [(key, [t])]
  | (k, ts) :: rest => if k == key then (k, ts ++ [t]) :: rest else (k, ts) :: insertByRoots key t rest

def rootTerms (roots : List Term) (t : Term) : RootTerms :=
  let exponents (t : Term) : List Nat :=
    let powers := (readFactors t).1
    roots.map fun g => ((powers.find? fun p => p.1 == g).map Prod.snd).getD 0
  let coefficient (t : Term) : Term :=
    let (c, rest) := splitCoefficient t
    product (.num c :: rest.factorsOf.filter fun u => !roots.contains (generatorPower u).1)
  let grouped := t.termsOf.foldl (fun found t => insertByRoots (exponents t) (coefficient t) found) []
  let monomials := grouped.map fun p =>
    (p.1, product (sum p.2 :: (roots.zip p.1).map fun r => power r.1 (.num r.2)))
  let free := monomials.filter fun p => p.1.all fun e => e == 0
  let bySet := (monomials.filter fun p => p.1.any fun e => e != 0).foldl
    (fun found p => insertByRoots (p.1.map fun e => if e = 0 then 0 else 1) p.2 found) []
  ⟨roots, bySet.map fun p => sum p.2, sum (free.map Prod.snd)⟩

def squareOfSum (a b : Term) : Term :=
  sum [power a (.num 2), power b (.num 2), product [.num 2, a, b]]

def canonical (t : Term) : Term :=
  let t := factorTermsCleared (multipliedFully (numerDenom t).1)
  let factors : List Term := match t with
    | .mul ts => (ts.filter fun u => !u.isConstant).map baseOf
    | t => [t]
  ofFactors (factors.map fun u => if u.prefersNegation then negate u else u)

/-- An equation without roots, and the power of a new variable that the base of the roots has been replaced
by, if so. -/
structure Cleared where
  equation : Term
  replaced : Option (Term × Term)

mutual

def solveWithin : Nat → Effort → Term → Term → Answer
  | 0, _, _, _ => .ok none
  | fuel + 1, effort, x, f =>
    match f with
    | .mul ts =>
      match solveAllWithin fuel effort x (ts.filter (occursIn x)) with
      | .ok (some found) =>
        let below := denominators x f
        .ok (some ((distinct found).filter fun s => !below.any fun d => verdict? x d s == some true))
      | answer => answer
    | f =>
      match firstLook x f with
      | .unsolvable => .ok (some [])
      | .linear s => .ok (some [if effort.simplified then simplify s else s])
      | .general n => solveGeneralWithin fuel effort x f n

def solveAllWithin : Nat → Effort → Term → List Term → Answer
  | 0, _, _, _ => .ok none
  | _, _, _, [] => .ok (some [])
  | fuel + 1, effort, x, t :: rest =>
    match solveWithin fuel effort x t, solveAllWithin fuel effort x rest with
    | .ok (some found), .ok (some others) => .ok (some (found ++ others))
    | .error e, _ => .error e
    | _, .error e => .error e
    | _, _ => .ok none

def solveGeneralWithin : Nat → Effort → Term → Term → Term → Answer
  | 0, _, _, _, _ => .ok none
  | fuel + 1, effort, x, f, n =>
    let whole := expand n
    match (generatorsOf [whole]).filter (occursIn x) with
    | [] => .ok none
    | [g] =>
      if isPowerOfMinusOne g whole then .error .noLogarithm
      else if isTranscendental x g then .ok none
      else if !effort.rooted then solveByRootsWithin fuel effort x f n
      else
        match rootsIn g whole with
        | none => .ok none
        | some roots =>
          if g == x then .ok (some (accepted x f n false effort.simplified roots))
          else
            let t := Term.auxiliary fuel false
            match solveWithin fuel { effort with rooted := false } x (difference g t) with
            | .error e => .error e
            | .ok none => solveByRootsWithin fuel effort x f n
            | .ok (some inverses) =>
              let found := inverses.flatMap fun s => roots.map fun r => substitute t r s
              .ok (some (accepted x f n true (effort.simplified && found.length ≤ 2) found))
    | gs => if gs.any (isTranscendental x) then .ok none else solveByRootsWithin fuel effort x f n

def solveByRootsWithin : Nat → Effort → Term → Term → Term → Answer
  | 0, _, _, _, _ => .ok none
  | fuel + 1, effort, x, f, n =>
    match clearWithin fuel x n with
    | none => .ok none
    | some cleared =>
      let effort := { effort with rooted := true }
      match cleared.replaced with
      | none =>
        match solveWithin fuel effort x cleared.equation with
        | .ok (some found) => .ok (some (accepted x f n true false found))
        | answer => answer
      | some (p, relation) =>
        match solveWithin fuel effort x relation, solveWithin fuel effort p cleared.equation with
        | .error e, _ => .error e
        | _, .error e => .error e
        | .ok (some (s :: _)), .ok (some found) =>
          .ok (some (accepted x f n true false (found.map fun r => substitute p r s)))
        | _, _ => .ok none

def clearWithin : Nat → Term → Term → Option Cleared
  | 0, _, _ => none
  | fuel + 1, x, f =>
    let f := multipliedFully (numerDenom (factorTermsCleared f)).1
    let generators := (generatorsOf [expand f]).filter (isRootOf x)
    if generators.isEmpty then none
    else
      let parts := rootTerms generators (expand f)
      let roots := generators.filter fun g => rootDegree g != 1
      let degree := roots.foldl (fun n g => Nat.lcm n (rootDegree g)) 1
      let bases := distinct (roots.map baseOf)
      let ofPowerOfTwo := Nat.pow 2 degree.log2 == degree
      let again (t : Term) : Option Cleared :=
        match clearWithin fuel x t with
        | some cleared => some ⟨canonical cleared.equation, cleared.replaced⟩
        | none => if (generatorsOf [expand t]).any (isRootOf x) then none else some ⟨canonical t, none⟩
      let raised (a b : Term) : Option Cleared :=
        again (difference (power a (.num degree)) (power b (.num degree)))
      match parts.terms, bases with
      | [a], bases =>
        if !a.isSum || degree ≤ 2 then raised a (negate parts.others)
        else
          match bases with
          | [b] => replaceWithin fuel x b degree f
          | _ => none
      | terms, bases =>
        match bases with
        | [b] => replaceWithin fuel x b degree f
        | _ =>
          match (sortArguments terms).reverse with
          | [a, b] =>
            if parts.others == zero then raised a (negate b)
            else if ofPowerOfTwo then again (difference (power a (.num 2)) (squareOfSum b parts.others))
            else none
          | [a, b, c] =>
            if ofPowerOfTwo then again (difference (squareOfSum b c) (squareOfSum a parts.others)) else none
          | [a, b, c, d] =>
            if ofPowerOfTwo && parts.others == zero then
              again (difference (squareOfSum a b) (squareOfSum c d))
            else none
          | _ => none

/-- Puts a power of a new variable in the place of the base of all roots. -/
def replaceWithin : Nat → Term → Term → Nat → Term → Option Cleared
  | 0, _, _, _, _ => none
  | fuel + 1, x, b, degree, f =>
    let p := Term.auxiliary (100 + fuel) true
    let relation := difference (power p (.num degree)) b
    match solveWithin fuel ⟨false, true⟩ x relation with
    | .ok (some (s :: _)) =>
      let t := substitute x s (substitute b (power p (.num degree)) f)
      let q := Term.auxiliary (200 + fuel) false
      some ⟨substitute p q (canonical t), some (q, substitute p q relation)⟩
    | _ => none

end

def depth : Nat := 40

/-- The solutions of an equation that says that a term vanishes. -/
def solve (x f : Term) : Answer := solveWithin depth ⟨true, true⟩ x f

end Equation

end Metrology.Algebra
