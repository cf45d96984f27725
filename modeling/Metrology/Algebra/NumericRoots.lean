import Metrology.Algebra.Approximation

/-! # Roots as numbers

All roots of a polynomial with rational coefficients and without repeated roots are approximated at once: each
one moves by the value of the polynomial over the product of its distances from the others.
-/
namespace Metrology.Algebra

namespace Complex

def sub (a b : Complex) : Complex := add a (neg b)

def horner (coefficients : List Rat) (z : Complex) : Complex :=
  coefficients.foldl (fun total c => add (mul total z) (ofRat c)) (ofRat 0)

def distances (z : Complex) (others : List Complex) : Complex :=
  others.foldl (fun total w => mul total (sub z w)) (ofRat 1)

end Complex

/-- One step of all roots of a polynomial whose leading coefficient is one. -/
def moveRoots (coefficients : List Rat) (before : List Complex) : List Complex → List Complex
  | [] => []
  | z :: rest =>
    let moved := match (Complex.distances z (before ++ rest)).inverse? with
      | some d => z.sub ((Complex.horner coefficients z).mul d)
      | none => z
    moved :: moveRoots coefficients (before ++ [moved]) rest

def startingPoints (size : Rat) : Nat → List Complex
  | 0 => []
  | n + 1 =>
    let turn : Complex := ⟨2 / 5, 9 / 10⟩
    startingPoints size n ++ [(turn.natPow n).mul (Complex.ofRat size)]

def rootSteps : Nat := 160

/-- Imaginary parts as small as this one are due to rounding. -/
def realMargin : Rat := 1 / (Nat.pow 2 150 : Nat)

def approximateRoots (coefficients : List Rat) : List Complex :=
  match coefficients with
  | [] => []
  | c :: rest =>
    let monic : List Rat := 1 :: rest.map fun d => d / c
    let bound := rest.foldl (fun (m : Rat) d =>
      let r := if d / c < 0 then -(d / c) else d / c
      if m < r then r else m) 0 + 1
    let size := if 8 < bound then bound / 2 else bound
    let found := (List.range rootSteps).foldl (fun zs _ => moveRoots monic [] zs) (startingPoints size rest.length)
    found.map fun z => if -realMargin < z.im ∧ z.im < realMargin then ⟨z.re, 0⟩ else z

end Metrology.Algebra
