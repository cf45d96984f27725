import Metrology.Algebra.Normal

/-! # Circular functions

Sine and tangent are odd and cosine is even, so a minus sign that is at the front of an angle, or preferred
there, comes out. An imaginary angle gives a hyperbolic function.
-/
namespace Metrology.Algebra

/-- The hyperbolic function for a circular one of an imaginary angle. -/
def Callee.hyperbolic : Callee → Callee
  | .sin => .sinh
  | .cos => .cosh
  | .tan => .tanh
  | f => f

def Callee.isEven : Callee → Bool
  | .cos => true
  | .cosh => true
  | _ => false

namespace Term

/-- What is left of a product, or of all terms of a sum, without the square root of minus one. -/
def withoutImaginary? : Term → Option Term
  | .imaginary => some one
  | .mul ts =>
    if ts.contains .imaginary then some (product (ts.filter fun t => !(t == .imaginary))) else none
  | .add ts =>
    let turned (t : Term) : Bool := t.factorsOf.contains .imaginary
    if ts.all turned then
      some (sum (ts.map fun t => product (t.factorsOf.filter fun u => !(u == .imaginary))))
    else none
  | _ => none

def signedCall (f : Callee) (t : Term) : Term :=
  if t == zero then (if f.isEven then one else zero)
  else if t.prefersNegation then
    let call := Term.call f [negate t]
    if f.isEven then call else negate call
  else .call f [t]

def circular (f : Callee) (angle : Term) : Term :=
  match angle with
  | .infinite => .undefined
  | .undefined => .undefined
  | angle =>
    let turned := angle.prefersNegation
    let angle := if turned then negate angle else angle
    let value :=
      match withoutImaginary? angle with
      | some t =>
        let call := signedCall f.hyperbolic t
        if f.isEven then call else product [.imaginary, call]
      | none => signedCall f angle
    if turned && !f.isEven then negate value else value

end Term

end Metrology.Algebra
