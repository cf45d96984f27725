/-! # Roots of numbers

`rootOf` takes a natural number to a positive power that is no integer: perfect powers come out of the root,
and what stays under it is as small as the prime factors below `factorLimit` show it to be.
-/
namespace Metrology.Algebra

def rootStep (degree n r : Nat) : Nat := ((degree - 1) * r + n / Nat.pow r (degree - 1)) / degree

def rootDescent (degree n r : Nat) : Nat :=
  let s := rootStep degree n r
  if s < r then rootDescent degree n s else r
termination_by r

/-- The largest number whose power does not exceed `n`, from a power of two above it. -/
def rootPart (degree n : Nat) : Nat := rootDescent degree n (Nat.pow 2 (n.log2 / degree + 1))

def exactRoot? (degree n : Nat) : Option Nat :=
  let r := rootPart degree n
  if Nat.pow r degree = n then some r else none

def powerForm? (n : Nat) : Nat → Option (Nat × Nat)
  | 0 => none
  | 1 => none
  | most + 1 =>
    match exactRoot? (most + 1) n with
    | some r => some (r, most + 1)
    | none => powerForm? n most

/-- A number above three as a power with the largest exponent that is greater than one. -/
def perfectPower? (n : Nat) : Option (Nat × Nat) := if n < 4 then none else powerForm? n n.log2

def factorLimit : Nat := 32768

def divideOut (p n : Nat) : Nat → Nat × Nat
  | 0 => (0, n)
  | bound + 1 =>
    if 1 < p ∧ n % p = 0 then
      let (k, rest) := divideOut p (n / p) bound
      (k + 1, rest)
    else (0, n)

/-- The prime factors from `p` on with their exponents; a cofactor without small factors stays whole. -/
def factorsFrom (p n : Nat) : Nat → List (Nat × Nat)
  | 0 => if n ≤ 1 then [] else (perfectPower? n).elim [(n, 1)] fun f => [f]
  | bound + 1 =>
    if n ≤ 1 then []
    else if n < p * p then [(n, 1)]
    else
      match divideOut p n (n.log2 + 1) with
      | (0, _) => factorsFrom (if p = 2 then 3 else p + 2) n bound
      | (k, rest) => (p, k) :: factorsFrom (if p = 2 then 3 else p + 2) rest bound

def factorsOf (n : Nat) : List (Nat × Nat) := factorsFrom 2 n (factorLimit / 2)

/-- A natural number times powers of natural numbers whose exponents are proper fractions. -/
structure Surd where
  whole : Nat
  roots : List (Nat × Rat)

/-- The roots that the factors of a number leave over and those that have to stay together. -/
structure RootParts where
  whole : Nat
  roots : List (Nat × Rat)
  rest : List (Nat × Nat)

def RootParts.insert (p q : Nat) (r : RootParts) (factor : Nat × Nat) : RootParts :=
  let exponent := factor.2 * p
  let r := { r with whole := r.whole * Nat.pow factor.1 (exponent / q) }
  let left := exponent % q
  let g := Nat.gcd left q
  if left = 0 then r
  else if g = 1 then { r with rest := r.rest ++ [(factor.1, left)] }
  else { r with roots := r.roots ++ [(factor.1, mkRat left q)] }

def rootOf (n p q : Nat) : Surd :=
  match exactRoot? q n with
  | some r => ⟨Nat.pow r p, []⟩
  | none =>
    let factors := match perfectPower? n with
      | some f => [f]
      | none => factorsOf n
    let parts := factors.foldl (RootParts.insert p q) ⟨1, [], []⟩
    let common : Nat := parts.rest.foldl (fun g f => Nat.gcd g f.2) 0
    let base : Nat := parts.rest.foldl (fun b f => b * Nat.pow f.1 (f.2 / common)) 1
    if base == 1 then ⟨parts.whole, parts.roots⟩
    else ⟨parts.whole, parts.roots ++ [(base, mkRat common q)]⟩

end Metrology.Algebra
