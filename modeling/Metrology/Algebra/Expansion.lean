import Metrology.Algebra.Ratio

/-! # Expansion

Products of sums and powers of sums are multiplied out, powers of products and powers with sums as exponents
fall apart. Each kind of step goes through a term from its parts up; `expand` takes all of them until nothing
changes.
-/
namespace Metrology.Algebra.Term

def crossMultiply (as bs : List Term) : List Term :=
  as.flatMap fun a => bs.map fun b => product [a, b]

def multiplySums : Nat → List (List Term) → List Term
  | 0, _ => []
  | _, [] => [one]
  | _, [ts] => ts
  | bound + 1, sums =>
    let cut := sums.length / 2
    (sum (crossMultiply (multiplySums bound (sums.take cut)) (multiplySums bound (sums.drop cut)))).termsOf

def distribute (t : Term) : Term :=
  let factors := t.factorsOf
  let sums := factors.filter isSum
  if sums.isEmpty then t
  else
    let plain := product (factors.filter fun t => !t.isSum)
    sum ((multiplySums (sums.length + 1) (sums.map termsOf)).map fun t => product [plain, t])

/-- Multiplies out a product; a product below the line is multiplied out on its own. -/
def multiplyOut (t : Term) : Term :=
  match t with
  | .mul _ =>
    let (n, d) := fraction t
    let whole :=
      if d.isProduct then quotient (if n.isProduct then distribute n else n) (distribute d)
      else quotient n d
    if whole.isProduct then distribute whole else whole
  | t => t

/-- A power of a sum of that many terms is not multiplied out if it gets longer than this. -/
def expansionLimit : Nat := 4000

def chooseFrom (n : Nat) : Nat → Nat
  | 0 => 1
  | k + 1 => chooseFrom n k * (n - k) / (k + 1)

def multinomials (n : Nat) : List Term → List (Nat × List Term)
  | [] => if n = 0 then [(1, [])] else []
  | t :: rest =>
    (List.range (n + 1)).flatMap fun k =>
      (multinomials (n - k) rest).map fun m => (chooseFrom n k * m.1, power t (.num k) :: m.2)

def sumPower (ts : List Term) (n : Nat) : Term :=
  if expansionLimit < chooseFrom (n + ts.length - 1) n then .pow (.add ts) (.num n)
  else sum ((multinomials n ts).map fun m => product (.num m.1 :: m.2))

def expandSumPower (ts : List Term) (e : Rat) : Term :=
  let whole := e.floor
  if e.den = 1 then sumPower ts e.num.toNat
  else if whole = 0 then .pow (.add ts) (.num e)
  else
    let radical := power (.add ts) (.num (e - whole))
    sum ((sumPower ts whole.toNat).termsOf.map fun t => product [t, radical])

def expandPower (t : Term) : Term :=
  match t with
  | .pow (.add ts) (.num e) =>
    if 0 < e then expandSumPower ts e
    else if e < -1 then power (expandSumPower ts (-e)) minusOne
    else t
  | t => t

/-- Takes a power of a product apart, as far as that is right for all values. -/
def splitPowerBase (t : Term) : Term :=
  match t with
  | .pow (.mul ts) e =>
    if e.isInteger then product (ts.map fun t => power t e)
    else
      match e with
      | .num _ => power (.mul ts) e
      | e =>
        let (out, inside) := (baseParts ts).settle
        if out.isEmpty then t
        else product ((out.map fun b => power b e) ++ if inside.isEmpty then [] else [.pow (product inside) e])
  | t => t

def splitPowerExponent (t : Term) : Term :=
  match t with
  | .pow b (.add es) =>
    if b.isNonzero || es.all isNonnegative || es.all isNonpositive then product (es.map (power b)) else t
  | t => t

mutual

def rebuild (step : Term → Term) : Term → Term
  | .pow b e =>
    let b' := rebuild step b
    let e' := rebuild step e
    step (if b' == b && e' == e then .pow b e else power b' e')
  | .mul ts =>
    let ts' := rebuildAll step ts
    step (if sameAll ts' ts then .mul ts else product ts')
  | .add ts =>
    let ts' := rebuildAll step ts
    step (if sameAll ts' ts then .add ts else sum ts')
  | .call f ts => step (.call f (rebuildAll step ts))
  | t => step t

def rebuildAll (step : Term → Term) : List Term → List Term
  | [] => []
  | t :: rest => rebuild step t :: rebuildAll step rest

end

def untilStable (step : Term → Term) (t : Term) : Nat → Term
  | 0 => t
  | bound + 1 =>
    let t' := step t
    if t' == t then t else untilStable step t' bound

def expansionRounds : Nat := 12

def expandProducts (t : Term) : Term := untilStable (rebuild multiplyOut) t expansionRounds

def expandPowers (t : Term) : Term := untilStable (rebuild expandPower) t expansionRounds

def multiplied (t : Term) : Term := expandProducts (expandPowers t)

def multipliedFully (t : Term) : Term := untilStable multiplied t expansionRounds

def expandExponents (t : Term) : Term := rebuild splitPowerExponent t

def expand (t : Term) : Term :=
  let t := rebuild multiplyOut (rebuild expandPower t)
  let t := rebuild splitPowerExponent (rebuild splitPowerBase t)
  untilStable (fun t => rebuild multiplyOut (rebuild expandPower t)) t expansionRounds

end Metrology.Algebra.Term
