import Metrology.Algebra.Order

/-! # Sums, products and powers

`sum`, `product` and `power` build terms. Numbers are folded, like terms of a sum and like powers of a product
are collected, roots of numbers are taken as far as they come out, and a number that multiplies a sum alone is
distributed. A power of a product falls apart where that is right for all values of the variables.

Products and powers need each other. Both recurse on a bound for the depth of their calls, which `callDepth`
sets far beyond what terms need.
-/
namespace Metrology.Algebra.Term

mutual

def flatTerms : Term → List Term
  | .add ts => flatTermsAll ts
  | t => [t]

def flatTermsAll : List Term → List Term
  | [] => []
  | t :: rest => flatTerms t ++ flatTermsAll rest

end

def collect (c : Rat) (t : Term) : List (Rat × Term) → List (Rat × Term)
  | [] => [(c, t)]
  | (d, u) :: rest => if t == u then (c + d, u) :: rest else (d, u) :: collect c t rest

/-- A multiple of a term that has no coefficient; a sum is not multiplied out. -/
def withCoefficient (c : Rat) (t : Term) : Term :=
  if c = 1 then t
  else
    match t with
    | .mul ts => .mul (.num c :: ts)
    | t => if t == one then .num c else .mul [.num c, t]

def isUndefined (t : Term) : Bool := t == .undefined

def isInfinite (t : Term) : Bool := t == .infinite

/-- The sum of terms. What is infinite absorbs constants. -/
def sum (ts : List Term) : Term :=
  let ts := flatTermsAll ts
  let constant := (ts.map fun t => match t with | .num q => q | _ => 0).foldl (fun a b => a + b) 0
  let others := ts.filter fun t => !t.isNumber && !t.isInfinite
  let collected := others.foldl (fun found t => collect (splitCoefficient t).1 (splitCoefficient t).2 found) []
  let terms := (collected.filter fun m => m.1 != 0).map fun m => withCoefficient m.1 m.2
  if ts.any isUndefined || 1 < (ts.filter isInfinite).length then .undefined
  else if ts.any isInfinite then ofTerms (.infinite :: sort (terms.filter fun t => !t.isConstant))
  else if constant = 0 then ofTerms (sort terms)
  else ofTerms (.num constant :: sort terms)

def difference (a b : Term) : Term := sum [a, negate b]

mutual

def scale (c : Rat) : Term → Term
  | .num q => .num (c * q)
  | .infinite => if c = 0 then .undefined else .infinite
  | .undefined => .undefined
  | .add ts => if c = 0 then zero else if c = 1 then .add ts else .add (sort (scaleAll c ts))
  | .mul [.num d, .add ts] =>
    if c * d = 0 then zero else if c * d = 1 then .add ts else .add (sort (scaleAll (c * d) ts))
  | .mul (.num d :: rest) =>
    if c * d = 0 then zero else if c * d = 1 then ofFactors rest else .mul (.num (c * d) :: rest)
  | .mul ts => if c = 0 then zero else if c = 1 ∨ ts.head?.any isInfinite then .mul ts else .mul (.num c :: ts)
  | t => if c = 0 then zero else if c = 1 then t else .mul [.num c, t]

def scaleAll (c : Rat) : List Term → List Term
  | [] => []
  | t :: rest => scale c t :: scaleAll c rest

end

def powerLimit : Nat := 100000

def integerPower (q : Rat) (n : Int) : Term :=
  if q = 0 then (if n < 0 then .infinite else .num 0)
  else if q = 1 then .num 1
  else if q = -1 then .num (if n % 2 = 0 then 1 else -1)
  else if powerLimit < n.natAbs then .pow (.num q) (.num n)
  else if n < 0 then .num (1 / q ^ n.natAbs)
  else .num (q ^ n.natAbs)

def imaginaryPower (n : Int) : Term :=
  match n % 4 with
  | 0 => one
  | 1 => .imaginary
  | 2 => minusOne
  | _ => .mul [minusOne, .imaginary]

/-- The factors of a product, sorted by what becomes of them: the number that they amount to, the exponent of
minus one in halves and other fractions, powers of other bases, powers of numbers with other exponents, and
roots of numbers. -/
structure Gathering where
  coefficient : Rat
  infinite : Bool
  undefined : Bool
  turn : Rat
  powers : List (Term × Term)
  exponentials : List (Term × Term)
  roots : List (Rat × Rat)

namespace Gathering

def start : Gathering := ⟨1, false, false, 0, [], [], []⟩

def addNumber (g : Gathering) (q : Rat) : Gathering :=
  if g.infinite then { g with undefined := g.undefined || q == 0 } else { g with coefficient := g.coefficient * q }

def addInfinite (g : Gathering) : Gathering :=
  { g with infinite := true, undefined := g.undefined || g.coefficient == 0 }

def addPower (g : Gathering) (t : Term) : Gathering := { g with powers := g.powers ++ [splitPower t] }

def addRoot (g : Gathering) (q e : Rat) : Gathering :=
  let g := if q < 0 then { g with turn := g.turn + e } else g
  let size := if q < 0 then -q else q
  if size = 1 then g else { g with roots := g.roots ++ [(size, e)] }

end Gathering

abbrev Exponents := List (Term × List (Rat × Term))

def insertExponent (b e : Term) : Exponents → Exponents
  | [] => [(b, [splitCoefficient e])]
  | (c, es) :: rest =>
    if b == c then (c, collect (splitCoefficient e).1 (splitCoefficient e).2 es) :: rest
    else (c, es) :: insertExponent b e rest

/-- Powers of one base are joined if their exponents are multiples of one term. -/
def gatherPowers (ps : List (Term × Term)) : List (Term × Term) :=
  let gathered := ps.foldl (fun found p => insertExponent p.1 p.2 found) ([] : Exponents)
  gathered.flatMap fun (b, es) => es.map fun (c, e) => (b, scale c e)

def group {α β : Type} [BEq α] (ps : List (α × β)) : List (α × List β) :=
  ps.foldl insert []
where
  insert (found : List (α × List β)) (p : α × β) : List (α × List β) :=
    match found with
    | [] => [(p.1, [p.2])]
    | (a, bs) :: rest => if a == p.1 then (a, bs ++ [p.2]) :: rest else (a, bs) :: insert rest p

/-- The greatest common divisor of fractions: that of the numerators over the least multiple of the
denominators. -/
def ratGcd (p q : Rat) : Rat := mkRat (Nat.gcd p.num.natAbs q.num.natAbs) (Nat.lcm p.den q.den)

structure Roots where
  number : Rat
  roots : List (Rat × Rat)

def Roots.insert (r : Roots) (q e : Rat) : Roots :=
  let whole := e.floor
  let r := { r with number := r.number * q ^ whole.toNat }
  if e - whole = 0 then r else { r with roots := r.roots ++ [(q, e - whole)] }

/-- Takes the divisors that a root has in common with later ones out of both, and gives them the sum of the
exponents. -/
def shareDivisors (b e : Rat) (number : Rat) : List (Rat × Rat) → Rat × Roots × List (Rat × Rat)
  | [] => (b, ⟨number, []⟩, [])
  | (c, f) :: rest =>
    let g := ratGcd b c
    if b = 1 ∨ g = 1 then
      let (b, grown, rest) := shareDivisors b e number rest
      (b, grown, (c, f) :: rest)
    else
      let (b, grown, rest) := shareDivisors (b / g) e number rest
      (b, grown.insert g (e + f), (c / g, f) :: rest)

def separateRoots : Nat → Rat → List (Rat × Rat) → Roots
  | 0, number, roots => ⟨number, roots⟩
  | _, number, [] => ⟨number, []⟩
  | bound + 1, number, (b, e) :: rest =>
    if b = 1 then separateRoots bound number rest
    else
      let (b, grown, rest) := shareDivisors b e number rest
      let done := separateRoots bound grown.number (rest ++ grown.roots)
      if b = 1 then done else { done with roots := (b, e) :: done.roots }

def joinRoots (roots : List (Rat × Rat)) : Roots :=
  let byBase := (group roots).map fun (b, es) => (es.foldl (fun (a e : Rat) => a + e) (0 : Rat), b)
  let byExponent := (group byBase).map fun (e, bs) => (bs.foldl (fun (a b : Rat) => a * b) (1 : Rat), e)
  let joined := byExponent.foldl (fun (r : Roots) p => r.insert p.1 p.2) (⟨1, []⟩ : Roots)
  separateRoots (4 * joined.roots.length * joined.roots.length + 4) joined.number joined.roots

structure BaseParts where
  nonnegative : List Term
  negative : List Term
  other : List Term

def baseParts (ts : List Term) : BaseParts :=
  let turns := (ts.filter fun t => t == .imaginary).length % 4
  let ts := ts.filter fun t => !(t == .imaginary)
  let judged := ts.map fun t => (t.standing, t)
  let all (s : Standing) : List Term := (judged.filter fun p => p.1 = s).map Prod.snd
  let nonnegative := all .nonnegative
  let negative := all .negative
  let other := all .unknown
  let signed := if turns < 2 then (nonnegative, negative)
    else
      match negative.getLast? with
      | some t =>
        let u := negate t
        (if u == one then nonnegative else nonnegative ++ [u], negative.dropLast)
      | none => (nonnegative, [minusOne])
  ⟨signed.1, signed.2, if turns % 2 = 1 then other ++ [.imaginary] else other⟩

/-- Settles the signs of the factors of a base: pairs of negative factors are positive, and a sign that is
left stays with the factors that do not come out. -/
def BaseParts.settle (p : BaseParts) : List Term × List Term :=
  match p.negative with
  | [] => (p.nonnegative, p.other)
  | [t] =>
    match t with
    | .num q =>
      if p.other.isEmpty || q = -1 then (p.nonnegative, p.other ++ [t])
      else (p.nonnegative ++ [.num (-q)], p.other ++ [minusOne])
    | t => (p.nonnegative, p.other ++ [t])
  | t :: rest =>
    let (first, negative) := match t with
      | .num q => if p.other.isEmpty then (q, rest) else (1, t :: rest)
      | _ => (1, t :: rest)
    let sign := if negative.length % 2 = 1 then -first else first
    (p.nonnegative ++ negative.map negate, if sign = 1 then p.other else p.other ++ [.num sign])

def complexParts? : Term → Option (Rat × Rat)
  | .add [.num r, .imaginary] => some (r, 1)
  | .add [.num r, .mul [.num i, .imaginary]] => some (r, i)
  | _ => none

def ofComplexParts (r i : Rat) : Term := sum [.num r, scale i .imaginary]

def complexPower (r i : Rat) : Nat → Rat × Rat
  | 0 => (1, 0)
  | n + 1 =>
    let (a, b) := complexPower r i n
    (a * r - b * i, a * i + b * r)

def rationalRoot? (q : Rat) : Option Rat :=
  if q < 0 then none
  else
    match exactRoot? 2 q.num.natAbs, exactRoot? 2 q.den with
    | some a, some b => some ((a : Rat) / b)
    | _, _ => none

def hidesSign (b : Term) : Bool :=
  match b with
  | .mul ts => b.isConstant && (match ts with | .num c :: _ => c < 0 | _ => false)
  | _ => false

def numbersAmong (ts : List Term) : Rat :=
  ts.foldl (fun (n : Rat) t => match t with | .num q => n * q | _ => n) 1

def exponentialGroups (ps : List (Term × Term)) : List (Term × List Term) :=
  (group ((gatherPowers ps).map fun p => (p.2, p.1))).filter fun p => !(p.1 == zero)

def rootGroups (ts : List Term) : List (Rat × Rat) :=
  let roots := ts.filterMap fun t => match t with
    | .pow (.num b) (.num e) => some (e, b)
    | _ => none
  (group roots).map fun p => (p.2.foldl (fun (a b : Rat) => a * b) (1 : Rat), p.1)

/-- Where the exponent of minus one goes: to the sign of the product, to the base of a root with the same
exponent, or to a power of its own. -/
structure PlacedTurn where
  sign : Rat
  turned : List Term
  roots : List (Rat × Rat)

def placeTurn (turn : Rat) (roots : List (Rat × Rat)) : PlacedTurn :=
  let whole := turn.floor
  let sign : Rat := if whole % 2 = 0 then 1 else -1
  let rest := turn - whole
  if rest = 0 then ⟨sign, [], roots⟩
  else if rest.den = 2 then ⟨sign, [.imaginary], roots⟩
  else if roots.any fun p => p.2 == rest then
    ⟨sign, [], roots.map fun p => if p.2 = rest then (-p.1, p.2) else p⟩
  else ⟨sign, [.pow minusOne (.num rest)], roots⟩

def Gathering.assemble (g : Gathering) (number : Rat) (factors : List Term) : Term :=
  let number := g.coefficient * number * numbersAmong factors
  let factors := factors.filter fun t => !t.isNumber
  if g.undefined || factors.any isUndefined then .undefined
  else if g.infinite || factors.any isInfinite then
    if number = 0 then .undefined
    else
      let absorbed (t : Term) : Bool := t.isInfinite || (t.isNonzero && (t.isReal || t.isConstant))
      ofFactors (.infinite :: sort (factors.filter fun t => !absorbed t))
  else if number = 0 then zero
  else if number = 1 then ofFactors (sort factors)
  else
    match sort factors with
    | [] => .num number
    | [.add ts] => sum (ts.map (scale number))
    | factors => .mul (.num number :: factors)

mutual

def gatherWithin : Nat → Gathering → Term → Gathering
  | 0, g, t => g.addPower t
  | fuel + 1, g, t =>
    match t with
    | .num q => g.addNumber q
    | .infinite => g.addInfinite
    | .undefined => { g with undefined := true }
    | .imaginary => { g with turn := g.turn + 1 / 2 }
    | .mul ts => ts.foldl (gatherWithin fuel) g
    | .pow (.num q) (.num e) =>
      if e.den = 1 then
        match integerPower q e.num with
        | .num p => g.addNumber p
        | .infinite => g.addInfinite
        | t => g.addPower t
      else if e < 0 then
        match powerWithin fuel (.num q) (.num e) with
        | .pow c f => if c == .num q then g.addPower (.pow c f) else gatherWithin fuel g (.pow c f)
        | t => gatherWithin fuel g t
      else g.addRoot q e
    | .pow (.num q) e =>
      let (b, f) := splitPower (.pow (.num q) e)
      if 0 < q || e.isInteger then { g with exponentials := g.exponentials ++ [(b, f)] } else g.addPower t
    | t => g.addPower t

/-- The factors that gathered powers amount to. Where a power changes its base and the new one is there
already, they are gathered once more. -/
def settleWithin : Nat → Nat → List (Term × Term) → List Term
  | 0, _, ps => ps.map fun (b, e) => .pow b e
  | fuel + 1, rounds, ps =>
    let settled := ps.filterMap fun (b, e) =>
      if e == zero then
        if (b.isSum || b.isProduct) && (b.termsOf ++ b.factorsOf).any isInfinite then
          some (Term.undefined, b, e, false)
        else none
      else if e == one then some (b, b, e, false)
      else
        let p := powerWithin fuel b e
        if p.isPower && !b.isPower then
          let (c, f) := splitPower p
          some (p, c, f, !(c == b))
        else some (p, b, e, false)
    let changed := settled.any fun (_, _, _, changed) => changed
    let bases := settled.map fun (_, b, _, _) => b
    match rounds with
    | 0 => settled.map Prod.fst
    | rounds + 1 =>
      if changed && bases.eraseDups.length != bases.length then
        settleWithin fuel rounds (gatherPowers (settled.map fun (_, b, e, _) => (b, e)))
      else settled.map Prod.fst

def finishWithin : Nat → Gathering → Term
  | 0, _ => .undefined
  | fuel + 1, g =>
    let settled := settleWithin fuel 1 (gatherPowers g.powers)
    let exponentials := (exponentialGroups g.exponentials).map fun p => powerWithin fuel (productWithin fuel p.2) p.1
    let roots := joinRoots g.roots
    let taken := roots.roots.flatMap fun p => (powerWithin fuel (.num p.1) (.num p.2)).factorsOf
    let placed := placeTurn g.turn (rootGroups taken)
    let rooted := placed.roots.map fun p => powerWithin fuel (.num p.1) (.num p.2)
    g.assemble (numbersAmong taken * roots.number * placed.sign) (settled ++ exponentials ++ placed.turned ++ rooted)

def productWithin : Nat → List Term → Term
  | 0, ts => ofFactors ts
  | fuel + 1, ts =>
    match ts.filter fun t => !(t == one) with
    | [] => one
    | [t] => t
    | [.num q, t] =>
      match t with
      | .add _ => scale q t
      | .mul [.num _, .add _] => scale q t
      | t => finishWithin fuel ([Term.num q, t].foldl (gatherWithin fuel) .start)
    | [t, .num q] =>
      match t with
      | .add _ => scale q t
      | .mul [.num _, .add _] => scale q t
      | t => finishWithin fuel ([Term.num q, t].foldl (gatherWithin fuel) .start)
    | ts => finishWithin fuel (ts.foldl (gatherWithin fuel) .start)

def rootWithin : Nat → Rat → Rat → Term
  | 0, q, e => .pow (.num q) (.num e)
  | fuel + 1, q, e =>
    if q = -1 then
      if e.den = 2 then imaginaryPower e.num
      else
        let whole := e.floor
        if whole = 0 then .pow minusOne (.num e)
        else productWithin fuel [.num (if whole % 2 = 0 then 1 else -1), .pow minusOne (.num (e - whole))]
    else if q.den = 1 ∧ q < 0 ∧ e = 1 / 2 then productWithin fuel [.imaginary, powerWithin fuel (.num (-q)) (.num e)]
    else if e < 0 then
      let inverse := powerWithin fuel (.num (if q < 0 then -(1 / q) else 1 / q)) (.num (-e))
      if q < 0 then productWithin fuel [powerWithin fuel minusOne (.num e), inverse] else inverse
    else if q.den ≠ 1 then
      let whole : Int := if e.floor = 0 then 1 else e.floor + 1
      let rest := powerWithin fuel (.num q.den) (.num ((whole : Rat) - e))
      let out := Term.num (1 / ((q.den : Rat) ^ whole.toNat))
      if q.num = 1 then productWithin fuel [rest, out]
      else productWithin fuel [productWithin fuel [powerWithin fuel (.num q.num) (.num e), rest], out]
    else
      let s := rootOf q.num.natAbs e.num.toNat e.den
      if s.whole = 1 ∧ s.roots = [(q.num.natAbs, e)] then .pow (.num q) (.num e)
      else
        let size := productWithin fuel (.num s.whole :: s.roots.map fun (b, f) => .pow (.num b) (.num f))
        if q < 0 then productWithin fuel [size, powerWithin fuel minusOne (.num e)] else size

/-- A power of a power; the exponents are multiplied where that leaves the principal value as it is. -/
def nestedPowerWithin : Nat → Term → Term → Term → Option Term
  | 0, _, _, _ => none
  | fuel + 1, b, e, f =>
    let multiplied (b : Term) : Term := powerWithin fuel b (productWithin fuel [e, f])
    if f.isInteger then some (multiplied b)
    else
      match e, f with
      | .num r, .num h =>
        if r = -1 ∧ h.den = 2 ∧ b.isNegative then
          some (productWithin fuel [powerWithin fuel minusOne f, powerWithin fuel (negate b) (.num (-h))])
        else if r = -1 ∧ h.den = 2 ∧ b.isNonnegative then some (powerWithin fuel b (.num (-h)))
        else
          let even := r.den = 1 ∧ r.num % 2 = 0
          let b := if even then (if b.isNonnegative then b else if b.isNonpositive then negate b
            else if b.isReal then .call .abs [b] else b) else b
          if (-1 < r ∧ r < 1) ∨ b.isNonnegative then some (multiplied b) else none
      | e, _ =>
        match e.realValue? with
        | some r => if e.isConstant && ((-1 < r && r < 1) || b.isNonnegative) then some (multiplied b) else none
        | none => if e.isReal && b.isNonnegative then some (multiplied b) else none

/-- A power of a product with a fraction as exponent: the factors that are not negative come out of it. -/
def splitBaseWithin : Nat → List Term → Rat → Term
  | 0, ts, e => .pow (.mul ts) (.num e)
  | fuel + 1, ts, e =>
    let (out, inside) := (baseParts ts).settle
    let isNumberPower (t : Term) : Bool := match t with
      | .pow b (.num _) => b.isConstant
      | _ => false
    let numberPowers := (out.filter isNumberPower).map fun t => powerWithin fuel t (.num e)
    let others := (out.filter fun t => !isNumberPower t).map fun t => Term.pow t (.num e)
    let front := productWithin fuel [productWithin fuel numberPowers, productWithin fuel others]
    if inside.isEmpty then front
    else
      let rest := Term.pow (productWithin fuel inside) (.num e)
      if out.isEmpty then rest else productWithin fuel [front, rest]

def sumPowerWithin : Nat → Term → Rat → Option Term
  | 0, _, _ => none
  | fuel + 1, t, e =>
    match complexParts? t with
    | none => none
    | some (r, i) =>
      if e.den = 2 then
        (rationalRoot? (r * r + i * i)).map fun d =>
          let root := powerWithin fuel (powerWithin fuel (.num ((d - r) / 2)) half) (.num e.num)
          let (a, b) := complexPower ((d + r) / (if i < 0 then -i else i)) (if i < 0 then -1 else 1) e.num.natAbs
          let rest := if e.num < 0 then powerWithin fuel (ofComplexParts a b) minusOne else ofComplexParts a b
          productWithin fuel [root, rest]
      else if e = -1 then some (.mul [.num (1 / (r * r + i * i)), ofComplexParts r (-i)])
      else none

def powerWithin : Nat → Term → Term → Term
  | 0, b, e => .pow b e
  | fuel + 1, b, e =>
    match b, e with
    | _, .infinite => .undefined
    | _, .num 0 => one
    | b, .num 1 => b
    | .undefined, _ => .undefined
    | _, .undefined => .undefined
    | .num 1, _ => one
    | .num q, .num r => if r.den = 1 then integerPower q r.num else
        if q = 0 then (if r < 0 then .infinite else zero) else rootWithin fuel q r
    | .num 0, e =>
      if e.isPositive then zero
      else if e.isNegative then .infinite
      else
        let (c, rest) := splitCoefficient e
        if c < 0 then .pow .infinite rest else .pow zero rest
    | .imaginary, .num r =>
      if r.den = 1 then imaginaryPower r.num
      else
        let turns : Int := (r / 2).floor
        let rest := Term.pow .imaginary (.num (r - 2 * turns))
        if turns % 2 = 0 then rest else .mul [minusOne, rest]
    | .infinite, .num r => if r < 0 then zero else .infinite
    | .pow c f, e => (nestedPowerWithin fuel c f e).getD (.pow b e)
    | .mul ts, .num r =>
      if r.den = 1 then
        if hidesSign b then
          let p := powerWithin fuel (negate b) e
          if r.num % 2 = 0 then p else negate p
        else productWithin fuel (ts.map fun t => .pow t e)
      else
        match ts, rationalRoot? (match ts with | [.num c, .imaginary] => (if c < 0 then -c else c) / 2 | _ => -1) with
        | [.num c, .imaginary], some root =>
          if r.den = 2 then
            ofFactors (([powerWithin fuel (.num root) (.num r.num),
              powerWithin fuel (ofComplexParts 1 (if c < 0 then -1 else 1)) (.num r.num)]).filter fun t => !(t == one))
          else splitBaseWithin fuel ts r
        | ts, _ => splitBaseWithin fuel ts r
    | .add ts, .num r => (sumPowerWithin fuel (.add ts) r).getD (.pow b e)
    | b, e => .pow b e

end

def callDepth : Nat := 200

def product (ts : List Term) : Term := productWithin callDepth ts

def power (b e : Term) : Term := powerWithin callDepth b e

def quotient (a b : Term) : Term := product [a, power b minusOne]

end Metrology.Algebra.Term
