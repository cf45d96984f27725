import Metrology.Algebra.Normal

/-! # Extrema

`extremum` evaluates a maximum or minimum. Nested ones of the same kind are joined, an argument that another
one dominates is left out, and what inner extrema of the other kind have in common is taken out of them.
Arguments are ordered by the number of nodes that they have when they are drawn, then by their sort keys.
-/
namespace Metrology.Algebra

def Callee.opposite : Callee → Callee
  | .max => .min
  | .min => .max
  | f => f

namespace Term

mutual

/-- Twice the number of nodes, where a term without parts counts as half of one. -/
def nodes : Term → Nat
  | .pow b e => nodes b + nodes e + 2
  | .mul ts => nodesOfAll ts + 2
  | .add ts => nodesOfAll ts + 2
  | .call _ ts => nodesOfAll ts + 2
  | _ => 1

def nodesOfAll : List Term → Nat
  | [] => 0
  | t :: rest => nodes t + nodesOfAll rest

end

def sortArguments (ts : List Term) : List Term :=
  let distinct := ts.foldl (fun found t => if found.contains t then found else found ++ [t]) []
  (sortWritten distinct).mergeSort fun s t => s.nodes ≤ t.nodes

def extremumOf (f : Callee) (ts : List Term) : Term :=
  match sortArguments ts with
  | [t] => t
  | ts => .call f ts

def isCallOf (f : Callee) : Term → Bool
  | .call g _ => g == f
  | _ => false

def dominates? (s t : Term) : Option Bool :=
  if s == t then some true
  else
    match (difference s t).signs? with
    | some d => if d.isNonnegative then some true else if d.isNonpositive then some false else none
    | none => none

/-- Leaves out what another argument dominates. Each argument is compared with those that have been kept so
far. -/
def dropDominated (f : Callee) (ts : List Term) : List Term :=
  ts.foldl insert []
where
  insert (kept : List Term) (t : Term) : List Term :=
    kept.foldl (settle t) kept ++ (if kept.any fun u => (dominates? t u).isSome then [] else [t])
  settle (t : Term) (kept : List Term) (u : Term) : List Term :=
    match dominates? t u with
    | some greater =>
      if t == u || (greater == (f == .max)) then (kept.filter fun v => !(v == u || v == t)) ++ [t] else kept
    | none => kept

def nestedExtrema : Nat → Term → List Term
  | 0, _ => []
  | fuel + 1, .call f ts =>
    if f == .max || f == .min then .call f ts :: ts.flatMap (nestedExtrema fuel) else []
  | _, _ => []

def moreExtreme (f : Callee) (a b : Term) : Bool :=
  match a.realValue?, b.realValue? with
  | some p, some q => if f == .max then q < p else p < q
  | _, _ => false

def mostExtreme? (f : Callee) (ts : List Term) : Option Term :=
  ts.foldl (fun found t => match found with
    | none => some t
    | some u => if moreExtreme f t u then some t else some u) none

/-- Leaves out inner extrema of the other kind that a constant decides. -/
def dropDecided (f : Callee) (ts : List Term) : List Term :=
  match ts with
  | [] => []
  | first :: _ =>
    if !first.isConstant then ts
    else
      let inner := (ts.flatMap fun t => (nestedExtrema t.size t).filter (isCallOf f)).filterMap fun t => match t with
        | .call _ (u :: _) => if u.isConstant then some u else none
        | _ => none
      match mostExtreme? f (inner ++ ts.takeWhile isConstant) with
      | none => ts
      | some bound => ts.filter fun t => match t with
        | .call g (u :: _) => !(g == f.opposite && u.isConstant && moreExtreme f bound u)
        | _ => true

def absorb (f : Callee) (a : Term) : Nat → Term → Term
  | 0, t => t
  | fuel + 1, .call g ts =>
    if !(g == .max || g == .min) then .call g ts
    else if ts.contains a then
      (if g == f then extremumOf g ((ts.filter fun t => !(t == a)).map (absorb f a fuel)) else a)
    else extremumOf g (ts.map (absorb f a fuel))
  | _, t => t

def absorbAll (f : Callee) : Nat → List Term → List Term
  | 0, ts => ts
  | _, [] => []
  | fuel + 1, t :: rest => t :: absorbAll f fuel (rest.map fun u => absorb f t u.size u)

def commonArguments : List (List Term) → List Term
  | [] => []
  | ts :: rest => ts.filter fun t => rest.all fun us => us.contains t

/-- Takes what inner extrema of the other kind have in common out of them. -/
def joinInner (f : Callee) (ts : List Term) : List Term :=
  let inner := ts.filter (isCallOf f.opposite)
  let others := ts.filter fun t => !isCallOf f.opposite t
  let lists := inner.map fun t => match t with
    | .call _ us => us
    | t => [t]
  let common := commonArguments lists
  if common.isEmpty then ts
  else
    let left := lists.map fun us => us.filter fun t => !common.contains t
    let rest := if left.all fun us => !us.isEmpty then [extremumOf f (left.map (extremumOf f.opposite))] else []
    others ++ [extremumOf f.opposite (common ++ rest)]

def extremum (f : Callee) (ts : List Term) : Term :=
  let parts := ts.flatMap fun t => match t with
    | .call g us => if g == f then us else [t]
    | t => [t]
  let ts := absorbAll f (parts.length + 1) (dropDecided f (sortArguments parts))
  let ts := if 1 < ts.length then joinInner f ts else ts
  extremumOf f (dropDominated f ts)

end Term

end Metrology.Algebra
