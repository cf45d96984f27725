import Metrology.Algebra.Normal

/-! # Texts of terms

How terms are named in messages: roots as `sqrt(...)`, reciprocals as quotients, the terms of a sum in their
written order and the factors of a product by their sort keys.
-/
namespace Metrology.Algebra.Term

/-- How strongly a term holds together; a part is put in parentheses if it holds together less than what is
around it. -/
def strength : Term → Nat
  | .num q => if q < 0 then 40 else if q.den = 1 then 1000 else 50
  | .add _ => 40
  | .mul (.num c :: _) => if c < 0 then 40 else 50
  | .mul _ => 50
  | .pow _ _ => 60
  | .call _ _ => 70
  | _ => 1000

def enclose (level : Nat) (t : Term) (s : String) : String := if t.strength ≤ level then "(" ++ s ++ ")" else s

def turnedPower : Term → Term
  | .pow b e => if negateProduct e == one then b else .pow b (negateProduct e)
  | t => t

def isBelow : Term → Bool
  | .pow _ e => (splitCoefficient e).1 < 0
  | _ => false

def joinSigned : List (Bool × String) → String
  | [] => ""
  | (negative, s) :: rest =>
    (if negative then "-" else "") ++ s ++ String.join (rest.map fun p => (if p.1 then " - " else " + ") ++ p.2)

def signedText (t : Term) (s : String) : Bool × String :=
  match t, s.toList with
  | .add _, _ => (false, "(" ++ s ++ ")")
  | _, '-' :: rest => (true, String.ofList rest)
  | _, _ => (false, s)

def quotientText (above below : List String) : String :=
  let top := if above.isEmpty then "1" else "*".intercalate above
  match below with
  | [] => top
  | [s] => top ++ "/" ++ s
  | below => top ++ "/(" ++ "*".intercalate below ++ ")"

def textWithin : Nat → Term → String
  | 0, _ => ""
  | _ + 1, .num q => ratText q
  | fuel + 1, .pow b e =>
    let base := enclose 60 b (textWithin fuel b)
    if e == half then "sqrt(" ++ textWithin fuel b ++ ")"
    else if e == .num (-1 / 2) then "1/sqrt(" ++ textWithin fuel b ++ ")"
    else if e == minusOne then "1/" ++ base
    else base ++ "**" ++ enclose 60 e (textWithin fuel e)
  | fuel + 1, .mul ts =>
    let (c, rest) := splitCoefficient (.mul ts)
    let factors := sortWritten rest.factorsOf
    let size := if c < 0 then -c else c
    let part (t : Term) : String := enclose 50 t (textWithin fuel t)
    let above := (if size.num = 1 then [] else [toString size.num]) ++ (factors.filter fun t => !t.isBelow).map part
    let below := (if size.den = 1 then [] else [toString size.den]) ++
      ((factors.filter isBelow).map turnedPower).map part
    (if c < 0 then "-" else "") ++ quotientText above below
  | fuel + 1, .add ts =>
    joinSigned ((writtenTerms (.add ts)).map fun t => signedText t (textWithin fuel t))
  | fuel + 1, .call f ts =>
    let ts := if f = .max ∨ f = .min then sortWritten ts else ts
    f.name ++ "(" ++ ", ".intercalate (ts.map (textWithin fuel)) ++ ")"
  | _ + 1, t => t.atomText?.getD ""

def text (t : Term) : String := textWithin (t.size + 1) t

end Metrology.Algebra.Term
