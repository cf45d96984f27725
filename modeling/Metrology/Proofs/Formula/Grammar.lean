import Mathlib.Data.List.Basic
import Metrology.Formula.Parser

/-! # The grammar of formulas

Phrases in the order in which they bind: sums of products of powers of atoms. Sums and products group to the
left, powers to the right, and a negation takes the whole power that follows it. `Derives` relates the tokens
of a phrase to its tree.
-/
namespace Metrology.Formula

inductive Phrase where
  | sum
  | product
  | power
  | atom
  deriving DecidableEq

/-- The least rank of the operators of a phrase outside of its parentheses; an atom has none. -/
def Phrase.rank : Phrase → Nat
  | .sum => 2
  | .product => 3
  | .power => 4
  | .atom => 5

inductive Derives : Phrase → List Token → Tree → Prop where
  | ofProduct {ts : List Token} {t : Tree} (h : Derives .product ts t) : Derives .sum ts t
  | sum {op : Operator} {xs ys : List Token} {l r : Tree} (hop : op = .add ∨ op = .sub) (hl : Derives .sum xs l)
      (hr : Derives .product ys r) : Derives .sum (xs ++ .operator op :: ys) (.binary op l r)
  | ofPower {ts : List Token} {t : Tree} (h : Derives .power ts t) : Derives .product ts t
  | product {op : Operator} {xs ys : List Token} {l r : Tree} (hop : op = .mul ∨ op = .div ∨ op = .mod)
      (hl : Derives .product xs l) (hr : Derives .power ys r) :
      Derives .product (xs ++ .operator op :: ys) (.binary op l r)
  | ofAtom {ts : List Token} {t : Tree} (h : Derives .atom ts t) : Derives .power ts t
  | power {xs ys : List Token} {l r : Tree} (hl : Derives .atom xs l) (hr : Derives .power ys r) :
      Derives .power (xs ++ .operator .pow :: ys) (.binary .pow l r)
  | negated {xs : List Token} {t : Tree} (h : Derives .power xs t) :
      Derives .power (.operator .negate :: xs) (.unary .negate t)
  | number (value : Float) : Derives .atom [.number value] (.number value)
  | var (name : String) : Derives .atom [.var name] (.var name)
  | unit (name : String) : Derives .atom [.unit name] (.var name)
  | group {xs : List Token} {t : Tree} (h : Derives .sum xs t) :
      Derives .atom (.leftParen :: (xs ++ [.rightParen])) t
  /-- A call has one argument, or any positive number of them if its function is variadic. -/
  | call {f : Function} {args : List (List Token × Tree)} (hne : args ≠ [])
      (harity : f.variadic = true ∨ args.length = 1) (hargs : ∀ a ∈ args, Derives .sum a.1 a.2) :
      Derives .atom
        (.function f :: .leftParen :: ([Token.comma].intercalate (args.map Prod.fst) ++ [.rightParen]))
        (.call f (args.map Prod.snd))

/-- A phrase is a phrase of every looser kind. -/
theorem Derives.loosen {p q : Phrase} {ts : List Token} {t : Tree} (h : Derives q ts t) (hle : p.rank ≤ q.rank) :
    Derives p ts t := by
  cases q with
  | atom =>
    cases p with
    | sum => exact .ofProduct (.ofPower (.ofAtom h))
    | product => exact .ofPower (.ofAtom h)
    | power => exact .ofAtom h
    | atom => exact h
  | power =>
    cases p with
    | sum => exact .ofProduct (.ofPower h)
    | product => exact .ofPower h
    | power => exact h
    | atom => simp [Phrase.rank] at hle
  | product =>
    cases p with
    | sum => exact .ofProduct h
    | product => exact h
    | power => simp [Phrase.rank] at hle
    | atom => simp [Phrase.rank] at hle
  | sum =>
    cases p with
    | sum => exact h
    | product => simp [Phrase.rank] at hle
    | power => simp [Phrase.rank] at hle
    | atom => simp [Phrase.rank] at hle

end Metrology.Formula
