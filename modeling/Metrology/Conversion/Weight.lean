import Metrology.Formula.Basic

/-! # Weights of conversions

What an edge of a graph of units does: it multiplies by a factor, or it computes a formula in which every name
of the source unit stands for the value.
-/
namespace Metrology

inductive Weight where
  | multiplier (factor : Float)
  | formula (f : Formula) (names : List String)

namespace Weight

def text : Weight → String
  | .multiplier factor => "×" ++ Decimal.plain factor
  | .formula f _ => f.text

def isMultiplier : Weight → Bool
  | .multiplier _ => true
  | .formula _ _ => false

end Weight

end Metrology
