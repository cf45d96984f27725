/-! # Ranges of code points

Character classes are given by tables of closed ranges. `inRanges` looks a character up in one.
-/
namespace Metrology.Text

def inRanges (ranges : List (Nat × Nat)) (c : Char) : Bool :=
  ranges.any fun r => r.1 ≤ c.toNat && c.toNat ≤ r.2

end Metrology.Text
