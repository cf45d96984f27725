/-! # Runs of equally shifted code points

Most case maps move a whole run of code points by one distance: the letters of an alphabet, or every second
code point where capital and small letters alternate.
-/
namespace Metrology.Text

/-- The members `first`, `first + step`, … up to `last`, each moved by `shift`. -/
structure CaseRun where
  first : Nat
  last : Nat
  step : Nat
  shift : Int

def CaseRun.covers (run : CaseRun) (n : Nat) : Bool :=
  run.first ≤ n && n ≤ run.last && (n - run.first) % run.step == 0

def shiftBy (runs : List CaseRun) (c : Char) : Char :=
  match runs.find? fun run => run.covers c.toNat with
  | some run => Char.ofNat (Int.toNat (c.toNat + run.shift))
  | none => c

end Metrology.Text
