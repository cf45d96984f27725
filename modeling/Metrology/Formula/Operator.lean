/-! # Operators and functions

The vocabulary of formulas. `convert` is the arrow of conversion requests; it is read as a token and has no
meaning inside a formula.
-/
namespace Metrology.Formula

inductive Operator where
  | add
  | sub
  | mul
  | div
  | pow
  | mod
  | negate
  | convert
  deriving DecidableEq, Repr

def Operator.sign : Operator → String
  | .add => "+"
  | .sub => "-"
  | .mul => "*"
  | .div => "/"
  | .pow => "^"
  | .mod => "%"
  | .negate => "-"
  | .convert => "->"

def Operator.label : Operator → String
  | .add => "ADD"
  | .sub => "SUB"
  | .mul => "MUL"
  | .div => "DIV"
  | .pow => "POW"
  | .mod => "MOD"
  | .negate => "NEGATE"
  | .convert => "CONVERT"

/-- Operators of a higher rank bind their operands first. -/
def Operator.rank : Operator → Nat
  | .convert => 1
  | .add | .sub => 2
  | .mul | .div | .mod => 3
  | .pow | .negate => 4

def Operator.groupsLeft : Operator → Bool
  | .pow | .negate => false
  | _ => true

inductive Function where
  | max
  | min
  | sin
  | cos
  | tan
  deriving DecidableEq, Repr

def Function.name : Function → String
  | .max => "max"
  | .min => "min"
  | .sin => "sin"
  | .cos => "cos"
  | .tan => "tan"

def Function.label : Function → String
  | .max => "MAX"
  | .min => "MIN"
  | .sin => "SIN"
  | .cos => "COS"
  | .tan => "TAN"

/-- The extrema take any positive number of arguments, the trigonometric functions one. -/
def Function.variadic : Function → Bool
  | .max | .min => true
  | _ => false

end Metrology.Formula
