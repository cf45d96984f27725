import Metrology.Decimal.Style
import Metrology.Formula.Operator

/-! # Formula trees

A tree is a number, a variable, an operator over its operands, or a function call. `render` writes it on one
line with all parentheses, `draw` as one line per node with the branches drawn before it, and `names` lists
its variables from left to right.
-/
namespace Metrology.Formula

inductive Tree where
  | number (value : Float)
  | var (name : String)
  | binary (op : Operator) (left right : Tree)
  | unary (op : Operator) (operand : Tree)
  | call (f : Function) (args : List Tree)

namespace Tree

/-- A number is put in parentheses unless it is at least zero. -/
def renderNumber (value : Float) : String :=
  if value ≥ 0.0 then Decimal.plain value else "(" ++ Decimal.plain value ++ ")"

mutual

def render : Tree → String
  | .number value => renderNumber value
  | .var name => "\x7b" ++ name ++ "\x7d"
  | .binary op left right => "(" ++ left.render ++ " " ++ op.sign ++ " " ++ right.render ++ ")"
  | .unary _ operand => "-" ++ operand.render
  | .call f args => f.name ++ "(" ++ ", ".intercalate (renderAll args) ++ ")"

def renderAll : List Tree → List String
  | [] => []
  | t :: rest => t.render :: renderAll rest

end

def label : Tree → String
  | .number value => Decimal.compact value
  | .var name => "\x7b" ++ name ++ "\x7d"
  | .binary op _ _ => op.sign
  | .unary op _ => op.sign
  | .call f _ => f.name

mutual

/-- The lines of a drawing: `first` stands before the node itself and `below` before all lines under it. -/
def drawFrom (first below : String) : Tree → List String
  | .number value => [first ++ label (.number value)]
  | .var name => [first ++ label (.var name)]
  | .binary op left right =>
    (first ++ op.sign) :: left.drawFrom (below ++ "├── ") (below ++ "│   ")
      ++ right.drawFrom (below ++ "└── ") (below ++ "    ")
  | .unary op operand => (first ++ op.sign) :: operand.drawFrom (below ++ "└── ") (below ++ "    ")
  | .call f args => (first ++ f.name) :: drawArgs below args

def drawArgs (below : String) : List Tree → List String
  | [] => []
  | t :: rest =>
    match rest with
    | [] => t.drawFrom (below ++ "└── ") (below ++ "    ")
    | _ :: _ => t.drawFrom (below ++ "├── ") (below ++ "│   ") ++ drawArgs below rest

end

def draw (t : Tree) : List String := t.drawFrom "" ""

def drawing (t : Tree) : String := "\n".intercalate t.draw

mutual

def names : Tree → List String
  | .number _ => []
  | .var name => [name]
  | .binary _ left right => left.names ++ right.names
  | .unary _ operand => operand.names
  | .call _ args => namesAll args

def namesAll : List Tree → List String
  | [] => []
  | t :: rest => t.names ++ namesAll rest

end

/-- The distinct variables in the order of their code points. -/
def vars (t : Tree) : List String := t.names.eraseDups.mergeSort fun a b => !(b < a)

end Tree

end Metrology.Formula
