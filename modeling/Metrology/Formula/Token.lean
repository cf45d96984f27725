import Metrology.Decimal.Style
import Metrology.Formula.Operator
import Metrology.Text.Quoted

/-! # Tokens

The words of a formula. `Token.text` is the form that tokens are listed in for diagnosis.
-/
namespace Metrology.Formula

inductive Token where
  | operator (op : Operator)
  | function (f : Function)
  | number (value : Float)
  | leftParen
  | rightParen
  | comma
  /-- A bare name. -/
  | unit (name : String)
  /-- A name in braces. -/
  | var (name : String)
  deriving DecidableEq

/-- A minus after nothing, an opening parenthesis, a comma or an operator has no left operand. -/
def Token.opensOperand : Token → Bool
  | .leftParen | .comma | .operator _ => true
  | _ => false

def Operator.listing (op : Operator) : String :=
  let sign := if op = .negate then "neg" else op.sign
  "<Operator." ++ op.label ++ ": '" ++ sign ++ "'>"

def Function.listing (f : Function) : String :=
  "<Function." ++ f.label ++ ": '" ++ f.name ++ "'>"

def Token.text : Token → String
  | .operator op => "Token(OPERATOR, " ++ op.listing ++ ")"
  | .function f => "Token(FUNCTION, " ++ f.listing ++ ")"
  | .number value => "Token(NUMBER, " ++ Decimal.plain value ++ ")"
  | .leftParen => "Token(LEFT_PAREN)"
  | .rightParen => "Token(RIGHT_PAREN)"
  | .comma => "Token(COMMA)"
  | .unit name => "Token(UNIT, " ++ Text.quoted name ++ ")"
  | .var name => "Token(VARIABLE, " ++ Text.quoted name ++ ")"

def tokensText (tokens : List Token) : String :=
  "[" ++ ", ".intercalate (tokens.map Token.text) ++ "]"

end Metrology.Formula
