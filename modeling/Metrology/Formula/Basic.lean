import Metrology.Formula.Lexer
import Metrology.Formula.Parser
import Metrology.Formula.Value

/-! # Formulas

A formula is a text together with its tree. `Formula.read` makes one from a text, and `Formula.ofTree` from a
tree that was built otherwise. The wording of everything that can go wrong is collected here.
-/
namespace Metrology

open Formula

inductive Formula.ParseError where
  | lexical (e : LexError)
  | grammar (e : GrammarError)
  deriving DecidableEq, Repr

structure Formula where
  text : String
  tree : Tree

namespace Formula

/-- The wording of an error and the piece of the formula that it points at. -/
def LexError.parts : LexError → String × String
  | .badNumber text => ("Token is not a valid number", text)
  | .badOperator c => ("Token is not a valid operator", String.singleton c)
  | .unterminatedVariable text => ("Unterminated variable reference", text)
  | .emptyVariable text => ("Empty variable reference", text)

def GrammarError.parts : GrammarError → String × Option String
  | .emptyExpression => ("Expression is empty", none)
  | .strayComma => ("Unexpected ',' outside of function arguments", some ",")
  | .unopened => ("Mismatched parentheses", some ")")
  | .unclosed => ("Mismatched parentheses", some "(")
  | .emptyParens => ("Empty parentheses", some "()")
  | .functionWithoutParens f => ("Function must be followed by parenthesized arguments", some f.name)
  | .conversion => ("Conversions must be written as '<value><unit> -> <unit>'", some Operator.convert.sign)
  | .missingNegated => ("Missing operand for negation", some Operator.negate.sign)
  | .missingOperand op => ("Missing operand for operator", some op.sign)
  | .unevenArguments f => ("Malformed argument list", some f.name)
  | .noArguments f => ("Function requires at least one argument", some f.name)
  | .tooManyArguments f count => ("Function takes exactly one argument, got " ++ toString count, some f.name)
  | .leftover count =>
    ("Malformed expression: " ++ toString count ++ " values without operators between them", none)

def withPiece (message : String) : Option String → String
  | some piece => message ++ " (" ++ Text.quoted piece ++ ")"
  | none => message

def ParseError.message : ParseError → String
  | .lexical e => withPiece e.parts.1 (some e.parts.2)
  | .grammar e => withPiece e.parts.1 e.parts.2

def EvalError.message : EvalError → String
  | .unbound name => "Variable '" ++ name ++ "' is not bound in the evaluation context"
  | .noOperation op => "Operator '" ++ op.sign ++ "' has no operation"
  | .noArguments f => "Function '" ++ f.name ++ "' has no arguments"
  | .arithmetic e => e.message

def parseText (text : String) : Except ParseError Tree :=
  match tokenize text.toList with
  | .error e => .error (.lexical e)
  | .ok tokens =>
    match parse tokens with
    | .error e => .error (.grammar e)
    | .ok t => .ok t

def read (text : String) : Except ParseError Formula :=
  match parseText text with
  | .ok t => .ok ⟨text, t⟩
  | .error e => .error e

def ofTree (t : Tree) : Formula := ⟨t.render, t⟩

def vars (f : Formula) : List String := f.tree.vars

def value (f : Formula) (bind : Bindings) : Except EvalError Float := f.tree.eval bind

def shown (f : Formula) : String := "Expression(" ++ Text.quoted f.text ++ ")"

inductive Failure where
  | parse (e : ParseError)
  | eval (e : EvalError)
  deriving DecidableEq, Repr

def Failure.message : Failure → String
  | .parse e => e.message
  | .eval e => e.message

def evaluate (text : String) (bind : Bindings) : Except Failure Float :=
  match read text with
  | .error e => .error (.parse e)
  | .ok f =>
    match f.value bind with
    | .ok x => .ok x
    | .error e => .error (.eval e)

end Formula

end Metrology
