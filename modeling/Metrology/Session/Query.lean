import Metrology.Converter.Basic
import Metrology.Formula.Basic
import Metrology.Session.Report

/-! # Queries

A query is the name of a unit, a request for a conversion, or a formula. A word that names no unit is not
taken for a formula, unless it is a number or a function.
-/
namespace Metrology.Session

inductive Answer where
  | shown (text : String)
  | refused (message : String)
  /-- The value of a formula failed in a way that has no wording of its own. -/
  | fault (e : Formula.EvalError)
  deriving DecidableEq

namespace Answer

def succeeded : Answer → Bool
  | .shown _ => true
  | _ => false

def output : Answer → String
  | .shown text => text ++ "\n"
  | _ => ""

def errors : Answer → String
  | .refused message => "ERROR " ++ message ++ "\n"
  | _ => ""

def ofEvalError : Formula.EvalError → Answer
  | .unbound name => .refused (Formula.EvalError.unbound name).message
  | e => .fault e

def ofFailure : Formula.Failure → Answer
  | .parse e => .refused e.message
  | .eval e => ofEvalError e

def ofConversionError : ConversionError → Answer
  | .formula e => ofEvalError e
  | e => .refused e.message

end Answer

def isWord (text : String) : Bool := !text.isEmpty && text.toList.all Text.isLetter

/-- The unit that a query names; only a word can name one. -/
def namedUnit? (table : UnitTable) (query : String) : Option UnitEntry :=
  if isWord query then table.resolve? query else none

def isName : Formula.Token → Bool
  | .unit _ => true
  | _ => false

def isUnknownWord (query : String) : Except Formula.LexError Bool :=
  if isWord query then
    match Formula.tokenize query.toList with
    | .error e => .error e
    | .ok tokens => .ok (tokens.all isName)
  else .ok false

def unitText (u : UnitEntry) : String := u.unit ++ " (" ++ u.category ++ ")"

def conversionText (r : RequestOutcome) : String :=
  valueText r.outcome.value ++ " " ++ Text.lower r.request.target.unit

def evaluate (query : String) : Answer :=
  match Formula.evaluate query Formula.Bindings.none with
  | .error e => .ofFailure e
  | .ok x => .shown (valueText x)

def ask (c : Converter) (query : String) : Answer × Converter :=
  match namedUnit? c.table query with
  | some u => (.shown (unitText u), c)
  | none =>
    match isUnknownWord query with
    | .error e => (.refused (Formula.ParseError.lexical e).message, c)
    | .ok true => (.refused ("Unknown command " ++ query), c)
    | .ok false =>
      if looksLikeRequest query then
        match c.convertText query with
        | .error e => (.ofConversionError e, c)
        | .ok r => (.shown (conversionText r), r.outcome.converter)
      else (evaluate query, c)

end Metrology.Session
