import Metrology.Formula.Basic
import Metrology.Log

/-! # What reading and evaluating a formula reports

The log records of the operations on formulas, each list in the order of the events.
-/
namespace Metrology.Formula

open Log (Record)

def lexerChannel : String := "unitconvert.tokenizer"

def parserChannel : String := "unitconvert.shunting_yard"

def evaluatorChannel : String := "unitconvert.evaluator"

def expressionChannel : String := "unitconvert.expression"

def scanRecords (text : String) : List Record :=
  let s := scan text.toList
  let warnings := s.skipped.map fun c =>
    (⟨.warning, lexerChannel,
      "Skipping unknown character " ++ Text.quoted (String.singleton c) ++ " in expression "
        ++ Text.quoted text⟩ : Record)
  let listing :=
    if s.failure.isSome then []
    else [(⟨.trace, lexerChannel,
      "Tokenized " ++ toString s.tokens.length ++ " token(s): " ++ tokensText s.tokens⟩ : Record)]
  ⟨.debug, lexerChannel, "Tokenizing expression " ++ Text.quoted text⟩ :: warnings ++ listing

/-- A parse draws the tree that it built and reports operands that were left over. -/
def treeRecords : Except GrammarError Tree → List Record
  | .ok t => [⟨.debug, parserChannel, "Built abstract syntax tree\n" ++ t.drawing⟩]
  | .error (.leftover count) =>
    [⟨.error, parserChannel,
      "Output stack contains " ++ toString count ++ " items, expected exactly 1"⟩]
  | .error _ => []

def readRecords (text : String) : List Record :=
  scanRecords text ++
    match tokenize text.toList with
    | .ok tokens => treeRecords (parse tokens)
    | .error _ => []

/-- Numbers in parentheses; a single one is followed by a comma. -/
def argumentsText : List Float → String
  | [x] => "(" ++ Decimal.plain x ++ ",)"
  | xs => "(" ++ ", ".intercalate (xs.map Decimal.plain) ++ ")"

def Operation.record : Operation → Record
  | .binary op left right result =>
    ⟨.debug, evaluatorChannel,
      "Operation: " ++ Decimal.plain left ++ " " ++ op.sign ++ " " ++ Decimal.plain right ++ " = "
        ++ Decimal.plain result⟩
  | .call f args result =>
    ⟨.debug, evaluatorChannel,
      "Applying function " ++ f.name ++ argumentsText args ++ " = " ++ Decimal.plain result⟩

def evalRecords (t : Tree) (bind : Bindings) : List Record := (t.work bind).map Operation.record

def evaluateRecords (text : String) (bind : Bindings) : List Record :=
  ⟨.info, expressionChannel, "Evaluating expression " ++ Text.quoted text⟩ :: readRecords text ++
    match parseText text with
    | .ok t => evalRecords t bind
    | .error _ => []

end Metrology.Formula
