import Metrology.Conversion.Error
import Metrology.Decimal.Numeral
import Metrology.Text.Word

/-! # Conversion requests

A request is a numeral, a unit name, an arrow or the word `to`, and another unit name; blanks may stand
between all of these and have to stand around the word. `Request.read?` takes a text apart and
`Request.resolve` looks its names up.
-/
namespace Metrology

structure Request where
  amount : Decimal.Numeral
  source : String
  target : String
  deriving DecidableEq

namespace Request

/-- Takes the separator off the front: an arrow among blanks, or the word `to` in any case between blanks. -/
def readSeparator? (cs : List Char) : Option (List Char) :=
  match Text.stripLeft cs with
  | '-' :: '>' :: rest => some (Text.stripLeft rest)
  | t :: o :: b :: rest =>
    if (t = 't' ∨ t = 'T') ∧ (o = 'o' ∨ o = 'O') ∧ Text.isBlank b ∧ cs.head?.any Text.isBlank then
      some (Text.stripLeft rest)
    else none
  | _ => none

def readName? (cs : List Char) : Option (String × List Char) :=
  match cs.takeWhile Text.isNameChar with
  | [] => none
  | name => some (String.ofList name, cs.dropWhile Text.isNameChar)

def readChars? (cs : List Char) : Option Request := do
  let (amount, cs) ← Decimal.Numeral.readFront? (Text.stripLeft cs)
  let (source, cs) ← readName? (Text.stripLeft cs)
  let cs ← readSeparator? cs
  let (target, cs) ← readName? cs
  if Text.stripLeft cs = [] then some ⟨amount, source, target⟩ else none

def read? (text : String) : Option Request := readChars? text.toList

end Request

def looksLikeRequest (text : String) : Bool := (Request.read? text).isSome

structure ResolvedRequest where
  value : Float
  source : UnitEntry
  target : UnitEntry

def ResolvedRequest.category (r : ResolvedRequest) : String := r.source.category

/-- Reads a request and looks its names up, the source first. -/
def resolveRequest (table : UnitTable) (text : String) : Except ConversionError ResolvedRequest :=
  match Request.read? text with
  | none => .error (.notARequest text)
  | some r =>
    match table.resolve? r.source with
    | none => .error (.unknownUnit r.source)
    | some source =>
      match table.resolve? r.target with
      | none => .error (.unknownUnit r.target)
      | some target =>
        if source.category = target.category then .ok ⟨r.amount.value, source, target⟩
        else .error (.categoryMismatch source target)

end Metrology
