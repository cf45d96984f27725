import Metrology.Formula.Basic
import Metrology.UnitTable

/-! # Why a conversion fails

Every cause for which a request for a conversion is refused, with its wording.
-/
namespace Metrology

inductive ConversionError where
  /-- The text is not a number with two unit names. -/
  | notARequest (text : String)
  /-- A name in a request that no entry of the table answers to. -/
  | unknownUnit (name : String)
  | categoryMismatch (source target : UnitEntry)
  | unknownCategory (category : String)
  /-- A unit that is no node of the category's graph. -/
  | notInCategory (unit category : String)
  | noPath (source target : String)
  /-- A formula on the route has no value. -/
  | formula (e : Formula.EvalError)
  deriving DecidableEq, Repr

def ConversionError.message : ConversionError → String
  | .notARequest text => "'" ++ text ++ "' is not a valid conversion; expected '<value><unit> -> <unit>'"
  | .unknownUnit name => "'" ++ name ++ "' is not a valid unit"
  | .categoryMismatch source target =>
    "Cannot convert " ++ source.unit ++ " (" ++ source.category ++ ") to " ++ target.unit ++ " ("
      ++ target.category ++ ")"
  | .unknownCategory category => "Unknown unit category '" ++ category ++ "'"
  | .notInCategory unit category => "'" ++ unit ++ "' is not a " ++ category ++ " unit"
  | .noPath source target => "No conversion path from " ++ source ++ " to " ++ target
  | .formula e => e.message

end Metrology
