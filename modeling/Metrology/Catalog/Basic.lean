import Metrology.Formula.Basic
import Metrology.UnitTable
import Metrology.Yaml.Value

/-! # Catalogs

A catalog lists the units and declares how some of them are converted, either by a factor or by a formula in
terms of the source unit. Everything that can be wrong with a catalog is collected here with its wording.
-/
namespace Metrology

inductive Rule where
  | factor (x : Float)
  | formula (text : String)

structure Definition where
  category : String
  source : String
  target : String
  rule : Rule

structure Catalog where
  units : UnitTable
  definitions : List Definition

inductive Obstacle where
  | missing
  | directory
  /-- The path leads through something that is no directory. -/
  | notADirectory
  /-- A path, or a part of it, with too many characters. -/
  | tooLong
  deriving DecidableEq, Repr

def Obstacle.message : Obstacle → String
  | .missing => "[Errno 2] No such file or directory"
  | .notADirectory => "[Errno 20] Not a directory"
  | .directory => "[Errno 21] Is a directory"
  | .tooLong => "[Errno 36] File name too long"

/-- Why a catalog is refused. A place is the list of the keys that lead to it. -/
inductive CatalogError where
  | malformedDocument
  | notACatalog
  | notAMapping (place : List String)
  | notAbbreviations (place : List String)
  /-- The value of a conversion is neither a number nor a formula. -/
  | notARule (place : List String) (value : Yaml.Value)
  | zeroFactor (d : Definition)
  | invalidFormula (d : Definition) (e : Formula.ParseError)
  /-- A formula with variables that are no names of its source unit. -/
  | foreignNames (d : Definition) (text : String) (names expected : List String)
  | unreadable (path : String) (obstacle : Obstacle)

def placeText (place : List String) : String := ".".intercalate place

def Definition.arrow (d : Definition) : String := d.source ++ " → " ++ d.target

def CatalogError.message : CatalogError → String
  | .malformedDocument => "Invalid catalog YAML"
  | .notACatalog => "Catalog must be a mapping with 'units' and 'conversions'"
  | .notAMapping place => placeText place ++ " must be a mapping"
  | .notAbbreviations place => placeText place ++ " must be a list of abbreviations"
  | .notARule place value => placeText place ++ ": expected a number or formula, got " ++ value.shown
  | .zeroFactor d => d.category ++ ": " ++ d.arrow ++ " has a zero multiplier"
  | .invalidFormula d e => d.category ++ ": invalid formula for " ++ d.arrow ++ ": " ++ e.message
  | .foreignNames d text names expected =>
    d.category ++ ": formula " ++ Text.quoted text ++ " for " ++ d.arrow ++ " references " ++ Text.quotedList names
      ++ ", expected one of " ++ Text.quotedList expected
  | .unreadable path obstacle =>
    "Unable to read catalog " ++ path ++ ": " ++ obstacle.message ++ ": " ++ Text.quoted path

end Metrology
