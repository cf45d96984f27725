import Metrology.Catalog.Basic
import Metrology.Text.Blank

/-! # Catalogs from document values

A catalog document is a mapping with the entries `units`, by category and unit, and `conversions`, by
category, source and target. An entry that is void counts as an empty mapping. `Catalog.ofValue` lists the
leaves in document order, all units before all conversions, and refuses the document at the first offending
place. Integers can be too large for a factor, or too long to be written out in a name or in a message;
reading breaks off there.
-/
namespace Metrology

inductive ReadError where
  | refused (e : CatalogError)
  /-- A factor lies beyond the largest double. -/
  | integerTooLarge
  /-- An integer in a name, or in a message, has too many digits to be written out. -/
  | integerTooLong

namespace Catalog

open Yaml (Value)

def entriesOf (v : Value) (place : List String) : Except ReadError (List (Value × Value)) :=
  match v with
  | .map entries => .ok entries
  | v => if v.isVoid then .ok [] else .error (.refused (.notAMapping place))

/-- The name that a value stands for, if it can be written out. -/
def nameOf (v : Value) : Except ReadError String := if v.isWritable then .ok v.label else .error .integerTooLong

def collect {α β : Type} (read : α → Except ReadError (List β)) : List α → Except ReadError (List β)
  | [] => .ok []
  | x :: rest =>
    match read x with
    | .error e => .error e
    | .ok found =>
      match collect read rest with
      | .error e => .error e
      | .ok more => .ok (found ++ more)

def symbol? : Value → Option String
  | .text s => if s.isEmpty then none else some s
  | _ => none

def symbols? : Value → Option (List String)
  | .text s => (symbol? (.text s)).map fun s => [s]
  | .list items => items.mapM symbol?
  | _ => none

/-- The name of a unit without abbreviations is not asked for. -/
def readUnit (category : String) (e : Value × Value) : Except ReadError (List UnitEntry) :=
  match symbols? e.2 with
  | some [] => .ok []
  | found =>
    match nameOf e.1 with
    | .error e => .error e
    | .ok unit =>
      match found with
      | some symbols => .ok (symbols.map fun s => ⟨unit, s, category⟩)
      | none => .error (.refused (.notAbbreviations ["units", category, unit]))

def readUnitCategory (e : Value × Value) : Except ReadError (List UnitEntry) :=
  match nameOf e.1 with
  | .error e => .error e
  | .ok category =>
    match entriesOf e.2 ["units", category] with
    | .error e => .error e
    | .ok units => collect (readUnit category) units

def notARule (place : List String) (v : Value) : ReadError :=
  if v.isWritable then .refused (.notARule place v) else .integerTooLong

/-- A number is a factor and a text that is not blank a formula. -/
def readRule (place : List String) (v : Value) : Except ReadError Rule :=
  match v with
  | .int n =>
    match Decimal.ofInt? n with
    | some x => .ok (.factor x)
    | none => .error .integerTooLarge
  | .float x => .ok (.factor x)
  | .text s => if (Text.strip s).isEmpty then .error (notARule place v) else .ok (.formula s)
  | v => .error (notARule place v)

def readTarget (category source : String) (e : Value × Value) : Except ReadError (List Definition) :=
  match nameOf e.1 with
  | .error e => .error e
  | .ok target =>
    match readRule ["conversions", category, source, target] e.2 with
    | .error e => .error e
    | .ok rule => .ok [⟨category, source, target, rule⟩]

def readSource (category : String) (e : Value × Value) : Except ReadError (List Definition) :=
  match nameOf e.1 with
  | .error e => .error e
  | .ok source =>
    match entriesOf e.2 ["conversions", category, source] with
    | .error e => .error e
    | .ok targets => collect (readTarget category source) targets

def readConversionCategory (e : Value × Value) : Except ReadError (List Definition) :=
  match nameOf e.1 with
  | .error e => .error e
  | .ok category =>
    match entriesOf e.2 ["conversions", category] with
    | .error e => .error e
    | .ok sources => collect (readSource category) sources

def readUnits (entries : List (Value × Value)) : Except ReadError UnitTable :=
  match entriesOf (Value.get entries "units") ["units"] with
  | .error e => .error e
  | .ok categories => collect readUnitCategory categories

def readDefinitions (entries : List (Value × Value)) : Except ReadError (List Definition) :=
  match entriesOf (Value.get entries "conversions") ["conversions"] with
  | .error e => .error e
  | .ok categories => collect readConversionCategory categories

def ofValue : Value → Except ReadError Catalog
  | .map entries =>
    match readUnits entries with
    | .error e => .error e
    | .ok units =>
      match readDefinitions entries with
      | .error e => .error e
      | .ok definitions => .ok ⟨units, definitions⟩
  | _ => .error (.refused .notACatalog)

end Catalog

end Metrology
