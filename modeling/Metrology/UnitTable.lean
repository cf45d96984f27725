import Metrology.Text.Folding

/-! # The table of units

A unit has a canonical name, belongs to a category and is written with one or more abbreviations, its symbols;
the table has an entry for each symbol. `UnitTable.resolve?` finds the entry that a user means: an exact
abbreviation first, then an abbreviation in any case, then a unit name in any case.
-/
namespace Metrology

structure UnitEntry where
  unit : String
  symbol : String
  category : String
  deriving DecidableEq, Repr

abbrev UnitTable := List UnitEntry

namespace UnitTable

def resolve? (table : UnitTable) (text : String) : Option UnitEntry :=
  (table.find? fun e => e.symbol == text)
    <|> (table.find? fun e => Text.fold e.symbol == Text.fold text)
    <|> (table.find? fun e => Text.fold e.unit == Text.fold text)

def abbreviationsFor (table : UnitTable) (unit category : String) : List String :=
  (table.filter fun e => e.unit == unit && e.category == category).map UnitEntry.symbol

def categories (table : UnitTable) : List String := (table.map UnitEntry.category).eraseDups

structure Row where
  unit : String
  category : String
  abbreviations : List String
  deriving DecidableEq, Repr

def insertRow (rows : List Row) (e : UnitEntry) : List Row :=
  match rows with
  | [] => [⟨e.unit, e.category, [e.symbol]⟩]
  | r :: rest =>
    if r.unit = e.unit ∧ r.category = e.category then
      { r with abbreviations := r.abbreviations ++ [e.symbol] } :: rest
    else r :: insertRow rest e

def rows (table : UnitTable) : List Row := table.foldl insertRow []

end UnitTable

end Metrology
