import Metrology.Catalog.Basic

/-! # The standard catalog

Units of length, temperature, weight and capacity with the conversions between them. The first abbreviation of
a unit is the one that its formulas are written in when they are derived.
-/
namespace Metrology.Catalog

def standardUnits : List (String × List (String × List String)) := [
  ("Length", [
    ("Picometer", ["pm"]), ("Nanometer", ["nm"]), ("Micrometer", ["um", "μm"]), ("Millimeter", ["mm"]),
    ("Centimeter", ["cm"]), ("Meter", ["m"]), ("Kilometer", ["km"]), ("Megameter", ["Mm"]), ("Inch", ["in"]),
    ("Hand", ["hh"]), ("Foot", ["ft"]), ("Yard", ["yd"]), ("Fathom", ["ftm"]), ("Cable", ["cb"]), ("Mile", ["mi"]),
    ("League", ["lea"]), ("NauticalMile", ["nmi"]), ("LightYear", ["ly"])]),
  ("Temperature", [
    ("Celsius", ["C"]), ("Fahrenheit", ["F"]), ("Kelvin", ["K"]), ("Rankine", ["R"])]),
  ("Weight", [
    ("Milligram", ["mg"]), ("Centigram", ["cg"]), ("Gram", ["g"]), ("Kilogram", ["kg"]), ("Tonne", ["t"]),
    ("Grain", ["gr"]), ("Ounce", ["oz"]), ("Pound", ["lb", "lbs"]), ("Stone", ["st"]), ("Quarter", ["qr"]),
    ("Ton", ["ton"])]),
  ("Capacity", [
    ("Milliliter", ["ml"]), ("Centiliter", ["cl"]), ("Liter", ["l", "L"]), ("Kiloliter", ["kl"]),
    ("FluidOunce", ["floz"]), ("Gill", ["gi"]), ("Pint", ["pt"]), ("Quart", ["qt"]), ("Gallon", ["gal"])])]

/-- The conversions of each category: source, target, and a factor or a formula. -/
def standardRules : List (String × List (String × String × Rule)) := [
  ("Length", [
    ("Kilometer", "Meter", .factor 1000.0), ("Megameter", "Meter", .factor 1000000.0),
    ("Meter", "Centimeter", .factor 100.0), ("Meter", "Millimeter", .factor 1000.0),
    ("Meter", "Micrometer", .factor 1000000.0), ("Meter", "Nanometer", .factor 1000000000.0),
    ("Meter", "Picometer", .factor 1000000000000.0), ("Inch", "Centimeter", .factor 2.54),
    ("Hand", "Inch", .factor 4.0), ("Foot", "Inch", .factor 12.0), ("Yard", "Foot", .factor 3.0),
    ("Fathom", "Foot", .factor 6.0), ("Cable", "Fathom", .factor 100.0), ("Mile", "Yard", .factor 1760.0),
    ("League", "Mile", .factor 3.0), ("NauticalMile", "Meter", .factor 1852.0),
    ("LightYear", "Meter", .factor 9460730472580800.0)]),
  ("Temperature", [
    ("Celsius", "Fahrenheit", .formula "\x7bC\x7d * 9 / 5 + 32"),
    ("Celsius", "Kelvin", .formula "\x7bC\x7d + 273.15"),
    ("Fahrenheit", "Celsius", .formula "(\x7bF\x7d - 32) * 5 / 9"),
    ("Kelvin", "Celsius", .formula "\x7bK\x7d - 273.15"),
    ("Rankine", "Fahrenheit", .formula "\x7bR\x7d - 459.67")]),
  ("Weight", [
    ("Kilogram", "Gram", .factor 1000.0), ("Gram", "Milligram", .factor 1000.0), ("Gram", "Centigram", .factor 100.0),
    ("Tonne", "Kilogram", .factor 1000.0), ("Pound", "Gram", .factor 453.59237), ("Pound", "Ounce", .factor 16.0),
    ("Pound", "Grain", .factor 7000.0), ("Stone", "Pound", .factor 14.0), ("Quarter", "Stone", .factor 2.0),
    ("Ton", "Pound", .factor 2240.0)]),
  ("Capacity", [
    ("Liter", "Milliliter", .factor 1000.0), ("Liter", "Centiliter", .factor 100.0),
    ("Kiloliter", "Liter", .factor 1000.0), ("Gallon", "Quart", .factor 4.0), ("Gallon", "Liter", .factor 4.54609),
    ("Quart", "Pint", .factor 2.0), ("Pint", "Gill", .factor 4.0), ("Pint", "FluidOunce", .factor 20.0)])]

def standard : Catalog where
  units := standardUnits.flatMap fun (category, units) =>
    units.flatMap fun (unit, symbols) => symbols.map fun s => ⟨unit, s, category⟩
  definitions := standardRules.flatMap fun (category, rules) =>
    rules.map fun (source, target, rule) => ⟨category, source, target, rule⟩

end Metrology.Catalog
