import Metrology.Decimal.Style
import Metrology.UnitTable

/-! # What a session shows

The texts that answers are made of: values, the listing of all units, and the help.
-/
namespace Metrology.Session

def wantsExponent (x : Float) : Bool := x != 0.0 && (x.abs > 99999.0 || x.abs < 0.00009)

def valueText (x : Float) : String := if wantsExponent x then Decimal.scientific x else Decimal.plain x

def padRight (width : Nat) (s : String) : String := s ++ String.ofList (List.replicate (width - s.length) ' ')

/-- One line of the listing: two columns of 20 and 12 characters and a last one of any width. -/
def listingLine (unit category symbol : String) : String :=
  padRight 20 unit ++ " " ++ padRight 12 category ++ " " ++ symbol

def listing (table : UnitTable) : String :=
  "\n".intercalate
    (listingLine "Unit" "Category" "Abbreviation" :: table.map fun u => listingLine u.unit u.category u.symbol)

def help : String := "\n".intercalate [
  "Enter a conversion or an expression, one per line:",
  "  2km -> nmi          convert between units of the same category",
  "  20 C to F           'to' works as well as '->'",
  "  3 + 4 * 2           evaluate an arithmetic expression",
  "  km                  show the unit behind an abbreviation",
  "Commands:",
  "  units               list every known unit and abbreviation",
  "  help                show this text",
  "  exit                quit"]

end Metrology.Session
