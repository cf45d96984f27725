import Metrology.Conversion.Route
import Metrology.Decimal.Style
import Metrology.UnitTable

/-! # Payloads

What the service answers with: nested data with named fields. Infinite and undefined numbers cannot be sent,
so `safe` replaces them by their texts, however deep they are.
-/
namespace Metrology.Service

inductive Payload where
  | flag (b : Bool)
  | count (n : Nat)
  | number (x : Float)
  | text (s : String)
  | list (items : List Payload)
  | record (fields : List (String × Payload))

namespace Payload

/-- A number, or its text if it is not finite. -/
def ofFloat (x : Float) : Payload := if x.isFinite then .number x else .text (Decimal.plain x)

def texts (xs : List String) : Payload := .list (xs.map .text)

mutual

def safe : Payload → Payload
  | .number x => ofFloat x
  | .list items => .list (safeItems items)
  | .record fields => .record (safeFields fields)
  | p => p

def safeItems : List Payload → List Payload
  | [] => []
  | p :: rest => safe p :: safeItems rest

def safeFields : List (String × Payload) → List (String × Payload)
  | [] => []
  | (name, p) :: rest => (name, safe p) :: safeFields rest

end

def ofRow (r : UnitTable.Row) : Payload :=
  .record [("unit", .text r.unit), ("category", .text r.category), ("abbreviations", texts r.abbreviations)]

def ofAccount : Account → Payload
  | .path units => .record [("units", texts units)]
  | .multiply target factor product =>
    .record [("to", .text target), ("factor", .number factor), ("multiplier", .number product)]
  | .flush product value => .record [("multiplier", .number product), ("value", .number value)]
  | .formula source target f _ input output =>
    .record [("from", .text source), ("to", .text target), ("formula", .text f.text), ("input", .number input),
      ("output", .number output)]
  | .cache source target product =>
    .record [("from", .text source), ("to", .text target), ("multiplier", .number product)]

def ofStep (s : Step Account) : Payload := .record [("kind", .text s.kind), ("detail", ofAccount s.detail)]

end Payload

end Metrology.Service
