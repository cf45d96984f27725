import Metrology.Conversion.Route
import Metrology.Request

/-! # Converters

A converter has a graph of units for each category, whose name is the graph's, and the table of all units. A
conversion takes a shortest route through the graph of its category. If caching is on, a route of several
factors leaves an edge behind that goes the way at once, so a conversion answers with the converter to be used
from then on.
-/
namespace Metrology

abbrev UnitGraph := Graph Weight

structure Converter where
  graphs : List UnitGraph
  table : UnitTable
  caching : Bool
  /-- The channel of the log that conversions report on. -/
  channel : String

structure Outcome where
  value : Float
  account : List Account
  converter : Converter

structure RequestOutcome where
  request : ResolvedRequest
  outcome : Outcome

namespace Converter

def categories (c : Converter) : List String := c.graphs.map Graph.id

def graph? (c : Converter) (category : String) : Option UnitGraph := c.graphs.find? fun g => g.id == category

def unitInfo (c : Converter) (text : String) : Except ConversionError UnitEntry :=
  let name := Text.strip text
  match c.table.resolve? name with
  | some u => .ok u
  | none => .error (.unknownUnit name)

def indexIn (g : UnitGraph) (unit : String) : Except ConversionError Nat :=
  match g.indexOf? unit with
  | some i => .ok i
  | none => .error (.notInCategory unit g.id)

structure Endpoints where
  graph : UnitGraph
  source : Nat
  target : Nat

/-- Finds the category, then the source, then the target. -/
def endpoints (c : Converter) (category source target : String) : Except ConversionError Endpoints :=
  match c.graph? category with
  | none => .error (.unknownCategory category)
  | some g =>
    match indexIn g source with
    | .error e => .error e
    | .ok s =>
      match indexIn g target with
      | .error e => .error e
      | .ok t => .ok ⟨g, s, t⟩

/-- A shortest route between two units; there may be none unless they are the same. -/
def route (e : Endpoints) (source target : String) : Except ConversionError Route :=
  match e.graph.shortestPath e.source e.target with
  | [] => if e.source = e.target then .ok [] else .error (.noPath source target)
  | hop :: rest => .ok (hop :: rest)

/-- Whether a route leaves an edge behind. -/
def caches (c : Converter) (route : Route) : Bool := c.caching && route.multipliersOnly && 1 < route.length

def remember (c : Converter) (e : Endpoints) (factor : Float) : Converter :=
  { c with
    graphs := c.graphs.map fun g =>
      if g.id == e.graph.id then g.link e.source e.target (.multiplier factor) else g }

def convert (c : Converter) (category source target : String) (value : Float) : Except ConversionError Outcome :=
  match c.endpoints category source target with
  | .error e => .error e
  | .ok ends =>
    match route ends source target with
    | .error e => .error e
    | .ok route =>
      match route.walk source value 1.0 with
      | .error e => .error (.formula e)
      | .ok w =>
        let account := .path (route.units source) :: w.account ++ Route.flushAccount w.value w.product
        let value := w.value * w.product
        if c.caches route then
          .ok ⟨value, account ++ [.cache source target w.product], c.remember ends w.product⟩
        else .ok ⟨value, account, c⟩

def convertText (c : Converter) (text : String) : Except ConversionError RequestOutcome :=
  match resolveRequest c.table text with
  | .error e => .error e
  | .ok r =>
    match c.convert r.category r.source.unit r.target.unit r.value with
    | .error e => .error e
    | .ok o => .ok ⟨r, o⟩

end Converter

def Outcome.trace (o : Outcome) : Trace Account := o.account.map Account.step

end Metrology
