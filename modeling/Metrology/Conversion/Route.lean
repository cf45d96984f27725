import Metrology.Conversion.Weight
import Metrology.Graph.Search
import Metrology.Trace

/-! # Walking a route

A route is a list of hops. Walking it multiplies the factors along the way and applies their product only
before a formula and at the end, and then only if it is not one. Every step is accounted for.
-/
namespace Metrology

inductive Account where
  | path (units : List String)
  | multiply (target : String) (factor product : Float)
  | flush (product value : Float)
  | formula (source target : String) (f : Formula) (names : List String) (input output : Float)
  | cache (source target : String) (product : Float)

namespace Account

def kind : Account → String
  | .path _ => "path"
  | .multiply _ _ _ => "multiply"
  | .flush _ _ => "flush"
  | .formula _ _ _ _ _ _ => "formula"
  | .cache _ _ _ => "cache"

def step (a : Account) : Step Account := ⟨a.kind, a⟩

end Account

abbrev Route := List (Graph.Hop Weight)

/-- The end of a walk: the value, the product of the factors since the last flush, and the account. -/
structure Walk where
  value : Float
  product : Float
  account : List Account

namespace Route

def units (source : String) (route : Route) : List String := source :: route.map fun h => h.node

def multipliersOnly (route : Route) : Bool := route.all fun h => h.weight.isMultiplier

/-- A pending product is applied unless it is one. -/
def flush (value product : Float) : Float := if product != 1.0 then value * product else value

def flushAccount (value product : Float) : List Account :=
  if product != 1.0 then [.flush product (value * product)] else []

def walk (source : String) (value product : Float) : Route → Except Formula.EvalError Walk
  | [] => .ok ⟨value, product, []⟩
  | ⟨unit, .multiplier factor⟩ :: rest =>
    match walk unit value (product * factor) rest with
    | .error e => .error e
    | .ok w => .ok { w with account := .multiply unit factor (product * factor) :: w.account }
  | ⟨unit, .formula f names⟩ :: rest =>
    let input := flush value product
    match f.value (Formula.Bindings.all names input) with
    | .error e => .error e
    | .ok output =>
      match walk unit output 1.0 rest with
      | .error e => .error e
      | .ok w =>
        .ok { w with
          account := flushAccount value product ++ .formula source unit f names input output :: w.account }

end Route

end Metrology
