import Metrology.Converter.Basic
import Metrology.Formula.Journal

/-! # What conversions report

The log records of the operations of a converter, each list in the order of the events.
-/
namespace Metrology

open Log (Record)

def requestChannel : String := "unitconvert.units"

def unresolvedRecord (name : String) : Record :=
  ⟨.warning, requestChannel, "Unable to resolve " ++ Text.quoted name ++ " to a known unit"⟩

def resolvedRecord (r : Request) (source target : UnitEntry) : Record :=
  ⟨.debug, requestChannel,
    "Resolved " ++ Text.quoted r.source ++ " → " ++ source.unit ++ " and " ++ Text.quoted r.target ++ " → "
      ++ target.unit⟩

def requestRecords (table : UnitTable) (text : String) : List Record :=
  ⟨.info, requestChannel, "Attempting to parse conversion " ++ Text.quoted text⟩ ::
    match Request.read? text with
    | none => []
    | some r =>
      match table.resolve? r.source, table.resolve? r.target with
      | none, _ => [unresolvedRecord r.source]
      | some _, none => [unresolvedRecord r.target]
      | some source, some target => [resolvedRecord r source target]

def Account.records (channel source target : String) : Account → List Record
  | .path units =>
    [⟨.debug, channel, "Conversion path " ++ source ++ " → " ++ target ++ ": " ++ " → ".intercalate units⟩]
  | .multiply _ _ _ => []
  | .flush _ _ => []
  | .formula previous unit f names input output =>
    Formula.evalRecords f.tree (Formula.Bindings.all names input) ++
      [⟨.debug, channel,
        "Formula " ++ f.text ++ ": " ++ previous ++ "(" ++ Decimal.plain input ++ ") → " ++ unit ++ "("
          ++ Decimal.plain output ++ ")"⟩]
  | .cache source target product =>
    [⟨.info, channel, "Cached " ++ source ++ " → " ++ target ++ " as ×" ++ Decimal.plain product⟩]

namespace Converter

def convertRecords (c : Converter) (category source target : String) (value : Float) : List Record :=
  match c.convert category source target value with
  | .ok o => o.account.flatMap fun a => a.records c.channel source target
  | .error (.noPath source target) =>
    [⟨.warning, c.channel, "No conversion path from " ++ source ++ " to " ++ target⟩]
  | .error _ => []

def convertTextRecords (c : Converter) (text : String) : List Record :=
  requestRecords c.table text ++
    match resolveRequest c.table text with
    | .ok r => c.convertRecords r.category r.source.unit r.target.unit r.value
    | .error _ => []

end Converter

end Metrology
