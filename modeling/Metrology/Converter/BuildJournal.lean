import Metrology.Converter.Build
import Metrology.Formula.Journal

/-! # What building reports

The log records of `Builder.build`, in the order of the events, up to the definition that it fails at.
-/
namespace Metrology.Builder

open Log (Record)

def graphChannel : String := "unitconvert.graph"

def nodeRecords (g : UnitGraph) (unit : String) : List Record :=
  match g.indexOf? unit with
  | some _ => []
  | none =>
    [⟨.debug, graphChannel,
      "Inserting new node for value " ++ Text.quoted unit ++ " at index " ++ toString g.size⟩]

def graphOf (graphs : List UnitGraph) (category : String) : UnitGraph :=
  (graphs.find? fun g => g.id == category).getD (Graph.empty category)

def unitRecords (graphs : List UnitGraph) : List UnitEntry → List Record
  | [] => []
  | u :: rest => nodeRecords (graphOf graphs u.category) u.unit ++ unitRecords (insertUnit graphs u) rest

def endRecords (g : UnitGraph) (d : Definition) : List Record :=
  nodeRecords g d.source ++ nodeRecords (g.addNode d.source).1 d.target

/-- Reading a formula reports, and so does a way back that is not derived from a formula without exactly one
name. -/
def ruleRecords (b : Builder) (d : Definition) : List Record :=
  match d.rule with
  | .factor _ => []
  | .formula text =>
    Formula.readRecords text ++
      match b.readFormula d text with
      | .error _ => []
      | .ok f =>
        if b.derivesBack d && b.policy.invert && f.vars.length != 1 then
          [⟨.warning, b.channel, "Not inverting constant formula " ++ Text.quoted f.text⟩]
        else []

def definitionRecords (b : Builder) (graphs : List UnitGraph) (d : Definition) : List Record :=
  match graphs.find? fun g => g.id == d.category with
  | none =>
    [⟨.warning, b.channel,
      "Skipping " ++ d.arrow ++ ": category '" ++ d.category ++ "' has no unit definitions"⟩]
  | some g => endRecords g d ++ b.ruleRecords d

def summary (graphs : List UnitGraph) : String :=
  "Built " ++ toString graphs.length ++ " unit graph(s): " ++
    ", ".intercalate (graphs.map fun g => g.id ++ " (" ++ toString g.size ++ " units)")

def definitionsRecords (b : Builder) (graphs : List UnitGraph) : List Definition → List Record
  | [] => [⟨.info, b.channel, summary graphs⟩]
  | d :: rest =>
    b.definitionRecords graphs d ++
      match b.linkDefinition graphs d with
      | .error _ => []
      | .ok graphs => definitionsRecords b graphs rest

def records (b : Builder) : List Record :=
  unitRecords [] b.units ++ b.definitionsRecords b.unitGraphs b.definitions

end Metrology.Builder
