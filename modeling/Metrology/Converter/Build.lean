import Metrology.Algebra.Inversion
import Metrology.Catalog.Basic
import Metrology.Converter.Basic

/-! # Building converters

A builder has a graph for each category of its units and adds the definitions one after another. A definition
gives an edge from its source to its target. The edge back is derived, by the reciprocal of the factor or the
inverse of the formula, unless the way back is itself defined or the policy rules it out.
-/
namespace Metrology

structure Policy where
  reverse : Bool
  caching : Bool
  invert : Bool
  deriving DecidableEq, Repr

/-- Why building breaks off: something is wrong with the catalog, or the inverse of a formula has no
answer. -/
inductive BuildError where
  | refused (e : CatalogError)
  | inversion (d : Algebra.Dilemma)

structure Builder where
  policy : Policy
  units : UnitTable
  definitions : List Definition
  channel : String

namespace Builder

def empty (policy : Policy) (channel : String) : Builder := ⟨policy, [], [], channel⟩

def addUnits (b : Builder) (units : UnitTable) : Builder := { b with units := b.units ++ units }

def addDefinitions (b : Builder) (ds : List Definition) : Builder := { b with definitions := b.definitions ++ ds }

/-- The names that formulas may use for a unit: its abbreviations, then its own name. -/
def namesFor (b : Builder) (unit category : String) : List String := b.units.abbreviationsFor unit category ++ [unit]

def insertUnit (graphs : List UnitGraph) (u : UnitEntry) : List UnitGraph :=
  match graphs with
  | [] => [((Graph.empty u.category : UnitGraph).addNode u.unit).1]
  | g :: rest => if g.id = u.category then (g.addNode u.unit).1 :: rest else g :: insertUnit rest u

def unitGraphs (b : Builder) : List UnitGraph := b.units.foldl insertUnit []

def declares (b : Builder) (category source target : String) : Bool :=
  b.definitions.any fun d => d.category == category && d.source == source && d.target == target

def derivesBack (b : Builder) (d : Definition) : Bool :=
  b.policy.reverse && !b.declares d.category d.target d.source

/-- Reads the formula of a definition, which may use no names but those of its source. -/
def readFormula (b : Builder) (d : Definition) (text : String) : Except CatalogError Formula :=
  match Formula.read text with
  | .error e => .error (.invalidFormula d e)
  | .ok f =>
    let names := b.namesFor d.source d.category
    match f.vars.filter fun v => !names.contains v with
    | [] => .ok f
    | foreign => .error (.foreignNames d text foreign names)

/-- The weight of the way back of a formula; a formula with several names, or none, has none. -/
def inverseWeight (b : Builder) (d : Definition) (f : Formula) : Except BuildError (Option Weight) :=
  match f.vars with
  | [v] =>
    let names := b.namesFor d.target d.category
    match Algebra.invert f v (names.headD d.target) with
    | .ok found => .ok (found.map fun g => .formula g names)
    | .error e => .error (.inversion e)
  | _ => .ok none

def weights (b : Builder) (d : Definition) : Except BuildError (Weight × Option Weight) :=
  match d.rule with
  | .factor x =>
    if x == 0.0 then .error (.refused (.zeroFactor d))
    else .ok (.multiplier x, if b.derivesBack d then some (.multiplier (1.0 / x)) else none)
  | .formula text =>
    match b.readFormula d text with
    | .error e => .error (.refused e)
    | .ok f =>
      let forth : Weight := .formula f (b.namesFor d.source d.category)
      if b.derivesBack d && b.policy.invert then
        match b.inverseWeight d f with
        | .ok back => .ok (forth, back)
        | .error e => .error e
      else .ok (forth, none)

def addEnds (g : UnitGraph) (d : Definition) : Converter.Endpoints :=
  let (g, s) := g.addNode d.source
  let (g, t) := g.addNode d.target
  ⟨g, s, t⟩

def addEdges (g : UnitGraph) (d : Definition) (forth : Weight) (back : Option Weight) : UnitGraph :=
  let e := addEnds g d
  let g := e.graph.link e.source e.target forth
  match back with
  | some w => g.link e.target e.source w
  | none => g

/-- Links the ends of a definition; one whose category has no units is left out. -/
def linkDefinition (b : Builder) (graphs : List UnitGraph) (d : Definition) : Except BuildError (List UnitGraph) :=
  if graphs.any fun g => g.id == d.category then
    match b.weights d with
    | .error e => .error e
    | .ok (forth, back) =>
      .ok (graphs.map fun g => if g.id == d.category then addEdges g d forth back else g)
  else .ok graphs

def linkDefinitions (b : Builder) (graphs : List UnitGraph) : List Definition → Except BuildError (List UnitGraph)
  | [] => .ok graphs
  | d :: rest =>
    match b.linkDefinition graphs d with
    | .error e => .error e
    | .ok graphs => linkDefinitions b graphs rest

def build (b : Builder) : Except BuildError Converter :=
  match b.linkDefinitions b.unitGraphs b.definitions with
  | .error e => .error e
  | .ok graphs => .ok ⟨graphs, b.units, b.policy.caching, b.channel⟩

end Builder

def converterChannel : String := "unitconvert.converter"

def Catalog.builder (c : Catalog) (policy : Policy) (channel : String) : Builder :=
  ((Builder.empty policy channel).addUnits c.units).addDefinitions c.definitions

end Metrology
