import Metrology.Yaml.Node
import Metrology.Yaml.Value

/-! # Values of nodes

The nodes of a document get their values level by level: the parts of a collection come after all collections
that lie less deep. The first part that cannot be read decides how a document fails. An entry of a mapping
whose key is the sign of a merge puts the entries of other mappings before those of its own.
-/
namespace Metrology.Yaml

/-- Why a text has no value. A tagged scalar can be unreadable in several ways. -/
inductive DocumentError where
  | malformed
  | notABoolean
  | emptyNumber
  | malformedNumber
  | numberTooLarge
  | notAMoment
  /-- A collection where a moment has to be written out. -/
  | collectedMoment
  | impossibleMoment
  | impossibleCharacter
  | characterTooLarge
  deriving DecidableEq

inductive Part where
  | value (v : Value)
  | node (n : Nat)

inductive Content where
  | list (items : List Part)
  | map (entries : List (Value × Part))
  | set (elements : List Value)
  | pairs (entries : List (Part × Part))

/-- The nodes, as merges have left them, the collections that have been begun, and those of the next level. -/
structure Building where
  nodes : Array Node
  contents : Array (Option Content)
  waiting : List Nat

abbrev Builder := StateT Building (Except DocumentError)

namespace Builder

def node (n : Nat) : Builder Node := do
  match (← get).nodes[n]? with
  | some node => return node
  | none => throw .malformed

def setShape (n : Nat) (shape : Shape) : Builder Unit :=
  modify fun b => { b with nodes := b.nodes.modify n fun node => { node with shape } }

def setContent (n : Nat) (c : Content) : Builder Unit :=
  modify fun b => { b with contents := b.contents.setIfInBounds n (some c) }

def collection (n : Nat) : Builder Part := do
  let b ← get
  if (b.contents[n]?.bind id).isNone then
    set { b with contents := b.contents.setIfInBounds n (some (.list [])), waiting := n :: b.waiting }
  return .node n

end Builder

open Metrology.Yaml.Builder

def numberError : NumberError → DocumentError
  | .empty => .emptyNumber
  | .malformed => .malformedNumber
  | .tooLarge => .numberTooLarge

def momentValue (cs : List Char) : Except DocumentError Value :=
  match readMoment cs with
  | some (m, _) => if m.isValid then .ok (.moment m) else .error .impossibleMoment
  | none => .error .notAMoment

def scalarValue (kind : Kind) (text : String) : Except DocumentError Value :=
  match kind with
  | .null => .ok .null
  | .bool =>
    match booleans.lookup (Text.lower text) with
    | some b => .ok (.bool b)
    | none => .error .notABoolean
  | .int =>
    match readInt text with
    | .ok n => .ok (.int n)
    | .error e => .error (numberError e)
  | .float =>
    match readFloatText text with
    | .ok x => .ok (.float x)
    | .error e => .error (numberError e)
  | .bytes =>
    match readBytes64 text.toList with
    | some bs => .ok (.bytes bs)
    | none => .error .malformed
  | .moment => momentValue text.toList
  | .text => .ok (.text text)
  | _ => .error .malformed

def kindAt (n : Nat) : Builder (Option Kind) := return (← node n).kind

def textOf (n : Nat) : Nat → Builder String
  | 0 => throw .malformed
  | bound + 1 => do
    match (← node n).shape with
    | .scalar text => return text
    | .sequence _ => throw .malformed
    | .mapping entries =>
      match ← entries.findM? fun e => return (← kindAt e.1) == some .equals with
      | some e => textOf e.2 bound
      | none => throw .malformed

def partOf (n : Nat) : Builder Part := do
  let found ← node n
  match found.kind with
  | none => throw .malformed
  | some .list => collection n
  | some .map => collection n
  | some .set => collection n
  | some .pairs => collection n
  | some kind =>
    let text ← textOf n (← get).nodes.size
    match kind, found.shape with
    | .moment, .mapping _ => throw .collectedMoment
    | kind, _ =>
      match scalarValue kind text with
      | .ok v => return .value v
      | .error e => throw e

def entriesAt (n : Nat) : Builder (List (Nat × Nat)) := do
  match (← node n).shape with
  | .mapping entries => return entries
  | _ => throw .malformed

/-- Goes through the entries of a mapping from the one at `index` on. The entries merged in so far are put
before the others at the end; a key that is an equals sign stands for itself. -/
def merge (n index : Nat) (merged : List (Nat × Nat)) : Nat → Builder Unit
  | 0 => throw .malformed
  | bound + 1 => do
    let entries ← entriesAt n
    match entries[index]? with
    | none => setShape n (.mapping (merged ++ entries))
    | some (k, v) =>
      match ← kindAt k with
      | some .merge =>
        setShape n (.mapping (entries.eraseIdx index))
        match (← node v).shape with
        | .mapping _ =>
          merge v 0 [] bound
          merge n index (merged ++ (← entriesAt v)) bound
        | .sequence items =>
          let found ← items.mapM fun item => do
            discard (entriesAt item)
            merge item 0 [] bound
            entriesAt item
          merge n index (merged ++ found.reverse.flatten) bound
        | .scalar _ => throw .malformed
      | some .equals =>
        modify fun b => { b with nodes := b.nodes.modify k fun node => { node with kind := some .text } }
        merge n (index + 1) merged bound
      | _ => merge n (index + 1) merged bound

/-- Gives a key a new part at its old place, or adds it at the end. -/
def insertPart (entries : List (Value × Part)) (key : Value) (part : Part) : List (Value × Part) :=
  match entries with
  | [] => [(key, part)]
  | (k, p) :: rest => if Value.sameKey k key then (k, part) :: rest else (k, p) :: insertPart rest key part

def entriesOf (n : Nat) : Builder (List (Value × Part)) := do
  let size := (← get).nodes.size + 4
  merge n 0 [] (8 * size * size)
  (← entriesAt n).foldlM (fun found e => do
    match ← partOf e.1 with
    | .node _ => throw .malformed
    | .value key => return insertPart found key (← partOf e.2)) []

def pairOf (n : Nat) : Builder (Part × Part) := do
  match ← entriesAt n with
  | [(k, v)] => return (← partOf k, ← partOf v)
  | _ => throw .malformed

def fill (n : Nat) : Builder Unit := do
  let found ← node n
  match found.kind, found.shape with
  | some .list, .sequence items => setContent n (.list (← items.mapM partOf))
  | some .map, .mapping _ => setContent n (.map (← entriesOf n))
  | some .set, .mapping _ => setContent n (.set ((← entriesOf n).map Prod.fst))
  | some .pairs, .sequence items => setContent n (.pairs (← items.mapM pairOf))
  | _, _ => throw .malformed

/-- Fills the collections level by level; each level has one that has not been met before. -/
def fillLevels : Nat → Builder Unit
  | 0 => return ()
  | bound + 1 => do
    match (← get).waiting with
    | [] => return ()
    | level =>
      modify fun b => { b with waiting := [] }
      level.reverse.forM fill
      fillLevels bound

/-- A collection as a value. The outer levels are written out even where a collection is met inside itself;
below them `path` holds the collections around a part. -/
def Part.unfold (contents : Array (Option Content)) : Nat → Nat → List Nat → Part → Value
  | 0, _, _, _ => .null
  | _ + 1, _, _, .value v => v
  | bound + 1, levels, path, .node n =>
    match contents[n]?.bind id with
    | none => .null
    | some content =>
      if path.contains n then .loop (content matches .map _)
      else
        let path := if levels = 0 then n :: path else path
        let part := unfold contents bound (levels - 1) path
        match content with
        | .list items => .list (items.map part)
        | .map entries => .map (entries.map fun (k, p) => (k, part p))
        | .set elements => .set elements
        | .pairs entries => .list (entries.map fun (a, b) => .pair (part a) (part b))

def openLevels : Nat := 4

def Graph.value (g : Graph) : Except DocumentError Value :=
  let build : Builder Part := do
    let root ← partOf g.root
    fillLevels (g.nodes.size + 1)
    return root
  match build.run ⟨g.nodes, Array.replicate g.nodes.size none, []⟩ with
  | .ok (root, b) => .ok (root.unfold b.contents (openLevels + g.nodes.size + 2) openLevels [])
  | .error e => .error e

end Metrology.Yaml
