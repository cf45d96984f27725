import Metrology.Decimal.Style
import Metrology.Yaml.Bytes
import Metrology.Yaml.Moment
import Metrology.Yaml.Number

/-! # Document values

What a document holds once it has been read. A mapping keeps the order of its keys, and no two of its keys are
the same: `Value.insert` gives a key that is present a new value at its old place. Keys that are numbers or
truth values are the same if they are equal as numbers. A list or mapping inside itself is not written out
again but left as a loop.
-/
namespace Metrology.Yaml

inductive Value where
  | null
  | bool (b : Bool)
  | int (n : Int)
  | float (x : Float)
  | text (s : String)
  | bytes (bs : List Nat)
  | moment (m : Moment)
  | list (items : List Value)
  | map (entries : List (Value × Value))
  /-- The elements of a set, of which no two are the same. -/
  | set (elements : List Value)
  | pair (first second : Value)
  /-- A list or mapping that this value is a part of. -/
  | loop (isMap : Bool)

namespace Value

/-- Values that count as absent: nothing, falsehood, zero, and what is empty. -/
def isVoid : Value → Bool
  | .null => true
  | .bool b => !b
  | .int n => n == 0
  | .float x => x == 0.0
  | .text s => s.isEmpty
  | .bytes bs => bs.isEmpty
  | .moment _ => false
  | .list items => items.isEmpty
  | .map entries => entries.isEmpty
  | .set elements => elements.isEmpty
  | .pair _ _ => false
  | .loop _ => false

mutual

def shown : Value → String
  | .null => "None"
  | .bool b => if b then "True" else "False"
  | .int n => toString n
  | .float x => Decimal.plain x
  | .text s => Text.quoted s
  | .bytes bs => shownBytes bs
  | .moment m => m.shown
  | .list items => "[" ++ ", ".intercalate (shownAll items) ++ "]"
  | .map entries => "\x7b" ++ ", ".intercalate (shownEntries entries) ++ "\x7d"
  | .set [] => "set()"
  | .set elements => "\x7b" ++ ", ".intercalate (shownAll elements) ++ "\x7d"
  | .pair a b => "(" ++ a.shown ++ ", " ++ b.shown ++ ")"
  | .loop isMap => if isMap then "\x7b...\x7d" else "[...]"

def shownAll : List Value → List String
  | [] => []
  | v :: rest => v.shown :: shownAll rest

def shownEntries : List (Value × Value) → List String
  | [] => []
  | (k, v) :: rest => (k.shown ++ ": " ++ v.shown) :: shownEntries rest

end

/-- The least number with too many decimal digits to be written out. -/
@[irreducible] def writtenBound : Nat := Nat.pow 10 digitLimit

mutual

def isWritable : Value → Bool
  | .int n => n.natAbs < writtenBound
  | .list items => allWritable items
  | .map entries => entriesWritable entries
  | .set elements => allWritable elements
  | .pair a b => a.isWritable && b.isWritable
  | _ => true

def allWritable : List Value → Bool
  | [] => true
  | v :: rest => v.isWritable && allWritable rest

def entriesWritable : List (Value × Value) → Bool
  | [] => true
  | (k, v) :: rest => k.isWritable && v.isWritable && entriesWritable rest

end

def label : Value → String
  | .text s => s
  | .moment m => m.label
  | v => v.shown

def rational? : Value → Option Rat
  | .bool b => some (if b then 1 else 0)
  | .int n => some n
  | .float x =>
    match Decimal.Double.ofFloat x with
    | .finite negative m e =>
      let q : Rat := (m * Decimal.powUp 2 e : Nat) / (Decimal.powDown 2 e : Nat)
      some (if negative then -q else q)
    | _ => none
  | _ => none

def sameKey (a b : Value) : Bool :=
  match a.rational?, b.rational? with
  | some p, some q => p == q
  | none, none =>
    match a, b with
    | .null, .null => true
    | .float x, .float y => x == y || (x.isNaN && y.isNaN)
    | .text s, .text t => s == t
    | .bytes s, .bytes t => s == t
    | .moment m, .moment n => m.same n
    | _, _ => false
  | _, _ => false

def insert (entries : List (Value × Value)) (key value : Value) : List (Value × Value) :=
  match entries with
  | [] => [(key, value)]
  | (k, v) :: rest => if sameKey k key then (k, value) :: rest else (k, v) :: insert rest key value

def ofEntries (entries : List (Value × Value)) : Value :=
  .map (entries.foldl (fun m e => insert m e.1 e.2) [])

/-- The value of a mapping's key that is a text; a key that is absent has none. -/
def get (entries : List (Value × Value)) (key : String) : Value :=
  match entries.find? fun e => sameKey e.1 (.text key) with
  | some e => e.2
  | none => .null

end Value

end Metrology.Yaml
