import Metrology.Text.Lowercase
import Metrology.Yaml.Number
import Metrology.Yaml.Timestamp

/-! # Kinds

The kinds of the nodes of a document, by their tags. The kind of a plain scalar without a tag shows from its
text.
-/
namespace Metrology.Yaml

inductive Kind where
  | null
  | bool
  | int
  | float
  | bytes
  | moment
  | text
  /-- A key that merges other mappings in. -/
  | merge
  /-- A key for the value that a mapping stands for. -/
  | equals
  | list
  | map
  | set
  /-- A list of pairs, each written as a mapping with one entry. -/
  | pairs
  deriving DecidableEq

def standardTag (name : String) : String := "tag:yaml.org,2002:" ++ name

def tagKinds : List (String × Kind) :=
  [("null", .null), ("bool", .bool), ("int", .int), ("float", .float), ("binary", .bytes), ("timestamp", .moment),
    ("str", .text), ("merge", .merge), ("value", .equals), ("seq", .list), ("map", .map), ("set", .set),
    ("omap", .pairs), ("pairs", .pairs)]

def Kind.ofTag? (tag : String) : Option Kind := (tagKinds.find? fun k => standardTag k.1 == tag).map Prod.snd

def booleans : List (String × Bool) :=
  [("yes", true), ("no", false), ("true", true), ("false", false), ("on", true), ("off", false)]

def spellings (word : String) : List String := [word, word.capitalize, word.toUpper]

def kindOf (text : String) : Kind :=
  let cs := text.toList
  if booleans.any fun b => (spellings b.1).contains text then .bool
  else if isFloat cs then .float
  else if isInt cs then .int
  else if text = "<<" then .merge
  else if text = "" ∨ text = "~" ∨ (spellings "null").contains text then .null
  else if isTimestamp cs then .moment
  else if text = "=" then .equals
  else .text

end Metrology.Yaml
