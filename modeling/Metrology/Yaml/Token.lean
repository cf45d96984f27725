import Metrology.Yaml.BlockScalar
import Metrology.Yaml.QuotedScalar

/-! # Tokens of documents

The marks, names and scalars of a document. Blocks begin and end with tokens of their own, which stand for
changes of the indentation. The readers here take one token off the front of a text and return what follows
it.
-/
namespace Metrology.Yaml

inductive Directive where
  | version (major : Nat)
  | handle (name expansion : String)
  | unknown
  deriving DecidableEq

inductive Token where
  | directive (d : Directive)
  | documentStart
  | documentEnd
  | blockSequence
  | blockMapping
  | blockEnd
  | flowSequence
  | flowSequenceEnd
  | flowMapping
  | flowMappingEnd
  /-- The dash before an item of a block sequence. -/
  | item
  /-- The comma between entries in brackets. -/
  | comma
  | key
  | value
  | anchor (name : String)
  | alias (name : String)
  | tag (handle : Option String) (suffix : String)
  | scalar (plain : Bool) (text : String)
  /-- The code of a character that does not exist; no token follows it. -/
  | impossible (code : Nat)
  deriving DecidableEq

def passBlanks (cs : List Char) : List Char := cs.dropWhile fun c => c == ' '

def readName (cs : List Char) : Option (String × List Char) :=
  match cs.takeWhile isNamePart with
  | [] => none
  | name => some (String.ofList name, cs.dropWhile isNamePart)

def readNumber (cs : List Char) : Option (Nat × List Char) :=
  match cs.takeWhile Char.isDigit with
  | [] => none
  | digits => some (digits.foldl (fun n d => 10 * n + (d.toNat - '0'.toNat)) 0, cs.dropWhile Char.isDigit)

def readBytes : List Char → Option (List UInt8 × List Char)
  | '%' :: a :: b :: rest =>
    match hexValue? a, hexValue? b with
    | some x, some y => (readBytes rest).map fun (bytes, after) => ((16 * x + y).toUInt8 :: bytes, after)
    | _, _ => none
  | '%' :: _ => none
  | cs => some ([], cs)

def isUriPart (c : Char) : Bool := c.isAlphanum || "-;/?:@&=+$,_.!~*'()[]".toList.contains c

def uriParts : Nat → List Char → Option (List Char × List Char)
  | 0, cs => some ([], cs)
  | _ + 1, [] => some ([], [])
  | bound + 1, c :: rest =>
    if c = '%' then do
      let (bytes, after) ← readBytes (c :: rest)
      let text ← String.fromUTF8? (ByteArray.mk bytes.toArray)
      let (more, after) ← uriParts bound after
      some (text.toList ++ more, after)
    else if isUriPart c then (uriParts bound rest).map fun (more, after) => (c :: more, after)
    else some ([], c :: rest)

def readUri (cs : List Char) : Option (String × List Char) := do
  let (text, after) ← uriParts cs.length cs
  if after.length < cs.length then some (String.ofList text, after) else none

/-- Reads a handle, which stands between exclamation marks or is a single one. -/
def readHandle : List Char → Option (String × List Char)
  | '!' :: rest =>
    if rest.head? = some ' ' then some ("!", rest)
    else
      match rest.dropWhile isNamePart with
      | '!' :: after => some (String.ofList ('!' :: rest.takeWhile isNamePart ++ ['!']), after)
      | _ => none
  | _ => none

def readDirective (cs : List Char) : Option (Directive × List Char) := do
  let (name, cs) ← readName cs
  if !endsName cs then none
  else if name = "YAML" then
    let (major, cs) ← readNumber (passBlanks cs)
    let (_, cs) ← if cs.head? = some '.' then readNumber cs.tail else none
    if endsName cs then
      let cs ← passLine cs
      some (.version major, cs)
    else none
  else if name = "TAG" then
    let (handle, cs) ← readHandle (passBlanks cs)
    if cs.head? = some ' ' then
      let (expansion, cs) ← readUri (passBlanks cs)
      if endsName cs then
        let cs ← passLine cs
        some (.handle handle expansion, cs)
      else none
    else none
  else
    let cs ← passLine (cs.dropWhile fun c => !isBreak c)
    some (.unknown, cs)

def readReference (cs : List Char) : Option (String × List Char) := do
  let (name, cs) ← readName cs
  if endsWord cs || cs.head?.any fun c => "?:,]\x7d%@\x60".toList.contains c then some (name, cs) else none

def holdsHandle (cs : List Char) : Bool := (cs.takeWhile fun c => !(c == ' ' || isBreak c)).contains '!'

def readTag (cs : List Char) : Option (Token × List Char) := do
  let (tag, cs) ←
    if cs.head? = some '<' then do
      let (suffix, cs) ← readUri cs.tail
      if cs.head? = some '>' then some (Token.tag none suffix, cs.tail) else none
    else if endsWord cs then some (Token.tag none "!", cs)
    else if holdsHandle cs then do
      let (handle, cs) ← readHandle ('!' :: cs)
      let (suffix, cs) ← readUri cs
      some (Token.tag (some handle) suffix, cs)
    else do
      let (suffix, cs) ← readUri cs
      some (Token.tag (some "!") suffix, cs)
  if endsName cs then some (tag, cs) else none

end Metrology.Yaml
