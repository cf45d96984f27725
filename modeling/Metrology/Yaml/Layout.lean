import Metrology.Yaml.Token

/-! # Layout

Reading a document from left to right keeps track of the indentation and of keys. A block begins where an item
or a key stands further to the right than the block around it, and ends before the first token to the left of
it. Whether a token is a key shows only at a colon behind it, so each token that can be a key is kept as a
candidate until its line ends; the colon turns it into a key by tokens that are put before it.
-/
namespace Metrology.Yaml

structure Cursor where
  rest : List Char
  index : Nat
  line : Nat
  column : Nat

def Cursor.next (k : Cursor) : Cursor :=
  match k.rest with
  | [] => k
  | c :: rest =>
    if isBreak c then ⟨rest, k.index + 1, k.line + 1, 0⟩
    else ⟨rest, k.index + 1, k.line, if c == '\ufeff' then k.column else k.column + 1⟩

def Cursor.pass : Nat → Cursor → Cursor
  | 0, k => k
  | n + 1, k => Cursor.pass n k.next

def Cursor.to (k : Cursor) (rest : List Char) : Cursor := k.pass (k.rest.length - rest.length)

/-- A token that can turn out to be a key: its place among the tokens and in the text, the depth of brackets
around it, and whether it has to be one. -/
structure Candidate where
  depth : Nat
  position : Nat
  required : Bool
  index : Nat
  line : Nat
  column : Nat

/-- `margin` counts the columns up to the one where the innermost block stands, so it is zero outside of all
blocks; `outer` holds the margins of the blocks around it. -/
structure Layout where
  cursor : Cursor
  depth : Nat
  margin : Nat
  outer : List Nat
  keysAllowed : Bool
  candidates : List Candidate
  tokens : List Token

namespace Layout

def skipGap (inComment : Bool) : List Char → List Char × Bool
  | [] => ([], false)
  | c :: rest =>
    if isBreak c then ((skipGap false rest).1, true)
    else if inComment then skipGap true rest
    else if c == ' ' then skipGap false rest
    else if c == '#' then skipGap true rest
    else (c :: rest, false)

/-- A candidate is dropped when its line ends or it is too far back; one that has to be a key may not be
dropped. -/
def dropStale (s : Layout) : Option Layout :=
  let fresh := fun (c : Candidate) => c.line == s.cursor.line && s.cursor.index - c.index ≤ 1024
  if s.candidates.any fun c => !fresh c && c.required then none
  else some { s with candidates := s.candidates.filter fresh }

def dropCandidate (s : Layout) : Option Layout :=
  if s.candidates.any fun c => c.depth == s.depth && c.required then none
  else some { s with candidates := s.candidates.filter fun c => c.depth != s.depth }

def addCandidate (s : Layout) : Option Layout :=
  if s.keysAllowed then do
    let s ← s.dropCandidate
    let k := s.cursor
    let required := s.depth == 0 && s.margin == k.column + 1
    some { s with
      candidates := s.candidates ++ [⟨s.depth, s.tokens.length, required, k.index, k.line, k.column⟩] }
  else some s

def closing (limit : Nat) (margin : Nat) : List Nat → Nat × Nat × List Nat
  | [] => (0, margin, [])
  | m :: outer =>
    if limit < margin then
      let (n, rest) := closing limit m outer
      (n + 1, rest)
    else (0, margin, m :: outer)

/-- Ends the blocks beyond a margin; between brackets there are no blocks. -/
def closeBlocks (s : Layout) (limit : Nat) : Layout :=
  if s.depth = 0 then
    let (n, margin, outer) := closing limit s.margin s.outer
    { s with margin, outer, tokens := s.tokens ++ List.replicate n .blockEnd }
  else s

def openBlock (s : Layout) (column position : Nat) (t : Token) : Layout :=
  if s.margin < column + 1 then
    { s with margin := column + 1, outer := s.margin :: s.outer, tokens := s.tokens.insertIdx position t }
  else s

def emitPassing (s : Layout) (t : Token) (count : Nat) : Layout :=
  { s with cursor := s.cursor.pass count, tokens := s.tokens ++ [t] }

def outermost (s : Layout) : Option Layout := do
  let s ← (s.closeBlocks 0).dropCandidate
  some { s with keysAllowed := false }

def readDirective (s : Layout) : Option Layout := do
  let s ← s.outermost
  let (d, rest) ← Yaml.readDirective s.cursor.rest.tail
  some { s with cursor := s.cursor.to rest, tokens := s.tokens ++ [.directive d] }

def readMark (s : Layout) (t : Token) : Option Layout := do
  let s ← s.outermost
  some (s.emitPassing t 3)

def openBracket (s : Layout) (t : Token) : Option Layout := do
  let s ← s.addCandidate
  some { s.emitPassing t 1 with depth := s.depth + 1, keysAllowed := true }

def closeBracket (s : Layout) (t : Token) : Option Layout := do
  if s.depth = 0 then none
  else
    let s ← s.dropCandidate
    some { s.emitPassing t 1 with depth := s.depth - 1, keysAllowed := false }

def readComma (s : Layout) : Option Layout := do
  let s ← s.dropCandidate
  some { s.emitPassing .comma 1 with keysAllowed := true }

/-- Begins a block for an item or key at the cursor, which may stand there only if keys are allowed. -/
def beginBlock (s : Layout) (t : Token) : Option Layout :=
  if s.depth ≠ 0 then some s
  else if s.keysAllowed then some (s.openBlock s.cursor.column s.tokens.length t)
  else none

def readItem (s : Layout) : Option Layout := do
  let s ← s.beginBlock .blockSequence
  let s ← s.dropCandidate
  some { s.emitPassing .item 1 with keysAllowed := true }

def readKey (s : Layout) : Option Layout := do
  let s ← s.beginBlock .blockMapping
  let s ← s.dropCandidate
  some { s.emitPassing .key 1 with keysAllowed := s.depth == 0 }

/-- A colon belongs to the candidate of its depth; without one it has an empty key. -/
def readValue (s : Layout) : Option Layout :=
  match s.candidates.find? fun c => c.depth == s.depth with
  | some c =>
    let s := { s with
      candidates := s.candidates.filter fun c => c.depth != s.depth
      tokens := s.tokens.insertIdx c.position .key
      keysAllowed := false }
    let s := if s.depth = 0 then s.openBlock c.column c.position .blockMapping else s
    some (s.emitPassing .value 1)
  | none => do
    let s ← s.beginBlock .blockMapping
    let s ← s.dropCandidate
    some { s.emitPassing .value 1 with keysAllowed := s.depth == 0 }

def readToken (s : Layout) (read : List Char → Option (Token × List Char)) : Option Layout := do
  let s ← s.addCandidate
  let (t, rest) ← read s.cursor.rest.tail
  some { s with cursor := s.cursor.to rest, tokens := s.tokens ++ [t], keysAllowed := false }

def readPlain (s : Layout) : Option Layout := do
  let s ← s.addCandidate
  let found := Yaml.readPlain (s.depth != 0) s.margin s.cursor.rest
  some { s with
    cursor := s.cursor.to found.rest
    tokens := s.tokens ++ [.scalar true (String.ofList found.text)]
    keysAllowed := found.crossed }

def readBlock (s : Layout) (folded : Bool) : Option Layout := do
  let s ← s.dropCandidate
  let (text, rest) ← Yaml.readBlock folded s.margin s.cursor.rest.tail
  some { s with
    cursor := s.cursor.to rest
    tokens := s.tokens ++ [.scalar false (String.ofList text)]
    keysAllowed := true }

def quotedToken (quote : Char) (cs : List Char) : Option (Token × List Char) :=
  (readQuoted quote cs).map fun
    | .found text rest => (.scalar false (String.ofList text), rest)
    | .impossible code => (.impossible code, [])

def startsPlain (inFlow : Bool) (c : Char) (rest : List Char) : Bool :=
  !(isGap c || "-?:,[]\x7b\x7d#&*!|>'\"%@\x60".toList.contains c)
    || (!endsWord rest && (c == '-' || (!inFlow && (c == '?' || c == ':'))))

def readNext (s : Layout) (c : Char) (rest : List Char) : Option Layout :=
  let atStart := s.cursor.column == 0
  let inFlow := s.depth != 0
  if c = '%' ∧ atStart then s.readDirective
  else if atStart && markAhead '-' (c :: rest) then s.readMark .documentStart
  else if atStart && markAhead '.' (c :: rest) then s.readMark .documentEnd
  else if c = '[' then s.openBracket .flowSequence
  else if c = '\x7b' then s.openBracket .flowMapping
  else if c = ']' then s.closeBracket .flowSequenceEnd
  else if c = '\x7d' then s.closeBracket .flowMappingEnd
  else if c = ',' then s.readComma
  else if c = '-' ∧ endsWord rest then s.readItem
  else if c = '?' ∧ (inFlow || endsWord rest) then s.readKey
  else if c = ':' ∧ (inFlow || endsWord rest) then s.readValue
  else if c = '*' then s.readToken fun cs => (readReference cs).map fun (name, cs) => (.alias name, cs)
  else if c = '&' then s.readToken fun cs => (readReference cs).map fun (name, cs) => (.anchor name, cs)
  else if c = '!' then s.readToken readTag
  else if c = '|' ∧ !inFlow then s.readBlock false
  else if c = '>' ∧ !inFlow then s.readBlock true
  else if c = '\'' ∨ c = '"' then s.readToken (quotedToken c)
  else if startsPlain inFlow c rest then s.readPlain
  else none

def advance (s : Layout) : Option Layout := do
  let (rest, crossed) := skipGap false s.cursor.rest
  let s := { s with
    cursor := s.cursor.to rest
    keysAllowed := s.keysAllowed || (crossed && s.depth == 0) }
  let s ← s.dropStale
  some (s.closeBlocks (s.cursor.column + 1))

/-- Reads all tokens; each takes a character at least, which bounds their number. -/
def run : Nat → Layout → Option (List Token)
  | 0, _ => none
  | bound + 1, s => do
    let s ← s.advance
    match s.cursor.rest with
    | [] =>
      let s ← (s.closeBlocks 0).dropCandidate
      some s.tokens
    | c :: rest =>
      let s ← s.readNext c rest
      match s.tokens.getLast? with
      | some (.impossible _) => some s.tokens
      | _ => run bound s

end Layout

def tokens? (text : String) : Option (List Token) :=
  if text.toList.all isAllowed then
    let cs := normalize text.toList
    let start : Cursor := ⟨cs, 0, 0, 0⟩
    let start := if cs.head? = some '\ufeff' then start.next else start
    Layout.run (cs.length + 1) ⟨start, 0, 0, [], true, [], []⟩
  else none

end Metrology.Yaml
