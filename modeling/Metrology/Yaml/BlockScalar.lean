import Metrology.Yaml.Character

/-! # Block scalars

A block scalar takes the lines after its header that are indented. A literal one keeps their breaks and a
folded one joins lines that are neither indented further nor separated by an empty line. The header says by a
sign what becomes of the breaks at the end, and by a digit how far the lines are indented if their first one
does not show it.
-/
namespace Metrology.Yaml

inductive Chomping where
  | clip
  | strip
  | keep
  deriving DecidableEq

structure BlockHeader where
  chomping : Chomping
  indentation : Option Nat

def readChomping : List Char → Chomping × List Char
  | '+' :: rest => (.keep, rest)
  | '-' :: rest => (.strip, rest)
  | cs => (.clip, cs)

def readIndentation : List Char → Option (Option Nat × List Char)
  | [] => some (none, [])
  | c :: rest =>
    if c = '0' then none
    else if c.isDigit then some (some (c.toNat - '0'.toNat), rest)
    else some (none, c :: rest)

def readIndicators (cs : List Char) : Option (BlockHeader × List Char) :=
  match readChomping cs with
  | (.clip, _) =>
    (readIndentation cs).map fun (indentation, cs) =>
      match indentation with
      | none => (⟨.clip, none⟩, cs)
      | some n =>
        let (chomping, cs) := readChomping cs
        (⟨chomping, some n⟩, cs)
  | (chomping, cs) => (readIndentation cs).map fun (indentation, cs) => (⟨chomping, indentation⟩, cs)

def passLine (cs : List Char) : Option (List Char) :=
  let cs := cs.dropWhile fun c => c == ' '
  let cs := if cs.head? = some '#' then cs.dropWhile fun c => !isBreak c else cs
  if endsLine cs then some cs.tail else none

def readHeader (cs : List Char) : Option (BlockHeader × List Char) := do
  let (header, cs) ← readIndicators cs
  if endsName cs then
    let cs ← passLine cs
    some (header, cs)
  else none

/-- The breaks before the first line with content, that line and its column, and the largest column on the
way. -/
def leadingBreaks (column most : Nat) : List Char → List Char × List Char × Nat × Nat
  | [] => ([], [], column, most)
  | c :: rest =>
    if c == ' ' then leadingBreaks (column + 1) (max most (column + 1)) rest
    else if isBreak c then
      let (bs, after) := leadingBreaks 0 most rest
      (c :: bs, after)
    else ([], c :: rest, column, most)

def blockBreaks (indent column : Nat) : List Char → List Char × List Char × Nat
  | [] => ([], [], column)
  | c :: rest =>
    if c == ' ' && column < indent then blockBreaks indent (column + 1) rest
    else if isBreak c then
      let (bs, after) := blockBreaks indent 0 rest
      (c :: bs, after)
    else ([], c :: rest, column)

def startsBlank (cs : List Char) : Bool := cs.head?.any fun c => c == ' ' || c == '\t'

structure BlockLines where
  text : List Char
  lastBreak : List Char
  breaks : List Char
  rest : List Char

/-- Reads lines from the column `indent` on; each takes a character at least, which bounds their number. -/
def blockLines (folded : Bool) (indent : Nat) : Nat → List Char → BlockLines
  | 0, cs => ⟨[], [], [], cs⟩
  | bound + 1, cs =>
    let line := cs.takeWhile fun c => !isBreak c
    let after := cs.dropWhile fun c => !isBreak c
    let lastBreak := after.take 1
    let (breaks, rest, column) := blockBreaks indent 0 after.tail
    if column = indent ∧ rest ≠ [] then
      let joint :=
        if folded && lastBreak == ['\n'] && !startsBlank cs && !startsBlank rest then
          (if breaks.isEmpty then [' '] else [])
        else lastBreak
      let more := blockLines folded indent bound rest
      { more with text := line ++ joint ++ breaks ++ more.text }
    else ⟨line, lastBreak, breaks, rest⟩

def readBlock (folded : Bool) (margin : Nat) (cs : List Char) : Option (List Char × List Char) := do
  let (header, cs) ← readHeader cs
  let margin := max 1 margin
  let (breaks, rest, column, indent) :=
    match header.indentation with
    | some n =>
      let (breaks, rest, column) := blockBreaks (margin + n - 1) 0 cs
      (breaks, rest, column, margin + n - 1)
    | none =>
      let (breaks, rest, column, most) := leadingBreaks 0 0 cs
      (breaks, rest, column, max margin most)
  let lines : BlockLines :=
    if column = indent ∧ rest ≠ [] then
      let lines := blockLines folded indent rest.length rest
      { lines with text := breaks ++ lines.text }
    else ⟨[], [], breaks, rest⟩
  let ending := match header.chomping with
    | .strip => []
    | .clip => lines.lastBreak
    | .keep => lines.lastBreak ++ lines.breaks
  some (lines.text ++ ending, lines.rest)

end Metrology.Yaml
