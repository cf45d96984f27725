import Metrology.Yaml.Character

/-! # Plain scalars

A plain scalar is a text without quotes. It ends before a colon that a gap follows, before a comment, and,
between brackets, before the marks that structure them. It can go on over several lines as long as they are
indented; a single break inside is read as a blank and of several breaks one is dropped.
-/
namespace Metrology.Yaml

def plainRun (inFlow : Bool) : List Char → List Char
  | [] => []
  | c :: rest =>
    if isGap c || (c == ':' && (endsWord rest || (inFlow && rest.head?.any isFlowMark)))
        || (inFlow && (isFlowMark c || c == '?')) then []
    else c :: plainRun inFlow rest

/-- Breaks count as they are read, except that a single line feed is a blank and of several lines one is
dropped. -/
def foldBreaks (first : Char) (more : List Char) : List Char :=
  if first ≠ '\n' then first :: more
  else if more.isEmpty then [' ']
  else more

/-- What stands between two runs: its text, which is missing before a document mark, and the column at its end
if it crosses a break. -/
structure Gap where
  text : Option (List Char)
  rest : List Char
  column : Option Nat

def gapBreaks (column : Nat) : List Char → Option (List Char) × List Char × Nat
  | [] => (some [], [], column)
  | c :: rest =>
    if c == ' ' then gapBreaks (column + 1) rest
    else if isBreak c then
      if anyMarkAhead rest then (none, rest, 0)
      else
        let (more, after, column) := gapBreaks 0 rest
        (more.map fun bs => c :: bs, after, column)
    else (some [], c :: rest, column)

def readGap (cs : List Char) : Gap :=
  let blanks := cs.takeWhile fun c => c == ' '
  match cs.dropWhile fun c => c == ' ' with
  | [] => ⟨some blanks, [], none⟩
  | c :: rest =>
    if isBreak c then
      if anyMarkAhead rest then ⟨none, rest, some 0⟩
      else
        let (more, after, column) := gapBreaks 0 rest
        ⟨more.map (foldBreaks c), after, some column⟩
    else ⟨some blanks, c :: rest, none⟩

/-- A scalar's text, what follows it, and whether a break was crossed after its last run. -/
structure PlainScalar where
  text : List Char
  rest : List Char
  crossed : Bool

def plainRuns (inFlow : Bool) (margin : Nat) : Nat → List Char → Bool → PlainScalar
  | 0, cs, crossed => ⟨[], cs, crossed⟩
  | bound + 1, cs, crossed =>
    match plainRun inFlow cs with
    | [] => ⟨[], cs, crossed⟩
    | run =>
      let gap := readGap (cs.drop run.length)
      let ended : PlainScalar := ⟨run, gap.rest, gap.column.isSome⟩
      match gap.text with
      | none => ended
      | some [] => ended
      | some text =>
        if gap.rest.head? == some '#' || (!inFlow && gap.column.any fun column => column < margin) then ended
        else
          let more := plainRuns inFlow margin bound gap.rest gap.column.isSome
          if more.text.isEmpty then { more with text := run }
          else { more with text := run ++ text ++ more.text }

def readPlain (inFlow : Bool) (margin : Nat) (cs : List Char) : PlainScalar :=
  plainRuns inFlow margin cs.length cs false

end Metrology.Yaml
