import Metrology.Yaml.Moment
import Metrology.Yaml.Token

/-! # Timestamps

A date is written with its year, month and day; a time can follow after a letter or blanks, and an offset
after the time.
-/
namespace Metrology.Yaml

def takeDigits (least most : Nat) (cs : List Char) : Option (Nat × Nat × List Char) :=
  let digits := (cs.take most).takeWhile Char.isDigit
  if least ≤ digits.length then
    (readNumber digits).map fun (n, _) => (n, digits.length, cs.drop digits.length)
  else none

def passChar (c : Char) : List Char → Option (List Char)
  | d :: rest => if c = d then some rest else none
  | [] => none

def isSpacing (c : Char) : Bool := c == ' ' || c == '\t'

def passDivider (cs : List Char) : Option (List Char) :=
  match cs with
  | 'T' :: rest => some rest
  | 't' :: rest => some rest
  | c :: rest => if isSpacing c then some (rest.dropWhile isSpacing) else none
  | [] => none

def microseconds (digits : List Char) : Nat :=
  let six := (digits ++ List.replicate 6 '0').take 6
  six.foldl (fun n d => 10 * n + (d.toNat - '0'.toNat)) 0

def readOffset (cs : List Char) : Option (Option Int) :=
  match cs.dropWhile isSpacing with
  | [] => if cs.isEmpty then some none else none
  | ['Z'] => some (some 0)
  | sign :: rest =>
    if sign = '+' ∨ sign = '-' then do
      let (hours, _, rest) ← takeDigits 1 2 rest
      let minutes ← match rest with
        | [] => some 0
        | rest => do
          let (minutes, _, rest) ← takeDigits 2 2 (← passChar ':' rest)
          if rest.isEmpty then some minutes else none
      let total : Int := 60 * hours + minutes
      some (some (if sign = '-' then -total else total))
    else none

def readClock (cs : List Char) : Option Clock := do
  let (hour, _, cs) ← takeDigits 1 2 cs
  let (minute, _, cs) ← takeDigits 2 2 (← passChar ':' cs)
  let (second, _, cs) ← takeDigits 2 2 (← passChar ':' cs)
  let (fraction, cs) := match cs with
    | '.' :: rest => (rest.takeWhile Char.isDigit, rest.dropWhile Char.isDigit)
    | cs => ([], cs)
  let offset ← readOffset cs
  some ⟨hour, minute, second, microseconds fraction, offset⟩

/-- A timestamp, and whether its month and day are written with two digits each. A line end may follow. -/
def readMoment (cs : List Char) : Option (Moment × Bool) := do
  let cs := if cs.getLast? = some '\n' then cs.dropLast else cs
  let (year, _, cs) ← takeDigits 4 4 cs
  let (month, m, cs) ← takeDigits 1 2 (← passChar '-' cs)
  let (day, d, cs) ← takeDigits 1 2 (← passChar '-' cs)
  let clock ← if cs.isEmpty then some none else (readClock (← passDivider cs)).map some
  some (⟨⟨year, month, day⟩, clock⟩, m == 2 && d == 2)

/-- A plain text is a timestamp if it has a time or a date with all its digits. -/
def isTimestamp (cs : List Char) : Bool :=
  (readMoment cs).any fun (m, full) => full || m.clock.isSome

end Metrology.Yaml
