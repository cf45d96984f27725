import Metrology.Yaml.Plain

/-! # Quoted scalars

Between single quotes a quote is written twice and nothing else is special; between double quotes a backslash
begins an escape. Breaks and the blanks around them are folded as in plain scalars, and a document mark inside
is an error.
-/
namespace Metrology.Yaml

def quotedBreaks (lineStart : Bool) : List Char → Option (List Char × List Char)
  | [] => some ([], [])
  | c :: rest =>
    if lineStart && anyMarkAhead (c :: rest) then none
    else if c == ' ' || c == '\t' then quotedBreaks false rest
    else if isBreak c then (quotedBreaks true rest).map fun (bs, after) => (c :: bs, after)
    else some ([], c :: rest)

def escapeOf? : Char → Option Char
  | '0' => some '\x00'
  | 'a' => some '\x07'
  | 'b' => some '\x08'
  | 't' => some '\t'
  | '\t' => some '\t'
  | 'n' => some '\n'
  | 'v' => some '\x0b'
  | 'f' => some '\x0c'
  | 'r' => some '\r'
  | 'e' => some '\x1b'
  | ' ' => some ' '
  | '"' => some '"'
  | '\\' => some '\\'
  | '/' => some '/'
  | 'N' => some '\u0085'
  | '_' => some '\u00a0'
  | 'L' => some '\u2028'
  | 'P' => some '\u2029'
  | _ => none

/-- What is found between quotes: characters with what follows them, or the code of a character that does not
exist. -/
inductive Quoted where
  | found (text rest : List Char)
  | impossible (code : Nat)

def Quoted.prepend (text : List Char) : Quoted → Quoted
  | .found more rest => .found (text ++ more) rest
  | q => q

/-- Reads an escape after its backslash; a break that is escaped is dropped. -/
def readEscape : List Char → Option Quoted
  | [] => none
  | c :: rest =>
    let coded (count : Nat) := (readHex count rest).bind fun (n, after) =>
      if n.isValidChar then some (.found [Char.ofNat n] after)
      else if 0x10FFFF < n then some (.impossible n)
      else none
    if c = 'x' then coded 2
    else if c = 'u' then coded 4
    else if c = 'U' then coded 8
    else if isBreak c then (quotedBreaks true rest).map fun (bs, after) => .found bs after
    else (escapeOf? c).map fun e => .found [e] rest

def quotedRest (quote : Char) : Nat → List Char → Option Quoted
  | 0, _ => none
  | _ + 1, [] => none
  | bound + 1, c :: rest =>
    let more (text after : List Char) := (quotedRest quote bound after).map (Quoted.prepend text)
    if c = quote then
      if c = '\'' ∧ rest.head? = some '\'' then more ['\''] rest.tail else some (.found [] rest)
    else if c = '\\' ∧ quote = '"' then
      match readEscape rest with
      | some (.found text after) => more text after
      | other => other
    else if isGap c then
      let blank := fun b => b == ' ' || b == '\t'
      match (c :: rest).dropWhile blank with
      | [] => none
      | b :: after =>
        if isBreak b then (quotedBreaks true after).bind fun (bs, after) => more (foldBreaks b bs) after
        else more ((c :: rest).takeWhile blank) (b :: after)
    else more [c] rest

def readQuoted (quote : Char) (cs : List Char) : Option Quoted :=
  quotedRest quote (cs.length + 1) cs

end Metrology.Yaml
