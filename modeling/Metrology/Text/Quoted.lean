import Metrology.Text.Printable

/-! # Quoted text

How a text is shown inside messages: between single quotes, or double ones if it holds a single quote and no
double one, with everything that cannot be printed written as an escape.
-/
namespace Metrology.Text

def hex (width n : Nat) : List Char :=
  let digits := Nat.toDigits 16 n
  List.replicate (width - digits.length) '0' ++ digits

def quoteFor (cs : List Char) : Char :=
  if cs.contains '\'' && !cs.contains '"' then '"' else '\''

def escapeChar (quote c : Char) : List Char :=
  if c = quote ∨ c = '\\' then ['\\', c]
  else if c = '\n' then ['\\', 'n']
  else if c = '\r' then ['\\', 'r']
  else if c = '\t' then ['\\', 't']
  else if isPrintable c then [c]
  else if c.toNat < 0x100 then '\\' :: 'x' :: hex 2 c.toNat
  else if c.toNat < 0x10000 then '\\' :: 'u' :: hex 4 c.toNat
  else '\\' :: 'U' :: hex 8 c.toNat

def quotedChars (cs : List Char) : List Char :=
  let quote := quoteFor cs
  quote :: cs.flatMap (escapeChar quote) ++ [quote]

def quoted (s : String) : String := String.ofList (quotedChars s.toList)

def quotedList (texts : List String) : String :=
  "[" ++ ", ".intercalate (texts.map quoted) ++ "]"

end Metrology.Text
