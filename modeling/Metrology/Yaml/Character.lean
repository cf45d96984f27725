/-! # Characters of documents

Lines end in one of three breaks once `normalize` has unified the usual ones. Words end in a gap, which is a
blank or a break, or with the text.
-/
namespace Metrology.Yaml

def isBreak (c : Char) : Bool := c == '\n' || c == '\u2028' || c == '\u2029'

def isAllowed (c : Char) : Bool :=
  let n := c.toNat
  n == 9 || n == 10 || n == 13 || (0x20 ≤ n && n ≤ 0x7E) || n == 0x85 || (0xA0 ≤ n && n ≤ 0xD7FF)
    || (0xE000 ≤ n && n ≤ 0xFFFD) || 0x10000 ≤ n

def normalize : List Char → List Char
  | [] => []
  | '\r' :: '\n' :: rest => '\n' :: normalize rest
  | c :: rest => (if c == '\r' || c == '\u0085' then '\n' else c) :: normalize rest

def isGap (c : Char) : Bool := c == ' ' || c == '\t' || isBreak c

def endsWord (cs : List Char) : Bool := cs.head?.all isGap

/-- Like `endsWord`, but a tab does not end the word. -/
def endsName (cs : List Char) : Bool := cs.head?.all fun c => c == ' ' || isBreak c

def endsLine (cs : List Char) : Bool := cs.head?.all isBreak

def markAhead (mark : Char) : List Char → Bool
  | a :: b :: c :: rest => a == mark && b == mark && c == mark && endsWord rest
  | _ => false

def anyMarkAhead (cs : List Char) : Bool := markAhead '-' cs || markAhead '.' cs

def isNamePart (c : Char) : Bool := c.isAlphanum || c == '-' || c == '_'

def isFlowMark (c : Char) : Bool := c == ',' || c == '[' || c == ']' || c == '\x7b' || c == '\x7d'

def hexValue? (c : Char) : Option Nat :=
  if c.isDigit then some (c.toNat - '0'.toNat)
  else if 'a' ≤ c ∧ c ≤ 'f' then some (c.toNat - 'a'.toNat + 10)
  else if 'A' ≤ c ∧ c ≤ 'F' then some (c.toNat - 'A'.toNat + 10)
  else none

def readHex (count : Nat) (cs : List Char) : Option (Nat × List Char) :=
  match (cs.take count).mapM hexValue? with
  | some digits =>
    if digits.length = count then some (digits.foldl (fun n d => 16 * n + d) 0, cs.drop count) else none
  | none => none

end Metrology.Yaml
