import Metrology.Decimal.Numeral
import Metrology.Text.Blank
import Metrology.Text.Lowercase
import Metrology.Text.Split
import Metrology.Yaml.Character

/-! # Numbers in documents

Integers are decimal, or octal, hexadecimal or binary by what they begin with; floats have a point. Both can
be written in base sixty with colons between the places, and underscores may stand among the digits. `isInt`
and `isFloat` say which plain texts are numbers; the readers also take some texts that are numbers only
because they are tagged so.
-/
namespace Metrology.Yaml

def dropSign : List Char → List Char
  | '+' :: rest => rest
  | '-' :: rest => rest
  | cs => cs

def isDigitOrBar (c : Char) : Bool := c.isDigit || c == '_'

def isBinaryDigit (c : Char) : Bool := c == '0' || c == '1'

def isOctalDigit (c : Char) : Bool := '0' ≤ c && c ≤ '7'

def isHexDigit (c : Char) : Bool := (hexValue? c).isSome

def places (cs : List Char) : List (List Char) := Text.splitAt ':' cs

def isPlace : List Char → Bool
  | [a] => a.isDigit
  | [a, b] => '0' ≤ a && a ≤ '5' && b.isDigit
  | _ => false

def isWhole (cs : List Char) : Bool := cs.head?.any Char.isDigit && cs.all isDigitOrBar

def isInt (cs : List Char) : Bool :=
  let some_ := fun (p : Char → Bool) (ds : List Char) => !ds.isEmpty && ds.all fun c => p c || c == '_'
  match dropSign cs with
  | '0' :: rest =>
    match rest with
    | [] => true
    | 'b' :: ds => some_ isBinaryDigit ds
    | 'x' :: ds => some_ isHexDigit ds
    | ds => some_ isOctalDigit ds
  | body =>
    match places body with
    | first :: rest => isWhole first && rest.all isPlace
    | [] => false

def isExponent : List Char → Bool
  | [] => true
  | e :: sign :: digits =>
    (e == 'e' || e == 'E') && (sign == '+' || sign == '-') && !digits.isEmpty && digits.all Char.isDigit
  | _ => false

def isFraction (cs : List Char) : Bool := isExponent (cs.dropWhile isDigitOrBar)

def isFloat (cs : List Char) : Bool :=
  let body := dropSign cs
  let named := fun (cs : List Char) (names : List String) => names.contains (String.ofList cs)
  named body [".inf", ".Inf", ".INF"] || named cs [".nan", ".NaN", ".NAN"] ||
    match cs with
    | '.' :: digits => digits.head?.any Char.isDigit && isFraction digits
    | _ =>
      match body.dropWhile fun c => c != '.' with
      | _ :: fraction =>
        match places (body.takeWhile fun c => c != '.') with
        | [whole] => isWhole whole && isFraction fraction
        | first :: rest => isWhole first && rest.all isPlace && fraction.all isDigitOrBar
        | [] => false
      | [] => false

inductive NumberError where
  | empty
  | malformed
  /-- A place in base sixty beyond the largest double. -/
  | tooLarge

/-- Removes the blanks around a numeral; in a text of ASCII characters only six of them count as blanks. -/
def trim (cs : List Char) : List Char :=
  if cs.all fun c => c.toNat < 128 then
    let blank := fun (c : Char) => c == ' ' || (9 ≤ c.toNat && c.toNat ≤ 13)
    ((cs.dropWhile blank).reverse.dropWhile blank).reverse
  else Text.stripChars cs

def digitOf? (c : Char) : Option Nat :=
  match Text.digitValue? c with
  | some d => some d
  | none => hexValue? c

def baseLetters (base : Nat) : List Char :=
  if base = 2 then ['b', 'B'] else if base = 8 then ['o', 'O'] else if base = 16 then ['x', 'X'] else []

def dropBase (base : Nat) : List Char → List Char
  | '0' :: c :: rest => if (baseLetters base).contains c then rest else '0' :: c :: rest
  | cs => cs

def digitLimit : Nat := 4300

def integerValue? (base : Nat) (cs : List Char) : Option Int :=
  let (negative, digits) := Decimal.readSign (trim cs)
  let digits := dropBase base digits
  if digits.isEmpty || (base = 10 && digitLimit < digits.length) then none
  else
    (digits.mapM fun c => (digitOf? c).filter fun d => d < base).map fun ds =>
      let n : Nat := ds.foldl (fun n d => base * n + d) 0
      if negative then -(n : Int) else n

def withoutBars (cs : List Char) : List Char := cs.filter fun c => c != '_'

def magnitude? (cs : List Char) : Option Int :=
  match cs with
  | ['0'] => some 0
  | '0' :: 'b' :: ds => integerValue? 2 ds
  | '0' :: 'x' :: ds => integerValue? 16 ds
  | '0' :: ds => integerValue? 8 ('0' :: ds)
  | cs =>
    match places cs with
    | [whole] => integerValue? 10 whole
    | parts => (parts.mapM (integerValue? 10)).map fun ds => ds.foldl (fun n d => 60 * n + d) 0

def readInt (text : String) : Except NumberError Int :=
  match withoutBars text.toList with
  | [] => .error .empty
  | c :: rest =>
    match dropSign (c :: rest) with
    | [] => .error .empty
    | body =>
      match magnitude? body with
      | some n => .ok (if c = '-' then -n else n)
      | none => .error .malformed

def decimalFloat? (cs : List Char) : Option Float :=
  let cs := trim cs
  match Decimal.Numeral.read? cs with
  | some n => some n.value
  | none =>
    let (negative, name) := Decimal.readSign cs
    if name = "inf".toList ∨ name = "infinity".toList then some (if negative then -1.0 / 0.0 else 1.0 / 0.0)
    else if name = "nan".toList then some Decimal.nan
    else none

/-- Places in base sixty, the last one first; each weighs sixty times the one before. -/
def sumPlaces (weight : Nat) (total : Float) : List Float → Except NumberError Float
  | [] => .ok total
  | x :: rest =>
    match Decimal.ofInt? weight with
    | some w => sumPlaces (60 * weight) (total + x * w) rest
    | none => .error .tooLarge

def readFloatText (text : String) : Except NumberError Float :=
  match withoutBars (Text.lower text).toList with
  | [] => .error .empty
  | c :: rest =>
    let body := dropSign (c :: rest)
    let signed := fun (x : Float) => if c = '-' then -x else x
    if body = ".inf".toList then .ok (signed (1.0 / 0.0))
    else if body = ".nan".toList then .ok Decimal.nan
    else
      match (places body).mapM decimalFloat? with
      | some [x] => .ok (signed x)
      | some xs => (sumPlaces 1 0.0 xs.reverse).map signed
      | none => .error .malformed

end Metrology.Yaml
