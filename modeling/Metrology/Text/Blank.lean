/-! # Blanks

The white space of all scripts, and `strip`, which removes it at both ends of a text.
-/
namespace Metrology.Text

def isBlank (c : Char) : Bool :=
  let n := c.toNat
  (9 ≤ n && n ≤ 13) || (28 ≤ n && n ≤ 32) || n == 0x85 || n == 0xA0 || n == 0x1680 || (0x2000 ≤ n && n ≤ 0x200A) ||
    n == 0x2028 || n == 0x2029 || n == 0x202F || n == 0x205F || n == 0x3000

def stripLeft (cs : List Char) : List Char := cs.dropWhile isBlank

def stripRight (cs : List Char) : List Char := (stripLeft cs.reverse).reverse

def stripChars (cs : List Char) : List Char := stripRight (stripLeft cs)

def strip (s : String) : String := String.ofList (stripChars s.toList)

end Metrology.Text
