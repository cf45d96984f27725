import Metrology.Text.Quoted

/-! # Bytes

A document writes bytes with sixty-four letters of six bits each. `readBytes64` reads them, passing over all
other characters, and `shownBytes` is the form of bytes in messages.
-/
namespace Metrology.Yaml

def sextet? (c : Char) : Option Nat :=
  if 'A' ≤ c ∧ c ≤ 'Z' then some (c.toNat - 'A'.toNat)
  else if 'a' ≤ c ∧ c ≤ 'z' then some (c.toNat - 'a'.toNat + 26)
  else if '0' ≤ c ∧ c ≤ '9' then some (c.toNat - '0'.toNat + 52)
  else if c = '+' then some 62
  else if c = '/' then some 63
  else none

/-- The letters of the group of four that is being read, as the number of them, the bits left over from the
last one and the padding signs after it. -/
structure Group where
  letters : Nat
  bits : Nat
  padding : Nat

/-- Reads the bytes of a text from inside a group. Padding that fills a group ends the bytes; without it the
last group has to be full. -/
def bytesFrom (g : Group) : List Char → Option (List Nat)
  | [] => if g.letters = 0 then some [] else none
  | c :: rest =>
    if c = '=' then
      if 2 ≤ g.letters then
        if 4 ≤ g.letters + g.padding + 1 then some [] else bytesFrom { g with padding := g.padding + 1 } rest
      else bytesFrom g rest
    else
      match sextet? c with
      | none => bytesFrom g rest
      | some s =>
        match g.letters with
        | 0 => bytesFrom ⟨1, s, 0⟩ rest
        | 1 => (bytesFrom ⟨2, s % 16, 0⟩ rest).map fun bytes => (4 * g.bits + s / 16) :: bytes
        | 2 => (bytesFrom ⟨3, s % 4, 0⟩ rest).map fun bytes => (16 * g.bits + s / 4) :: bytes
        | _ => (bytesFrom ⟨0, 0, 0⟩ rest).map fun bytes => (64 * g.bits + s) :: bytes

def readBytes64 (cs : List Char) : Option (List Nat) :=
  if cs.all fun c => c.toNat < 128 then bytesFrom ⟨0, 0, 0⟩ cs else none

def shownByte (quote : Char) (n : Nat) : List Char :=
  if n < 128 then Text.escapeChar quote (Char.ofNat n) else '\\' :: 'x' :: Text.hex 2 n

def shownBytes (bytes : List Nat) : String :=
  let quote := Text.quoteFor ((bytes.filter fun n => n < 128).map Char.ofNat)
  String.ofList ('b' :: quote :: bytes.flatMap (shownByte quote) ++ [quote])

end Metrology.Yaml
