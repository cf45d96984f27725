import Metrology.Yaml.Construction

/-! # Documents

`readDocument` reads a text as a document and gives its value.
-/
namespace Metrology.Yaml

def characterError (code : Nat) : DocumentError :=
  if code < Nat.pow 2 31 then .impossibleCharacter else .characterTooLarge

/-- Reads a text as a document; a text without one has no value in it. -/
def readDocument (text : String) : Except DocumentError Value :=
  match tokens? text with
  | none => .error .malformed
  | some tokens =>
    match (Graph.ofTokens? tokens).run with
    | .error code => .error (characterError code)
    | .ok none => .error .malformed
    | .ok (some none) => .ok .null
    | .ok (some (some g)) => g.value

end Metrology.Yaml
