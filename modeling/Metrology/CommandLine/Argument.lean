import Metrology.CommandLine.Switch
import Metrology.Text.Digit

/-! # Kinds of arguments

An argument is a switch, a part of the query, or a mark after which everything is part of the query. An
argument with a dash at its front is still part of the query if it is a negative number or has a space in it,
unless it can be taken for a switch.
-/
namespace Metrology.CommandLine

inductive Attachment where
  | none
  /-- A value after an equals sign. -/
  | value (text : String)
  /-- The letters after the letter of a short switch. -/
  | letters (cs : List Char)
  deriving DecidableEq, Repr

inductive Argument where
  | part (text : String)
  /-- Two dashes. -/
  | mark
  | switch (s : Switch) (attachment : Attachment)
  /-- An argument that looks like a switch and is none. -/
  | stranger (text : String)
  deriving DecidableEq, Repr

def splitValue (cs : List Char) : String × Attachment :=
  match cs.dropWhile fun c => c != '=' with
  | [] => (String.ofList cs, .none)
  | _ :: value => (String.ofList (cs.takeWhile fun c => c != '='), .value (String.ofList value))

/-- Whether the characters after a dash are those of a number without an exponent; a line end may follow. -/
def isNumber (cs : List Char) : Bool :=
  let cs := if cs.getLast? = some '\n' then cs.dropLast else cs
  match cs.dropWhile Text.isDigit with
  | [] => !cs.isEmpty
  | '.' :: fraction => !fraction.isEmpty && fraction.all Text.isDigit
  | _ => false

def classifyDashed (cs : List Char) : Argument :=
  if isNumber cs.tail || cs.contains ' ' then .part (String.ofList cs) else .stranger (String.ofList cs)

/-- Takes an argument with two dashes at its front for the one switch that it is the beginning of. -/
def classifyLong (cs : List Char) : Except UsageError Argument :=
  let (name, attachment) := splitValue cs
  match Switch.startingWith name with
  | [] => .ok (classifyDashed cs)
  | [s] => .ok (.switch s attachment)
  | candidates => .error (.ambiguous (String.ofList cs) candidates)

def classify (text : String) : Except UsageError Argument :=
  match Switch.ofText? text with
  | some s => .ok (.switch s .none)
  | none =>
    match text.toList with
    | ['-'] => .ok (.part text)
    | '-' :: rest =>
      let (name, attachment) := splitValue ('-' :: rest)
      match Switch.ofText? name, rest with
      | some s, '-' :: _ => .ok (.switch s attachment)
      | some s, letters => .ok (.switch s (.letters (letters.drop 2)))
      | none, '-' :: _ => classifyLong ('-' :: rest)
      | none, 'h' :: letters => .ok (.switch .help (.letters letters))
      | none, _ => .ok (classifyDashed ('-' :: rest))
    | _ => .ok (.part text)

def classifyAll : List String → Except UsageError (List Argument)
  | [] => .ok []
  | "--" :: rest => .ok (.mark :: rest.map .part)
  | text :: rest =>
    match classify text with
    | .error e => .error e
    | .ok a =>
      match classifyAll rest with
      | .error e => .error e
      | .ok as => .ok (a :: as)

end Metrology.CommandLine
