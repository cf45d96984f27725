import Metrology.CommandLine.Argument

/-! # Arguments

The arguments are read from left to right. The first run of parts is the query; later parts belong to nothing,
and neither do strangers. The switch for the help ends the reading at once.
-/
namespace Metrology.CommandLine

structure Arguments where
  query : List String
  level : Option Log.Level
  catalog : Option String
  noCache : Bool
  noReverse : Bool
  deriving DecidableEq, Repr

def Arguments.empty : Arguments := ⟨[], none, none, false, false⟩

inductive Stop where
  | help
  | usage (e : UsageError)
  deriving DecidableEq, Repr

inductive Phase where
  | before
  | inside
  | after
  deriving DecidableEq, Repr

structure Reading where
  arguments : Arguments
  phase : Phase
  strays : List String

namespace Reading

def start : Reading := ⟨.empty, .before, []⟩

/-- A part goes to the query unless that is over. -/
def takePart (r : Reading) (text : String) : Reading :=
  if r.phase = .after then { r with strays := r.strays ++ [text] }
  else { r with phase := .inside, arguments := { r.arguments with query := r.arguments.query ++ [text] } }

/-- A mark is dropped unless the query is over. -/
def takeMark (r : Reading) : Reading :=
  if r.phase = .after then { r with strays := r.strays ++ ["--"] } else { r with phase := .inside }

def interrupt (r : Reading) : Reading := if r.phase = .inside then { r with phase := .after } else r

def takeStranger (r : Reading) (text : String) : Reading :=
  { r.interrupt with strays := r.strays ++ [text] }

def set (r : Reading) : Switch → Except Stop Reading
  | .help => .error .help
  | .debug => .error (.usage (.missingValue .debug))
  | .catalog => .error (.usage (.missingValue .catalog))
  | .noCache => .ok { r.interrupt with arguments := { r.arguments with noCache := true } }
  | .noReverse => .ok { r.interrupt with arguments := { r.arguments with noReverse := true } }

def setTo (r : Reading) (s : Switch) (value : String) : Except Stop Reading :=
  match s with
  | .catalog => .ok { r.interrupt with arguments := { r.arguments with catalog := some value } }
  | .debug =>
    let name := Text.upper value
    match Log.levels.find? fun level => level.name == name with
    | some level => .ok { r.interrupt with arguments := { r.arguments with level := some level } }
    | none => .error (.usage (.unknownLevel name))
  | s => .error (.usage (.needlessValue s value))

/-- What follows the letter of the help: the letter may be repeated, and nothing else is let through. -/
def stopAfter (cs : List Char) : Stop :=
  match cs.dropWhile fun c => c == 'h' with
  | [] => if cs.isEmpty then .usage (.needlessValue .help "") else .help
  | rest => .usage (.needlessValue .help (String.ofList rest))

/-- A switch that takes a value takes the part after it, if the value is not attached. -/
def readAll (r : Reading) : List Argument → Except Stop Arguments
  | [] => if r.strays = [] then .ok r.arguments else .error (.usage (.unrecognized r.strays))
  | .part text :: rest => readAll (r.takePart text) rest
  | .mark :: rest => readAll r.takeMark rest
  | .stranger text :: rest => readAll (r.takeStranger text) rest
  | .switch _ (.letters cs) :: _ => .error (stopAfter cs)
  | .switch s (.value value) :: rest =>
    match r.setTo s value with
    | .error e => .error e
    | .ok r => readAll r rest
  | .switch s .none :: .part text :: rest =>
    if s.takesValue then
      match r.setTo s text with
      | .error e => .error e
      | .ok r => readAll r rest
    else
      match r.set s with
      | .error e => .error e
      | .ok r => readAll (r.takePart text) rest
  | .switch s .none :: rest =>
    match r.set s with
    | .error e => .error e
    | .ok r => readAll r rest

end Reading

def readArguments (texts : List String) : Except Stop Arguments :=
  match classifyAll texts with
  | .error e => .error (.usage e)
  | .ok arguments => Reading.start.readAll arguments

end Metrology.CommandLine
