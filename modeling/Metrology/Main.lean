import Metrology.Program.Basic

/-! # The program as it runs

Fetches the environment, the catalog and the lines of the input, and writes what the runs of
`Metrology.Program` say.
-/
namespace Metrology.Program

def fetchEnvironment : IO (List (String × String)) := do
  let names := [Setting.catalog, .reverse, .caching, .invert, .level].map Setting.environmentName
  let found ← names.mapM fun name => do
    let text ← IO.getEnv name
    return text.map fun text => (name, text)
  return found.filterMap id

def obstacleOf : IO.Error → Obstacle
  | .inappropriateType _ code _ => if code = 20 then .notADirectory else .directory
  | .invalidArgument _ code _ => if code = 36 then .tooLong else .missing
  | _ => .missing

def fetchDocument (path : String) : IO (Except Obstacle String) := do
  try
    let text ← IO.FS.readFile path
    return .ok (String.ofList (Text.unifyLineEnds text.toList))
  catch e => return .error (obstacleOf e)

def write (output errors : String) : IO Unit := do
  IO.print output
  IO.eprint errors
  (← IO.getStdout).flush

def conclude : Except Fault Run → IO UInt32
  | .ok r => do
    write r.output r.errors
    match r.ending with
    | .finished status => return status.toUInt32
    | .stopped status => return status.toUInt32
  | .error _ => do
    write "" "FAULT\n"
    return 1

/-- Answers each line before it reads the next one. -/
partial def converse (c : Converter) : IO UInt32 := do
  let line ← (← IO.getStdin).getLine
  if line.isEmpty then return 0
  let (reply, c) := Session.readLine c line
  match reply.fault? with
  | some e => conclude (.error (.formula e))
  | none =>
    write reply.output reply.errors
    if reply.goesOn then converse c else return 0

def start (arguments : List String) : IO UInt32 := do
  match prepare arguments (← fetchEnvironment) with
  | .error r => conclude (.ok r)
  | .ok plan =>
    let document ← match plan.settings.catalog with
      | some path => fetchDocument path
      | none => pure (.error .missing)
    match plan.buildConverter fun _ => document with
    | .error e => conclude (withoutConverter e)
    | .ok c => if plan.query.isEmpty then converse c else conclude (plan.answer c "")

end Metrology.Program

def main (arguments : List String) : IO UInt32 := Metrology.Program.start arguments
