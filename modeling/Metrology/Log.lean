import Metrology.Text.Uppercase

/-! # Log records

Operations are pure, so what they report is a value as well: a list of records in the order of the events. A
record names its level and the channel that it belongs to.
-/
namespace Metrology.Log

inductive Level where
  | trace
  | debug
  | info
  | warning
  | error
  deriving DecidableEq, Repr

def Level.name : Level → String
  | .trace => "TRACE"
  | .debug => "DEBUG"
  | .info => "INFO"
  | .warning => "WARNING"
  | .error => "ERROR"

def Level.severity : Level → Nat
  | .trace => 5
  | .debug => 10
  | .info => 20
  | .warning => 30
  | .error => 40

def levels : List Level := [.trace, .debug, .info, .warning, .error]

def levelNames : List String := levels.map Level.name

/-- The severity below which records are dropped, by name in any case; an unknown name stands for warnings. -/
def threshold (name : String) : Nat :=
  let name := Text.upper name
  match levels.find? fun level => level.name = name with
  | some level => level.severity
  | none =>
    if name = "WARN" then 30
    else if name = "CRITICAL" ∨ name = "FATAL" then 50
    else if name = "NOTSET" then 0
    else 30

structure Record where
  level : Level
  channel : String
  message : String
  deriving DecidableEq, Repr

def Record.isAlarm (r : Record) : Bool := Level.warning.severity ≤ r.level.severity

end Metrology.Log
