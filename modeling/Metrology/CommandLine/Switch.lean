import Metrology.Log
import Metrology.Text.Quoted

/-! # Switches

The switches of the command line with the ways to write them. A long switch may be cut short as long as it is
not taken for another one.
-/
namespace Metrology.CommandLine

inductive Switch where
  | help
  | debug
  | catalog
  | noCache
  | noReverse
  deriving DecidableEq, Repr

def switches : List Switch := [.help, .debug, .catalog, .noCache, .noReverse]

namespace Switch

def long : Switch → String
  | .help => "--help"
  | .debug => "--debug"
  | .catalog => "--catalog"
  | .noCache => "--no-cache"
  | .noReverse => "--no-reverse"

def shown : Switch → String
  | .help => "-h/--help"
  | s => s.long

def takesValue : Switch → Bool
  | .debug => true
  | .catalog => true
  | _ => false

def ofText? (text : String) : Option Switch :=
  if text = "-h" then some .help else switches.find? fun s => s.long == text

def startingWith (text : String) : List Switch := switches.filter fun s => text.toList.isPrefixOf s.long.toList

end Switch

inductive UsageError where
  /-- A switch that was cut too short. -/
  | ambiguous (text : String) (candidates : List Switch)
  | missingValue (s : Switch)
  /-- A value for a switch that takes none. -/
  | needlessValue (s : Switch) (value : String)
  | unknownLevel (name : String)
  | unrecognized (arguments : List String)
  deriving DecidableEq, Repr

def UsageError.message : UsageError → String
  | .ambiguous text candidates =>
    "ambiguous option: " ++ text ++ " could match " ++ ", ".intercalate (candidates.map Switch.long)
  | .missingValue s => "argument " ++ s.shown ++ ": expected one argument"
  | .needlessValue s value => "argument " ++ s.shown ++ ": ignored explicit argument " ++ Text.quoted value
  | .unknownLevel name =>
    "argument " ++ Switch.debug.shown ++ ": invalid choice: " ++ Text.quoted name ++ " (choose from "
      ++ ", ".intercalate (Log.levelNames.map Text.quoted) ++ ")"
  | .unrecognized arguments => "unrecognized arguments: " ++ " ".intercalate arguments

end Metrology.CommandLine
