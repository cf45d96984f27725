import Metrology.Catalog.Loading
import Metrology.Catalog.Standard
import Metrology.CommandLine.Usage
import Metrology.Program.Folder
import Metrology.Session.Line
import Metrology.Settings.Basic

/-! # The program

A run of the program reads the arguments and the settings, builds a converter, and then answers one query or
goes through the lines of its input. It is carried out in two parts, since the catalog may have to be fetched
between them.
-/
namespace Metrology.Program

open CommandLine

inductive Ending where
  | finished (status : Nat)
  | stopped (status : Nat)
  deriving DecidableEq, Repr

structure Run where
  ending : Ending
  output : String
  errors : String
  deriving DecidableEq, Repr

inductive Fault where
  | load (e : LoadError)
  | inversion (d : Algebra.Dilemma)
  | formula (e : Formula.EvalError)

def errorLine (message : String) : String := "ERROR " ++ message ++ "\n"

def misconfigured (message : String) : Run := ⟨.finished 2, "", errorLine message⟩

def stopped (s : Stop) : Run := ⟨.stopped s.status, s.output, s.errors⟩

def suppliedBy (a : Arguments) : Sources
  | .catalog => a.catalog.map .text
  | .level => a.level.map fun level => .text level.name
  | .caching => if a.noCache then some (.flag false) else none
  | .reverse => if a.noReverse then some (.flag false) else none
  | .invert => none

structure Plan where
  settings : Settings
  query : List String

def prepare (arguments : List String) (environment : List (String × String)) : Except Run Plan :=
  match readArguments arguments with
  | .error s => .error (stopped s)
  | .ok a =>
    match Settings.read ((suppliedBy a).orElse (.ofEnvironment environment)) with
    | .error errors =>
      .error (misconfigured ("Invalid configuration: " ++ "; ".intercalate (errors.map SettingError.message)))
    | .ok settings => .ok ⟨settings, a.query⟩

def channel : String := "unitconvert"

namespace Plan

def build (p : Plan) (catalog : Catalog) : Except Fault Converter :=
  match (catalog.builder p.settings.policy channel).build with
  | .error (.refused e) => .error (.load (.refused e))
  | .error (.inversion d) => .error (.inversion d)
  | .ok c => .ok c

def construct (p : Plan) (v : Yaml.Value) : Except Fault Converter :=
  match Catalog.ofValue v with
  | .error e => .error (.load (.read e))
  | .ok catalog => p.build catalog

def buildConverter (p : Plan) (fetch : String → Except Obstacle String) : Except Fault Converter :=
  match p.settings.catalog with
  | none => p.build .standard
  | some path =>
    match fetch path with
    | .error o => .error (.load (.refused (.unreadable path o)))
    | .ok text =>
      match Catalog.readDocument text with
      | .error e => .error (.load e)
      | .ok v => p.construct v

end Plan

def ofReplies (status : Nat) (rs : List Session.Reply) : Except Fault Run :=
  match rs.findSome? Session.Reply.fault? with
  | some e => .error (.formula e)
  | none => .ok ⟨.finished status, String.join (rs.map Session.Reply.output), String.join (rs.map Session.Reply.errors)⟩

/-- Answers a single query, which may also be a command; only a query can fail. -/
def answerOnce (c : Converter) (query : String) : Except Fault Run :=
  match Session.command? query with
  | some command => ofReplies 0 [Session.obey c command]
  | none =>
    let a := (Session.ask c query).1
    ofReplies (if a.succeeded then 0 else 1) [.answer a]

def Plan.answer (p : Plan) (c : Converter) (input : String) : Except Fault Run :=
  match p.query with
  | [] => ofReplies 0 (Session.replies c (Text.lines input))
  | parts => answerOnce c (Text.strip (" ".intercalate parts))

/-- A run without a converter; a catalog that is refused ends it in order. -/
def withoutConverter : Fault → Except Fault Run
  | .load (.read (.refused e)) => .ok (misconfigured ("Failed to load catalog: " ++ e.message))
  | e => .error e

def Plan.carryOut (p : Plan) (fetch : String → Except Obstacle String) (input : String) : Except Fault Run :=
  match p.buildConverter fetch with
  | .error e => withoutConverter e
  | .ok c => p.answer c input

def run (arguments : List String) (environment : List (String × String)) (folder : Folder) (input : String) :
    Except Fault Run :=
  match prepare arguments environment with
  | .error r => .ok r
  | .ok p => p.carryOut folder.read input

end Metrology.Program
