import Metrology.Converter.Build
import Metrology.Log
import Metrology.Settings.Path
import Metrology.Text.Blank

/-! # Settings

A setting comes from the environment or is supplied directly, which counts more. Supplied values may be of any
type, so each setting is checked; everything that is wrong is reported, in the order of the settings.
-/
namespace Metrology

structure Settings where
  /-- The path of the catalog; without one the standard catalog is used. -/
  catalog : Option String
  policy : Policy
  level : Log.Level
  deriving DecidableEq, Repr

inductive Setting where
  | catalog
  | reverse
  | caching
  | invert
  | level
  deriving DecidableEq, Repr

namespace Setting

def name : Setting → String
  | .catalog => "catalog_path"
  | .reverse => "reverse_base_conversions"
  | .caching => "cache_results"
  | .invert => "invert_formulas"
  | .level => "log_level"

def environmentName : Setting → String
  | .catalog => "UNITCONVERT_CATALOG"
  | .reverse => "UNITCONVERT_REVERSE"
  | .caching => "UNITCONVERT_CACHE"
  | .invert => "UNITCONVERT_INVERT_FORMULAS"
  | .level => "LOG_LEVEL"

end Setting

inductive Supplied where
  | text (s : String)
  | flag (b : Bool)
  | whole (n : Int)
  /-- A value that no setting accepts. -/
  | other
  deriving DecidableEq, Repr

abbrev Sources := Setting → Option Supplied

namespace Sources

/-- The settings of an environment; empty values count as absent. -/
def ofEnvironment (environment : List (String × String)) : Sources := fun s =>
  match environment.lookup s.environmentName with
  | none => none
  | some "" => none
  | some text => some (.text text)

def orElse (first rest : Sources) : Sources := fun s => first s <|> rest s

end Sources

inductive Defect where
  | unreadableFlag
  | notAFlag
  | notAText
  | notAPath
  | unknownLevel
  deriving DecidableEq, Repr

namespace Defect

def kind : Defect → String
  | .unreadableFlag => "bool_parsing"
  | .notAFlag => "bool_type"
  | .notAText => "string_type"
  | .notAPath => "path_type"
  | .unknownLevel => "value_error"

def message : Defect → String
  | .unreadableFlag => "Input should be a valid boolean, unable to interpret input"
  | .notAFlag => "Input should be a valid boolean"
  | .notAText => "Input should be a valid string"
  | .notAPath => "Input is not a valid path for <class 'pathlib.Path'>"
  | .unknownLevel => "Value error, log_level must be one of " ++ ", ".intercalate Log.levelNames

end Defect

structure SettingError where
  setting : Setting
  defect : Defect
  deriving DecidableEq, Repr

def SettingError.message (e : SettingError) : String := e.setting.name ++ ": " ++ e.defect.message

namespace Settings

def flagOfText? (s : String) : Option Bool :=
  let word := String.ofList (s.toList.map Char.toLower)
  if ["1", "t", "true", "y", "yes", "on"].contains word then some true
  else if ["0", "f", "false", "n", "no", "off"].contains word then some false
  else none

/-- One and nought are flags too; other numbers of up to 64 bits are unreadable ones. -/
def flagOfWhole (n : Int) : Except Defect Bool :=
  if n = 1 then .ok true
  else if n = 0 then .ok false
  else if -0x8000000000000000 ≤ n ∧ n < 0x8000000000000000 then .error .unreadableFlag
  else .error .notAFlag

def readFlag : Supplied → Except Defect Bool
  | .flag b => .ok b
  | .whole n => flagOfWhole n
  | .text s =>
    match flagOfText? s with
    | some b => .ok b
    | none => .error .unreadableFlag
  | .other => .error .notAFlag

def readPath : Supplied → Except Defect (Option String)
  | .text s => .ok (some (Path.normalize s))
  | _ => .error .notAPath

def levelOfText? (s : String) : Option Log.Level :=
  let name := Text.upper (Text.strip s)
  if name = "WARN" then some .warning else Log.levels.find? fun level => level.name = name

def readLevel : Supplied → Except Defect Log.Level
  | .text s =>
    match levelOfText? s with
    | some level => .ok level
    | none => .error .unknownLevel
  | _ => .error .notAText

def readOr {α : Type} (default : α) (read : Supplied → Except Defect α) : Option Supplied → Except Defect α
  | none => .ok default
  | some v => read v

def errorOf {α : Type} (s : Setting) : Except Defect α → List SettingError
  | .ok _ => []
  | .error d => [⟨s, d⟩]

def read (sources : Sources) : Except (List SettingError) Settings :=
  let catalog := readOr none readPath (sources .catalog)
  let reverse := readOr true readFlag (sources .reverse)
  let caching := readOr true readFlag (sources .caching)
  let invert := readOr true readFlag (sources .invert)
  let level := readOr .warning readLevel (sources .level)
  match catalog, reverse, caching, invert, level with
  | .ok catalog, .ok reverse, .ok caching, .ok invert, .ok level => .ok ⟨catalog, ⟨reverse, caching, invert⟩, level⟩
  | _, _, _, _, _ =>
    .error (errorOf .catalog catalog ++ errorOf .reverse reverse ++ errorOf .caching caching ++ errorOf .invert invert
      ++ errorOf .level level)

end Settings

end Metrology
