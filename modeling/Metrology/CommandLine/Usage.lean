import Metrology.CommandLine.Arguments

/-! # Usage

The texts that a program shows if it ends before it starts.
-/
namespace Metrology.CommandLine

def synopsis : String := "\n".intercalate [
  "usage: unitconvert [-h] [--debug LEVEL] [--catalog CATALOG] [--no-cache]",
  "                   [--no-reverse]",
  "                   [query ...]"]

def manual : String := "\n".intercalate [
  synopsis,
  "",
  "Convert units and evaluate expressions.",
  "",
  "positional arguments:",
  "  query              Run a single query instead of reading lines from stdin.",
  "",
  "options:",
  "  -h, --help         show this help message and exit",
  "  --debug LEVEL      Log level (TRACE, DEBUG, INFO, WARNING, ERROR); defaults",
  "                     to LOG_LEVEL or WARNING.",
  "  --catalog CATALOG  Path to a YAML unit catalog.",
  "  --no-cache         Do not memoize multi-hop conversions.",
  "  --no-reverse       Do not derive reverse conversions."]

namespace Stop

def status : Stop → Nat
  | .help => 0
  | .usage _ => 2

def output : Stop → String
  | .help => manual ++ "\n"
  | .usage _ => ""

def errors : Stop → String
  | .help => ""
  | .usage e => synopsis ++ "\nunitconvert: error: " ++ e.message ++ "\n"

end Stop

end Metrology.CommandLine
