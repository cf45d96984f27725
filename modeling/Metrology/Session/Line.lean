import Metrology.Session.Query
import Metrology.Text.Blank

/-! # Sessions

A session reads lines. A line is one of three commands, or blank, or else a query; the blanks around it do not
count. The session goes on until it is told to end.
-/
namespace Metrology.Session

inductive Command where
  | exit
  | units
  | help
  deriving DecidableEq, Repr

def command? : String → Option Command
  | "exit" => some .exit
  | "units" => some .units
  | "help" => some .help
  | _ => none

inductive Reply where
  | silence
  | goodbye
  | answer (a : Answer)
  deriving DecidableEq

namespace Reply

def fault? : Reply → Option Formula.EvalError
  | .answer (.fault e) => some e
  | _ => none

def goesOn : Reply → Bool
  | .goodbye => false
  | r => r.fault?.isNone

def output : Reply → String
  | .answer a => a.output
  | _ => ""

def errors : Reply → String
  | .answer a => a.errors
  | _ => ""

end Reply

def obey (c : Converter) : Command → Reply
  | .exit => .goodbye
  | .units => .answer (.shown (listing c.table))
  | .help => .answer (.shown help)

def readLine (c : Converter) (line : String) : Reply × Converter :=
  let text := Text.strip line
  if text.isEmpty then (.silence, c)
  else
    match command? text with
    | some command => (obey c command, c)
    | none =>
      let (a, c) := ask c text
      (.answer a, c)

def replies (c : Converter) : List String → List Reply
  | [] => []
  | line :: rest =>
    let (reply, c) := readLine c line
    if reply.goesOn then reply :: replies c rest else [reply]

end Metrology.Session
