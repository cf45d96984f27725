import Metrology.Catalog.Basic
import Metrology.Converter.Basic
import Metrology.Service.Payload

/-! # The service

The service answers calls one after another from one catalog and one converter, which conversions may change.
A call that cannot be answered is refused with a status and the reason.
-/
namespace Metrology.Service

/-- A conversion is asked for in words, or else by a category, two units and a value. -/
structure ConversionCall where
  query : Option String
  category : Option String
  source : Option String
  target : Option String
  value : Option Float

inductive Call where
  | health
  | units
  | unit (name : String)
  | evaluate (expression : String) (bind : Formula.Bindings)
  | convert (c : ConversionCall)

inductive Reply where
  | body (p : Payload)
  | refused (status : Nat) (reason : String)
  /-- The value of a formula failed in a way that the service has no status for. -/
  | fault (e : Formula.EvalError)

structure State where
  catalog : Catalog
  converter : Converter

def units (s : State) : Payload :=
  let rows := s.catalog.units.rows
  .record [("categories", .texts s.converter.categories), ("count", .count rows.length),
    ("items", .list (rows.map .ofRow))]

def unit (c : Converter) (name : String) : Reply :=
  match c.unitInfo name with
  | .error e => .refused 404 e.message
  | .ok u =>
    .body (.record [("unit", .text u.unit), ("abbrev", .text u.symbol), ("category", .text u.category),
      ("abbreviations", .texts (c.table.abbreviationsFor u.unit u.category))])

def evaluate (expression : String) (bind : Formula.Bindings) : Reply :=
  match Formula.read expression with
  | .error e => .refused 400 e.message
  | .ok f =>
    match f.value bind with
    | .error (.unbound name) => .refused 400 (Formula.EvalError.unbound name).message
    | .error e => .fault e
    | .ok x =>
      .body (.record [("ok", .flag true), ("expression", .text f.text), ("value", .ofFloat x),
        ("variables", .texts f.vars)])

def refusal (e : ConversionError) : Reply :=
  match e with
  | .unknownUnit _ | .notInCategory _ _ | .unknownCategory _ => .refused 404 e.message
  | .formula e => .fault e
  | e => .refused 400 e.message

def conversionBody (category source target : String) (o : Outcome) : Payload :=
  .safe (.record [("ok", .flag true), ("value", .number o.value), ("from_unit", .text source),
    ("to_unit", .text target), ("category", .text category), ("steps", .list (o.trace.map .ofStep))])

def missingField {α : Type} (name : String) (field : Option α) : List String := if field.isNone then [name] else []

def missingFields (c : ConversionCall) : List String :=
  missingField "category" c.category ++ missingField "from_unit" c.source ++ missingField "to_unit" c.target
    ++ missingField "value" c.value

def convertText (c : Converter) (query : String) : Reply × Converter :=
  match c.convertText query with
  | .error e => (refusal e, c)
  | .ok r =>
    (.body (conversionBody r.request.category r.request.source.unit r.request.target.unit r.outcome),
      r.outcome.converter)

def convertBetween (c : Converter) (category source target : String) (value : Float) : Reply × Converter :=
  match c.convert category source target value with
  | .error e => (refusal e, c)
  | .ok o => (.body (conversionBody category source target o), o.converter)

def convert (c : Converter) (call : ConversionCall) : Reply × Converter :=
  match call with
  | ⟨some query, _, _, _, _⟩ => convertText c query
  | ⟨none, some category, some source, some target, some value⟩ => convertBetween c category source target value
  | call => (.refused 400 ("Missing field(s): " ++ ", ".intercalate (missingFields call)), c)

def answer (s : State) : Call → Reply × State
  | .health => (.body (.record [("ok", .flag true)]), s)
  | .units => (.body (units s), s)
  | .unit name => (unit s.converter name, s)
  | .evaluate expression bind => (evaluate expression bind, s)
  | .convert call =>
    let (reply, c) := convert s.converter call
    (reply, { s with converter := c })

def answers (s : State) : List Call → List Reply
  | [] => []
  | call :: rest =>
    let (reply, s) := answer s call
    reply :: answers s rest

end Metrology.Service
