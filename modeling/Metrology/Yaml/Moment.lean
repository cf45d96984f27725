/-! # Dates and times

A document can hold a date, or a date with a time of day and an offset from universal time. `Moment.label` is
the plain form and `Moment.shown` the form in messages.
-/
namespace Metrology.Yaml

structure Date where
  year : Nat
  month : Nat
  day : Nat
  deriving DecidableEq, Repr

structure Clock where
  hour : Nat
  minute : Nat
  second : Nat
  microsecond : Nat
  offset : Option Int
  deriving DecidableEq, Repr

structure Moment where
  date : Date
  clock : Option Clock
  deriving DecidableEq, Repr

def isLeapYear (year : Nat) : Bool := year % 4 == 0 && (year % 100 != 0 || year % 400 == 0)

def daysInMonth (year month : Nat) : Nat :=
  if month = 2 then (if isLeapYear year then 29 else 28)
  else if month = 4 ∨ month = 6 ∨ month = 9 ∨ month = 11 then 30
  else 31

def Date.isValid (d : Date) : Bool :=
  1 ≤ d.year && d.year ≤ 9999 && 1 ≤ d.month && d.month ≤ 12 && 1 ≤ d.day && d.day ≤ daysInMonth d.year d.month

def Clock.isValid (c : Clock) : Bool :=
  c.hour ≤ 23 && c.minute ≤ 59 && c.second ≤ 59 && c.offset.all fun o => o.natAbs < 24 * 60

def Moment.isValid (m : Moment) : Bool := m.date.isValid && m.clock.all Clock.isValid

def Date.dayNumber (d : Date) : Nat :=
  let years := d.year - 1
  let months := (List.range (d.month - 1)).foldl (fun days m => days + daysInMonth d.year (m + 1)) 0
  365 * years + years / 4 - years / 100 + years / 400 + months + d.day

/-- The microseconds from a common beginning to a moment in universal time, if its offset is known. -/
def Moment.instant? (m : Moment) : Option Int :=
  m.clock.bind fun c => c.offset.map fun offset =>
    let minutes : Int := 1440 * m.date.dayNumber + 60 * c.hour + c.minute - offset
    1000000 * (60 * minutes + c.second) + c.microsecond

def Moment.same (m n : Moment) : Bool :=
  match m.instant?, n.instant? with
  | some i, some j => i == j
  | none, none => m == n
  | _, _ => false

def padded (width n : Nat) : String :=
  let digits := Nat.toDigits 10 n
  String.ofList (List.replicate (width - digits.length) '0' ++ digits)

def Date.label (d : Date) : String := padded 4 d.year ++ "-" ++ padded 2 d.month ++ "-" ++ padded 2 d.day

def Clock.label (c : Clock) : String :=
  let fraction := if c.microsecond = 0 then "" else "." ++ padded 6 c.microsecond
  let offset := match c.offset with
    | none => ""
    | some o => (if o < 0 then "-" else "+") ++ padded 2 (o.natAbs / 60) ++ ":" ++ padded 2 (o.natAbs % 60)
  padded 2 c.hour ++ ":" ++ padded 2 c.minute ++ ":" ++ padded 2 c.second ++ fraction ++ offset

def Moment.label (m : Moment) : String :=
  match m.clock with
  | none => m.date.label
  | some c => m.date.label ++ " " ++ c.label

/-- An offset as a zone; a negative one is written as the day before and the seconds into it. -/
def zoneShown (offset : Int) : String :=
  if offset = 0 then "datetime.timezone.utc"
  else
    let span :=
      if offset < 0 then "days=-1, seconds=" ++ toString (86400 + 60 * offset)
      else "seconds=" ++ toString (60 * offset)
    "datetime.timezone(datetime.timedelta(" ++ span ++ "))"

def Moment.shown (m : Moment) : String :=
  let date := [m.date.year, m.date.month, m.date.day].map fun n => toString n
  match m.clock with
  | none => "datetime.date(" ++ ", ".intercalate date ++ ")"
  | some c =>
    let fine :=
      if c.microsecond ≠ 0 then [c.hour, c.minute, c.second, c.microsecond]
      else if c.second ≠ 0 then [c.hour, c.minute, c.second]
      else [c.hour, c.minute]
    let zone := match c.offset with
      | none => []
      | some o => ["tzinfo=" ++ zoneShown o]
    "datetime.datetime(" ++ ", ".intercalate (date ++ fine.map (fun n => toString n) ++ zone) ++ ")"

end Metrology.Yaml
