import Schematic.Text

/-!
# Dates and times

Days of the calendar and moments of a day, with or without an offset from universal time. The checks
say which field is out of range; of several, the first one in the order of the fields.
-/

namespace Schematic

/-- A day of the calendar. -/
structure Date where
  year : Nat
  month : Nat
  day : Nat
  deriving DecidableEq

/-- A moment of a day; `offset` is the number of minutes that local time is ahead. -/
structure DateTime where
  date : Date
  hour : Nat
  minute : Nat
  second : Nat
  microsecond : Nat
  offset : Option Int
  deriving DecidableEq

/-- The field that is out of range. -/
inductive CalendarError where
  | year (year : Nat)
  | month
  | day
  | hour
  | minute
  | second
  | offset (minutes : Int)
  deriving DecidableEq

/-- An interval as a count of days and of seconds within a day. -/
def intervalText (minutes : Int) : Text :=
  let days := Int.fdiv minutes 1440
  let seconds := 60 * Int.fmod minutes 1440
  let dayPart : List Text := if days = 0 then [] else ["days=" ++ Text.ofInt days]
  let secondPart : List Text := if seconds = 0 then [] else ["seconds=" ++ Text.ofInt seconds]
  "datetime.timedelta(" ++ Text.join ", " (dayPart ++ secondPart) ++ ")"

def CalendarError.message : CalendarError → Text
  | .year y => "year " ++ Text.ofNat y ++ " is out of range"
  | .month => "month must be in 1..12"
  | .day => "day is out of range for month"
  | .hour => "hour must be in 0..23"
  | .minute => "minute must be in 0..59"
  | .second => "second must be in 0..59"
  | .offset minutes =>
    "offset must be a timedelta strictly between -timedelta(hours=24) and timedelta(hours=24), not "
      ++ intervalText minutes ++ "."

namespace Date

/-- The year has a 29th of February. -/
def isLeap (year : Nat) : Bool := year % 4 = 0 && (year % 100 != 0 || year % 400 = 0)

/-- How many days a month has. -/
def monthLength (year month : Nat) : Nat :=
  if month = 2 then (if isLeap year then 29 else 28)
  else if month = 4 ∨ month = 6 ∨ month = 9 ∨ month = 11 then 30
  else 31

/-- The day with three numbers, if there is one. -/
def of? (year month day : Nat) : Except CalendarError Date :=
  if year < 1 ∨ 9999 < year then .error (.year year)
  else if month < 1 ∨ 12 < month then .error .month
  else if day < 1 ∨ monthLength year month < day then .error .day
  else .ok ⟨year, month, day⟩

/-- How many days lie before the day, from the first of January of the year 1 on. -/
def ordinal (d : Date) : Int :=
  let y := d.year - 1
  let before := (List.range (d.month - 1)).foldl (fun days i => days + monthLength d.year (i + 1)) 0
  (y * 365 + y / 4 - y / 100 + y / 400 + before + (d.day - 1) : Nat)

/-- The day as `YYYY-MM-DD`. -/
def text (d : Date) : Text :=
  Text.padded 4 d.year ++ "-" ++ Text.padded 2 d.month ++ "-" ++ Text.padded 2 d.day

end Date

namespace DateTime

/-- The moment with these fields, if there is one. The offset is checked before all else. -/
def of? (year month day hour minute second microsecond : Nat) (offset : Option Int) :
    Except CalendarError DateTime := do
  if let some minutes := offset then
    if minutes.natAbs ≥ 1440 then throw (.offset minutes)
  let date ← Date.of? year month day
  if 23 < hour then throw .hour
  if 59 < minute then throw .minute
  if 59 < second then throw .second
  return ⟨date, hour, minute, second, microsecond, offset⟩

/-- The microseconds from the first moment of the year 1, by local time. -/
def localMicroseconds (t : DateTime) : Int :=
  (((t.date.ordinal * 24 + t.hour) * 60 + t.minute) * 60 + t.second) * 1000000 + t.microsecond

/-- Two moments are the same: with offsets by universal time, without them by local time. -/
def same (s t : DateTime) : Bool :=
  match s.offset, t.offset with
  | none, none => s.localMicroseconds == t.localMicroseconds
  | some a, some b =>
    s.localMicroseconds - a * 60000000 == t.localMicroseconds - b * 60000000
  | _, _ => false

/-- The date and the time of day, without the offset. Microseconds are left out when there are
none. -/
def localText (t : DateTime) : Text :=
  let fraction : Text := if t.microsecond = 0 then [] else "." ++ Text.padded 6 t.microsecond
  t.date.text ++ "T" ++ Text.padded 2 t.hour ++ ":" ++ Text.padded 2 t.minute ++ ":"
    ++ Text.padded 2 t.second ++ fraction

/-- An offset as a sign, hours and minutes. -/
def offsetText (minutes : Int) : Text :=
  (if minutes < 0 then "-" else "+") ++ Text.padded 2 (minutes.natAbs / 60) ++ ":"
    ++ Text.padded 2 (minutes.natAbs % 60)

/-- The moment with a numeric offset. -/
def text (t : DateTime) : Text :=
  t.localText ++ (t.offset.map offsetText).getD []

/-- The moment as it is written into plain data: universal time is marked by a `Z`. -/
def plainText (t : DateTime) : Text :=
  match t.offset with
  | none => t.localText
  | some 0 => t.localText ++ "Z"
  | some minutes => t.localText ++ offsetText minutes

end DateTime

end Schematic
