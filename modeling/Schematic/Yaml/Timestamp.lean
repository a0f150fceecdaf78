import Schematic.Calendar

/-!
# Timestamps

The written form of dates and times: `YYYY-MM-DD`, or a date with a time of day, a fraction of a
second and an offset. Months, days and hours may have one digit where a time of day follows.
-/

namespace Schematic.Yaml

/-- An offset as it is written: universal time, or a sign with hours and minutes. -/
inductive WrittenOffset where
  | universal
  | ahead (negative : Bool) (hours minutes : Nat)

/-- A time of day as it is written. -/
structure WrittenTime where
  hour : Nat
  minute : Nat
  second : Nat
  fraction : Text
  offset : Option WrittenOffset

/-- A date as it is written, perhaps with a time of day. -/
structure Timestamp where
  year : Nat
  month : Text
  day : Text
  time : Option WrittenTime

namespace Timestamp

def number (digits : Text) : Nat := digits.foldl (fun n d => n * 10 + d.hexDigit?.getD 0) 0

/-- Exactly `count` digits at the start of a text. -/
def digits? (count : Nat) (t : Text) : Option (Text × Text) :=
  let digits := t.take count
  if digits.length = count ∧ digits.all CodePoint.isDigit then some (digits, t.drop count) else none

/-- One or two digits at the start of a text. -/
def oneOrTwo? (t : Text) : Option (Text × Text) := (digits? 2 t).or (digits? 1 t)

def after? (c : Char) : Text → Option Text
  | d :: rest => if d = .char c then some rest else none
  | [] => none

/-- The text after spaces and tabulators. -/
def skipBlanks (t : Text) : Text := t.dropWhile (CodePoint.isOneOf " \t")

/-- The text after what separates a date from a time of day. -/
def afterSeparator? : Text → Option Text
  | .char 'T' :: rest | .char 't' :: rest => some rest
  | t => if (skipBlanks t).length < t.length then some (skipBlanks t) else none

/-- The minutes of an offset, which may be absent. -/
def offsetMinutes? (t : Text) : Option (Nat × Text) :=
  match after? ':' t with
  | none => some (0, t)
  | some t => (digits? 2 t).map fun (minutes, rest) => (number minutes, rest)

/-- An offset that takes up a whole text; there is none in an empty text. -/
def offset? (t : Text) : Option (Option WrittenOffset) :=
  if t.isEmpty then some none
  else
    match skipBlanks t with
    | [.char 'Z'] => some (some .universal)
    | sign :: rest =>
      if sign.isOneOf "+-" then do
        let (hours, rest) ← oneOrTwo? rest
        let (minutes, rest) ← offsetMinutes? rest
        if rest.isEmpty then some (some (.ahead (sign = .char '-') (number hours) minutes))
          else none
      else none
    | [] => none

/-- A time of day that takes up a whole text. -/
def time? (t : Text) : Option WrittenTime := do
  let (hour, t) ← oneOrTwo? t
  let (minute, t) ← digits? 2 (← after? ':' t)
  let (second, t) ← digits? 2 (← after? ':' t)
  let (fraction, t) : Text × Text :=
    match t with
    | .char '.' :: rest => (rest.takeWhile CodePoint.isDigit, rest.dropWhile CodePoint.isDigit)
    | _ => ([], t)
  return ⟨number hour, number minute, number second, fraction, ← offset? t⟩

/-- Read a text; a line feed at its end is let pass. -/
def read? (t : Text) : Option Timestamp := do
  let t := if t.getLast? = some (.char '\n') then t.dropLast else t
  let (year, t) ← digits? 4 t
  let (month, t) ← oneOrTwo? (← after? '-' t)
  let (day, t) ← oneOrTwo? (← after? '-' t)
  if t.isEmpty then return ⟨number year, month, day, none⟩
  return ⟨number year, month, day, some (← time? (← afterSeparator? t))⟩

/-- A plain scalar of this form is a timestamp: a date alone has two digits for month and day. -/
def isImplicit (s : Timestamp) : Bool :=
  s.time.isSome || (s.month.length == 2 && s.day.length == 2)

/-- The minutes that local time is ahead. -/
def WrittenOffset.minutes : WrittenOffset → Int
  | .universal => 0
  | .ahead negative hours minutes =>
    let total : Int := hours * 60 + minutes
    if negative then -total else total

/-- The first six digits of a fraction, filled up with zeros. -/
def microseconds (fraction : Text) : Nat :=
  let digits := fraction.take 6
  number digits * 10 ^ (6 - digits.length)

/-- The date or the time that is written, if its fields are in range. -/
def resolve (s : Timestamp) : Except CalendarError (Date ⊕ DateTime) :=
  match s.time with
  | none => (Date.of? s.year (number s.month) (number s.day)).map .inl
  | some t =>
    (DateTime.of? s.year (number s.month) (number s.day) t.hour t.minute t.second
      (microseconds t.fraction) (t.offset.map WrittenOffset.minutes)).map .inr

end Timestamp

end Schematic.Yaml
