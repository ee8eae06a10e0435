namespace Backlog

/-!
# Dates and moments

The dates and points in time that a document may hold. Nothing is computed with them; they are
checked when read and shown when a message quotes them.

* `Date.make?`, `Moment.make?` — refuse what is not on the calendar or the clock;
* `Date.label`, `Moment.label` — how they show inside a message.
-/

/-- Why a date or a moment is refused. -/
inductive CalendarError where
  | yearOutOfRange (year : Nat)
  | monthOutOfRange
  | dayOutOfRange
  | hourOutOfRange
  | minuteOutOfRange
  | secondOutOfRange
  /-- An offset of a day or more, in minutes. -/
  | offsetOutOfRange (minutes : Int)
  deriving DecidableEq, Repr

/-- Whole days and the seconds left over, the latter from 0 up to below a day. -/
-- Rounded down, so that the seconds of a span before zero are counted up from the day before.
def daysAndSeconds (minutes : Int) : Int × Int :=
  (Int.fdiv minutes 1440, Int.fmod minutes 1440 * 60)

/-- A span of time as messages show it. -/
def spanLabel (minutes : Int) : String :=
  let (days, seconds) := daysAndSeconds minutes
  let parts := (if days = 0 then [] else [s!"days={days}"]) ++
    (if seconds = 0 then [] else [s!"seconds={seconds}"])
  let inner := if parts.isEmpty then "0" else ", ".intercalate parts
  s!"datetime.timedelta({inner})"

/-- The wording of a refusal. -/
def CalendarError.message : CalendarError → String
  | .yearOutOfRange year => s!"year {year} is out of range"
  | .monthOutOfRange => "month must be in 1..12"
  | .dayOutOfRange => "day is out of range for month"
  | .hourOutOfRange => "hour must be in 0..23"
  | .minuteOutOfRange => "minute must be in 0..59"
  | .secondOutOfRange => "second must be in 0..59"
  | .offsetOutOfRange minutes =>
    "offset must be a timedelta strictly between -timedelta(hours=24) and timedelta(hours=24), " ++
      s!"not {spanLabel minutes}."

/-- Whether a year of the Gregorian calendar has a 29 February. -/
def isLeapYear (year : Nat) : Bool :=
  year % 4 = 0 && (year % 100 ≠ 0 || year % 400 = 0)

/-- The number of days of a month. -/
def daysInMonth (year month : Nat) : Nat :=
  if month = 2 then (if isLeapYear year then 29 else 28)
  else if month = 4 || month = 6 || month = 9 || month = 11 then 30
  else 31

/-- A day of the calendar. -/
structure Date where
  year : Nat
  month : Nat
  day : Nat
  deriving DecidableEq, Repr

/-- A date, if it is on the calendar. -/
def Date.make? (year month day : Nat) : Except CalendarError Date :=
  if year < 1 || 9999 < year then .error (.yearOutOfRange year)
  else if month < 1 || 12 < month then .error .monthOutOfRange
  else if day < 1 || daysInMonth year month < day then .error .dayOutOfRange
  else .ok ⟨year, month, day⟩

/-- How a date shows inside a message. -/
def Date.label (d : Date) : String := s!"datetime.date({d.year}, {d.month}, {d.day})"

/-- A point in time, with the offset from universal time in minutes if one is given. -/
structure Moment where
  date : Date
  hour : Nat
  minute : Nat
  second : Nat
  microsecond : Nat
  offset : Option Int
  deriving DecidableEq, Repr

/-- A moment, if it is on the calendar and the clock. The offset is checked first. -/
def Moment.make? (year month day hour minute second microsecond : Nat) (offset : Option Int) :
    Except CalendarError Moment := do
  -- Of two faults the one in the offset is reported, so it comes before the date.
  if let some minutes := offset then
    if 1440 ≤ minutes.natAbs then throw (.offsetOutOfRange minutes)
  let date ← Date.make? year month day
  if 23 < hour then throw .hourOutOfRange
  if 59 < minute then throw .minuteOutOfRange
  if 59 < second then throw .secondOutOfRange
  return ⟨date, hour, minute, second, microsecond, offset⟩

/-- How a moment shows inside a message: zero microseconds, and zero seconds before them, are left
    out. -/
def Moment.label (m : Moment) : String :=
  let clock := [m.hour, m.minute] ++
    (if m.second = 0 && m.microsecond = 0 then [] else [m.second]) ++
    (if m.microsecond = 0 then [] else [m.microsecond])
  let numbers := [m.date.year, m.date.month, m.date.day] ++ clock
  let zone := match m.offset with
    | none => ""
    | some 0 => ", tzinfo=datetime.timezone.utc"
    | some minutes => s!", tzinfo=datetime.timezone({spanLabel minutes})"
  let shown := ", ".intercalate (numbers.map toString)
  s!"datetime.datetime({shown}{zone})"

end Backlog
