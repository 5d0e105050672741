/-!
# Dates and times of settings files

A settings file can give a day, a time of day, or both together, and then with or without an offset
from universal time.

## Main definitions

* `Date`, `Time`, `Offset` — a day of the calendar, a time of day, and a distance from universal
  time.
* `Moment` — the three kinds of dates and times.
* `Moment.text` — a date or time as messages show it.
* `Moment.place` — where it stands among those it can be compared with.
-/

namespace Whitespace.Config

/-! ## Days -/

/-- Whether a year has a leap day. -/
def isLeapYear (year : Nat) : Bool := year % 4 = 0 && (year % 100 ≠ 0 || year % 400 = 0)

/-- The number of days of a month. -/
def daysIn (year : Nat) : (month : Nat) → Nat
  | 2 => if isLeapYear year then 29 else 28
  | 4 | 6 | 9 | 11 => 30
  | _ => 31

/-- A day of the calendar. -/
structure Date where
  year : Nat
  month : Nat
  day : Nat
  year_pos : 0 < year
  month_mem : 1 ≤ month ∧ month ≤ 12
  day_mem : 1 ≤ day ∧ day ≤ daysIn year month
  deriving DecidableEq, Repr

namespace Date

/-- The day with the given numbers, if the calendar has it. -/
def ofParts? (year month day : Nat) : Option Date :=
  if h : 0 < year ∧ (1 ≤ month ∧ month ≤ 12) ∧ 1 ≤ day ∧ day ≤ daysIn year month then
    some ⟨year, month, day, h.1, h.2.1, h.2.2⟩
  else none

/-- The number of days up to and with this one. -/
def ordinal (d : Date) : Nat :=
  let years := d.year - 1
  let months := (List.range (d.month - 1)).foldl (fun days m => days + daysIn d.year (m + 1)) 0
  365 * years + years / 4 - years / 100 + years / 400 + months + d.day

end Date

/-! ## Times -/

/-- A time of day. -/
structure Time where
  hour : Nat
  minute : Nat
  second : Nat
  micro : Nat
  hour_lt : hour < 24
  minute_lt : minute < 60
  second_lt : second < 60
  micro_lt : micro < 1000000
  deriving DecidableEq, Repr

namespace Time

/-- The time with the given numbers, if the day has it. -/
def ofParts? (hour minute second micro : Nat) : Option Time :=
  if h : hour < 24 ∧ minute < 60 ∧ second < 60 ∧ micro < 1000000 then
    some ⟨hour, minute, second, micro, h.1, h.2.1, h.2.2.1, h.2.2.2⟩
  else none

/-- The microseconds since midnight. -/
def micros (t : Time) : Nat := ((t.hour * 60 + t.minute) * 60 + t.second) * 1000000 + t.micro

/-- The numbers that are shown: seconds and microseconds only up to the last one that counts. -/
def parts (t : Time) : List Nat :=
  if t.micro ≠ 0 then [t.hour, t.minute, t.second, t.micro]
  else if t.second ≠ 0 then [t.hour, t.minute, t.second]
  else [t.hour, t.minute]

end Time

/-- A distance from universal time, less than a day. -/
structure Offset where
  minutes : Int
  minutes_lt : minutes.natAbs < 1440
  deriving DecidableEq, Repr

namespace Offset

/-- The offset with the given sign, hours and minutes, if it is less than a day. -/
def ofParts? (negative : Bool) (hours minutes : Nat) : Option Offset :=
  let total : Int := hours * 60 + minutes
  let signed := if negative then -total else total
  if h : hours < 24 ∧ minutes < 60 ∧ signed.natAbs < 1440 then some ⟨signed, h.2.2⟩ else none

/-- Universal time itself. -/
def zero : Offset := ⟨0, by decide⟩

/-- An offset as messages show it. One to the west is a day less some seconds. -/
def text (z : Offset) : String :=
  if z.minutes = 0 then "datetime.timezone.utc"
  else
    let days := if z.minutes < 0 then "days=-1, " else ""
    let seconds := (z.minutes * 60 % 86400).toNat
    "datetime.timezone(datetime.timedelta(" ++ days ++ "seconds=" ++ seconds.repr ++ "))"

end Offset

/-! ## Moments -/

/-- A day, a time of day, or both. -/
inductive Moment where
  | date (d : Date)
  | time (t : Time)
  | dateTime (d : Date) (t : Time) (zone : Option Offset)
  deriving DecidableEq, Repr

namespace Moment

/-- The name of the kind of a date or time. -/
def kind : Moment → String
  | date _ => "datetime.date"
  | time _ => "datetime.time"
  | dateTime .. => "datetime.datetime"

/-- A date or time as messages show it. -/
def text (m : Moment) : String :=
  let arguments :=
    match m with
    | date d => [d.year, d.month, d.day].map Nat.repr
    | time t => t.parts.map Nat.repr
    | dateTime d t zone =>
      ([d.year, d.month, d.day] ++ t.parts).map Nat.repr ++
        zone.toList.map fun z => "tzinfo=" ++ z.text
  m.kind ++ "(" ++ ", ".intercalate arguments ++ ")"

/-- Where a date or time stands among those it can be compared with. Those with an offset are
compared in universal time. -/
def place : Moment → Int
  | date d => d.ordinal
  | time t => t.micros
  | dateTime d t zone =>
    let shift : Int := (zone.map (·.minutes)).getD 0
    (d.ordinal * 86400000000 + t.micros : Nat) - shift * 60000000

end Moment

end Whitespace.Config
