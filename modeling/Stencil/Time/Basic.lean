/-!
# Times

An instant with the offset of the place it was written for, and its calendar fields there.

## Main definitions

* `Time` — seconds since 1970-01-01T00:00:00Z, nanoseconds and an offset from UTC
* `Date`, `Clock` — the fields of the local date and of the local time of day
* `daysOfDate`, `dateOfDays` — the proleptic Gregorian calendar as a count of days
* `Time.compare` — the order of instants

## Design notes

A leap second is second 59 with a billion nanoseconds more, so that the count of seconds needs no
table. Two times are the same instant whatever their offsets are.
-/

namespace Stencil

/-- An instant, with the offset from UTC in seconds at the place it was written for. Times at two
places are the same instant if they agree in seconds and nanoseconds. -/
structure Time where
  seconds : Int
  nanos : Nat
  offset : Int
  deriving Repr, DecidableEq

/-- A calendar date. -/
structure Date where
  year : Int
  month : Nat
  day : Nat
  deriving Repr, DecidableEq

/-- A time of day; in a leap second `nanos` is a billion or more. -/
structure Clock where
  hour : Nat
  minute : Nat
  second : Nat
  nanos : Nat
  deriving Repr, DecidableEq

namespace Time

/-- Whether a year has 366 days. -/
def isLeapYear (year : Int) : Bool := year % 4 == 0 && (year % 100 != 0 || year % 400 == 0)

/-- The number of days of a month. -/
def daysInMonth (year : Int) (month : Nat) : Nat :=
  if month == 2 then if isLeapYear year then 29 else 28
  else if month == 4 || month == 6 || month == 9 || month == 11 then 30 else 31

/-- The number of days of the months before `month`. -/
def daysBeforeMonth (year : Int) (month : Nat) : Nat :=
  (List.range (month - 1)).foldr (fun m days => daysInMonth year (m + 1) + days) 0

/-- The number of days of the years before `year`, counted from the start of year 1. -/
def daysBeforeYear (year : Int) : Int :=
  let past := year - 1
  365 * past + past.fdiv 4 - past.fdiv 100 + past.fdiv 400

/-- The days from 1970-01-01 to a date. -/
def daysOfDate (d : Date) : Int :=
  daysBeforeYear d.year + daysBeforeMonth d.year d.month + d.day - 1 - daysBeforeYear 1970

/-- The month and the day in it of a day of the year, counted from zero. -/
def monthAndDay (year : Int) (dayOfYear : Nat) : (months : Nat) → Nat × Nat
  | 0 => (1, dayOfYear + 1)
  | months + 1 =>
    let before := daysBeforeMonth year (months + 1)
    if before ≤ dayOfYear then (months + 1, dayOfYear - before + 1)
    else monthAndDay year dayOfYear months

/-- The year a count of days from the start of year 1 falls in. -/
def yearOfDays (days : Int) : Int :=
  let guess := (days * 400).fdiv 146097 + 1
  if days < daysBeforeYear guess then guess - 1
  else if daysBeforeYear (guess + 1) ≤ days then guess + 1
  else guess

/-- The date some days after 1970-01-01. -/
def dateOfDays (days : Int) : Date :=
  let days := days + daysBeforeYear 1970
  let year := yearOfDays days
  let (month, day) := monthAndDay year (days - daysBeforeYear year).toNat 12
  ⟨year, month, day⟩

/-- The number of the day in its year, from one. -/
def dayOfYear (d : Date) : Nat := daysBeforeMonth d.year d.month + d.day

/-- The weekday of a date, Monday being zero. -/
def weekday (d : Date) : Nat := ((daysOfDate d + 3) % 7).toNat

/-- The seconds since 1970-01-01T00:00:00 on the clock at the place of the time. -/
def localSeconds (t : Time) : Int := t.seconds + t.offset

/-- The date at the place of the time. -/
def date (t : Time) : Date := dateOfDays (t.localSeconds.fdiv 86400)

/-- The time of day at the place of the time. -/
def clock (t : Time) : Clock :=
  let s := (t.localSeconds.fmod 86400).toNat
  ⟨s / 3600, s / 60 % 60, s % 60, t.nanos⟩

/-- The time with these local fields. -/
def ofLocal (d : Date) (c : Clock) (offset : Int) : Time :=
  { seconds := daysOfDate d * 86400 + c.hour * 3600 + c.minute * 60 + c.second - offset
    nanos := c.nanos
    offset := offset }

/-- The second of the minute as it is written, 60 in a leap second. -/
def Clock.shownSecond (c : Clock) : Nat := c.second + c.nanos / 1000000000

/-- The nanoseconds of the second as they are written. -/
def Clock.shownNanos (c : Clock) : Nat := c.nanos % 1000000000

/-- Whether two times are the same instant. -/
def sameInstant (a b : Time) : Bool := a.seconds == b.seconds && a.nanos == b.nanos

/-- The order of instants. -/
def compare (a b : Time) : Ordering :=
  (Ord.compare a.seconds b.seconds).then (Ord.compare a.nanos b.nanos)

end Time
end Stencil
