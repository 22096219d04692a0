import Stencil.Time.Basic
import Stencil.Decimal.Notation
import Stencil.Decimal.Read

/-!
# RFC 3339

Reading and writing times as `2006-01-02T15:04:05.5+07:00`.

## Main definitions

* `Time.read?` — the time a text denotes
* `Time.write` — the text of a time, with as many groups of three fraction digits as it needs
* `offsetText` — an offset from UTC
-/

namespace Stencil.Time

open Stencil.Decimal

/-- A number with at least `width` digits, zeros in front. -/
def zeroPadded (width n : Nat) : List Char :=
  let digits := digitsOf n
  List.replicate (width - digits.length) '0' ++ digits

/-- A number of exactly `width` digits at the start of a text. -/
def takeNumber? (width : Nat) (cs : List Char) : Option (Nat × List Char) :=
  if (cs.take width).length = width ∧ (cs.take width).all Char.isDigit then
    some (natOfDigits (cs.take width), cs.drop width)
  else none

/-- What follows the character `c` at the start of a text. -/
def takeChar? (c : Char) : List Char → Option (List Char)
  | [] => none
  | d :: cs => if c = d then some cs else none

/-- The fraction of a second after the point in nanoseconds; digits beyond the ninth are dropped. -/
def takeFraction? (cs : List Char) : Option (Nat × List Char) :=
  let digits := cs.takeWhile Char.isDigit
  if digits.isEmpty then none
  else
    let kept := digits.take 9
    some (natOfDigits kept * Nat.pow 10 (9 - kept.length), cs.dropWhile Char.isDigit)

/-- An offset from UTC in seconds: `Z`, or a sign, hours, a colon and minutes. -/
def takeOffset? : List Char → Option (Int × List Char)
  | [] => none
  | c :: cs =>
    if c == 'Z' || c == 'z' then some (0, cs)
    else if c == '+' || c == '-' || c == '\u2212' then do
      let (hours, cs) ← takeNumber? 2 cs
      let cs ← takeChar? ':' cs
      let (minutes, cs) ← takeNumber? 2 cs
      if minutes < 60 then
        let size : Int := hours * 3600 + minutes * 60
        some (if c == '+' then size else -size, cs)
      else none
    else none

/-- The separator between date and time of day. -/
def takeSeparator? : List Char → Option (List Char)
  | c :: cs => if c == 'T' || c == 't' || c == ' ' then some cs else none
  | [] => none

/-- The date at the start of a text. -/
def takeDate? (cs : List Char) : Option (Date × List Char) := do
  let (year, cs) ← takeNumber? 4 cs
  let cs ← takeChar? '-' cs
  let (month, cs) ← takeNumber? 2 cs
  let cs ← takeChar? '-' cs
  let (day, cs) ← takeNumber? 2 cs
  if 1 ≤ month ∧ month ≤ 12 ∧ 1 ≤ day ∧ day ≤ daysInMonth year month then
    some (⟨year, month, day⟩, cs)
  else none

/-- The time of day at the start of a text; second 60 is a leap second. -/
def takeClock? (cs : List Char) : Option (Clock × List Char) := do
  let (hour, cs) ← takeNumber? 2 cs
  let cs ← takeChar? ':' cs
  let (minute, cs) ← takeNumber? 2 cs
  let cs ← takeChar? ':' cs
  let (second, cs) ← takeNumber? 2 cs
  let (nanos, cs) ← match cs with
    | '.' :: rest => takeFraction? rest
    | rest => some (0, rest)
  if hour < 24 ∧ minute < 60 ∧ second ≤ 60 then
    let clock : Clock :=
      if second = 60 then ⟨hour, minute, 59, nanos + 1000000000⟩ else ⟨hour, minute, second, nanos⟩
    some (clock, cs)
  else none

/-- The time a text denotes. -/
def readChars? (cs : List Char) : Option Time := do
  let (date, cs) ← takeDate? cs
  let cs ← takeSeparator? cs
  let (clock, cs) ← takeClock? cs
  let (offset, cs) ← takeOffset? cs
  if cs.isEmpty ∧ offset.natAbs < 86400 then some (ofLocal date clock offset) else none

/-- The time a string denotes. -/
def read? (s : String) : Option Time := readChars? s.toList

/-- An offset of whole minutes, with or without a colon. -/
def offsetText (colon : Bool) (offset : Int) : List Char :=
  let minutes := (offset.natAbs + 30) / 60
  [if offset < 0 then '-' else '+'] ++ zeroPadded 2 (minutes / 60) ++
    (if colon then [':'] else []) ++ zeroPadded 2 (minutes % 60)

/-- A year of four digits, with a sign when it has more or is negative. -/
def yearText (year : Int) : List Char :=
  if 0 ≤ year ∧ year ≤ 9999 then zeroPadded 4 year.toNat
  else (if year < 0 then '-' else '+') :: zeroPadded 4 year.natAbs

/-- The fraction of a second with 3, 6 or 9 digits, or nothing at a whole second. -/
def fractionText (nanos : Nat) : List Char :=
  if nanos == 0 then []
  else if nanos % 1000000 == 0 then '.' :: zeroPadded 3 (nanos / 1000000)
  else if nanos % 1000 == 0 then '.' :: zeroPadded 6 (nanos / 1000)
  else '.' :: zeroPadded 9 nanos

/-- The text of a time; `zulu` tells whether offset zero is written `Z`. -/
def writeChars (zulu : Bool) (t : Time) : List Char :=
  let d := t.date
  let c := t.clock
  yearText d.year ++ ['-'] ++ zeroPadded 2 d.month ++ ['-'] ++ zeroPadded 2 d.day ++ ['T'] ++
    zeroPadded 2 c.hour ++ [':'] ++ zeroPadded 2 c.minute ++ [':'] ++
    zeroPadded 2 (Clock.shownSecond c) ++
    fractionText (Clock.shownNanos c) ++
    (if zulu && t.offset == 0 then ['Z'] else offsetText true t.offset)

/-- The text of a time. -/
def write (t : Time) : String := String.ofList (t.writeChars true)

end Stencil.Time
