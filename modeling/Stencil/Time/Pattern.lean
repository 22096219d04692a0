import Stencil.Time.Rfc3339
import Stencil.Text.Blank

/-!
# Time patterns

Formatting times by a pattern of percent directives.

## Main definitions

* `Pattern.Item` — a literal, a number or a name to be written
* `Pattern.parse?` — the items of a pattern, nothing if a directive is unknown
* `Pattern.write` — the text of a time by the items

## Design notes

A padding flag applies to one number; on any other directive it makes the pattern invalid.
-/

namespace Stencil.Time.Pattern

open Stencil.Decimal

/-- How a number is filled up to its width. -/
inductive Pad where
  | none
  | zero
  | space
  deriving DecidableEq

/-- The numbers a pattern can show. -/
inductive Field where
  | year | century | yearOfCentury | isoYear | isoYearOfCentury | quarter | month | day
  | weekFromSunday | weekFromMonday | isoWeek | dayFromSunday | dayFromMonday | dayOfYear
  | hour | hour12 | minute | second | nanos | timestamp
  deriving DecidableEq

/-- How much of an offset is shown, and with colons or without. -/
inductive OffsetForm where
  | hours
  | minutes (colon : Bool)
  | seconds

/-- A piece of a formatted time. -/
inductive Item where
  | literal (text : List Char)
  | number (field : Field) (pad : Pad)
  | monthName (full : Bool)
  | weekdayName (full : Bool)
  | meridiem (upper : Bool)
  /-- The fraction of the second with as many digits as it needs. -/
  | fraction
  /-- The fraction of the second cut to a number of digits. -/
  | fixedFraction (digits : Nat) (point : Bool)
  | zoneName
  | offset (form : OffsetForm)
  | rfc3339

/-- The items of a directive of one letter. -/
def itemsOf? (c : Char) : Option (List Item) :=
  let two (f : Field) : Item := .number f .zero
  let colon : Item := .literal [':']
  let slash : Item := .literal ['/']
  let dash : Item := .literal ['-']
  let blank : Item := .literal [' ']
  match c with
  | 'A' => some [.weekdayName true]
  | 'B' => some [.monthName true]
  | 'C' => some [two .century]
  | 'D' | 'x' => some [two .month, slash, two .day, slash, two .yearOfCentury]
  | 'F' => some [two .year, dash, two .month, dash, two .day]
  | 'G' => some [two .isoYear]
  | 'H' => some [two .hour]
  | 'I' => some [two .hour12]
  | 'M' => some [two .minute]
  | 'P' => some [.meridiem false]
  | 'R' => some [two .hour, colon, two .minute]
  | 'S' => some [two .second]
  | 'T' | 'X' => some [two .hour, colon, two .minute, colon, two .second]
  | 'U' => some [two .weekFromSunday]
  | 'V' => some [two .isoWeek]
  | 'W' => some [two .weekFromMonday]
  | 'Y' => some [two .year]
  | 'Z' => some [.zoneName]
  | 'a' => some [.weekdayName false]
  | 'b' | 'h' => some [.monthName false]
  | 'c' => some [.weekdayName false, blank, .monthName false, blank, .number .day .space, blank,
      two .hour, colon, two .minute, colon, two .second, blank, two .year]
  | 'd' => some [two .day]
  | 'e' => some [.number .day .space]
  | 'f' => some [two .nanos]
  | 'g' => some [two .isoYearOfCentury]
  | 'j' => some [two .dayOfYear]
  | 'k' => some [.number .hour .space]
  | 'l' => some [.number .hour12 .space]
  | 'm' => some [two .month]
  | 'n' => some [.literal ['\n']]
  | 'p' => some [.meridiem true]
  | 'q' => some [.number .quarter .none]
  | 'r' => some [two .hour12, colon, two .minute, colon, two .second, blank, .meridiem true]
  | 's' => some [.number .timestamp .none]
  | 't' => some [.literal ['\t']]
  | 'u' => some [.number .dayFromMonday .none]
  | 'v' => some [.number .day .space, dash, .monthName false, dash, two .year]
  | 'w' => some [.number .dayFromSunday .none]
  | 'y' => some [two .yearOfCentury]
  | 'z' => some [.offset (.minutes false)]
  | '+' => some [.rfc3339]
  | '%' => some [.literal ['%']]
  | _ => none

/-- The items of a directive after its padding flag, and what follows it. -/
def directive? : List Char → Option (List Item × List Char)
  | '.' :: '3' :: 'f' :: cs => some ([.fixedFraction 3 true], cs)
  | '.' :: '6' :: 'f' :: cs => some ([.fixedFraction 6 true], cs)
  | '.' :: '9' :: 'f' :: cs => some ([.fixedFraction 9 true], cs)
  | '.' :: 'f' :: cs => some ([.fraction], cs)
  | '3' :: 'f' :: cs => some ([.fixedFraction 3 false], cs)
  | '6' :: 'f' :: cs => some ([.fixedFraction 6 false], cs)
  | '9' :: 'f' :: cs => some ([.fixedFraction 9 false], cs)
  | ':' :: ':' :: ':' :: 'z' :: cs => some ([.offset .hours], cs)
  | ':' :: ':' :: 'z' :: cs => some ([.offset .seconds], cs)
  | ':' :: 'z' :: cs => some ([.offset (.minutes true)], cs)
  | c :: cs => (itemsOf? c).map (·, cs)
  | [] => none

/-- The padding a flag stands for. -/
def padOf? : Char → Option Pad
  | '-' => some .none
  | '0' => some .zero
  | '_' => some .space
  | _ => none

/-- Puts the padding of a flag on the single number of a directive. -/
def repad? (pad : Pad) : List Item → Option (List Item)
  | [.number field _] => some [.number field pad]
  | _ => none

/-- The items of the directive after a percent sign, and what follows it. -/
def flagged? : List Char → Option (List Item × List Char)
  | [] => none
  | c :: cs =>
    match padOf? c with
    | some pad => (directive? cs).bind fun (items, rest) => (repad? pad items).map (·, rest)
    | none => directive? (c :: cs)

/-- The items of a pattern; `steps` bounds their number. -/
def parseSteps : (steps : Nat) → List Char → Option (List Item)
  | _, [] => some []
  | 0, _ => none
  | steps + 1, '%' :: cs => do
    let (items, rest) ← flagged? cs
    let others ← parseSteps steps rest
    some (items ++ others)
  | steps + 1, c :: cs => (parseSteps steps cs).map (.literal [c] :: ·)

/-- The items of a pattern. -/
def parse? (cs : List Char) : Option (List Item) := parseSteps cs.length cs

/-- The English names of the months. -/
def monthNames : List String :=
  ["January", "February", "March", "April", "May", "June", "July", "August", "September",
    "October", "November", "December"]

/-- The English names of the weekdays from Monday on. -/
def weekdayNames : List String :=
  ["Monday", "Tuesday", "Wednesday", "Thursday", "Friday", "Saturday", "Sunday"]

/-- A name from a list, in full or its first three letters. -/
def nameText (names : List String) (index : Nat) (full : Bool) : List Char :=
  let name := (names.getD index "").toList
  if full then name else name.take 3

/-- A number filled up on the left to a width. -/
def padded (pad : Pad) (width : Nat) (sign digits : List Char) : List Char :=
  let fill := width - sign.length - digits.length
  match pad with
  | .none => sign ++ digits
  | .zero => sign ++ List.replicate fill '0' ++ digits
  | .space => List.replicate fill ' ' ++ sign ++ digits

/-- A number filled up to a width; a sign counts towards it. -/
def numberText (pad : Pad) (width : Nat) (n : Int) : List Char :=
  padded pad width (if n < 0 then ['-'] else []) (digitsOf n.natAbs)

/-- A year has four digits; outside of those it has a sign besides. -/
def paddedYear (pad : Pad) (year : Int) : List Char :=
  if 0 ≤ year ∧ year ≤ 9999 then numberText pad 4 year
  else padded pad 5 [if year < 0 then '-' else '+'] (digitsOf year.natAbs)

/-- The number of the week of a date, for weeks that start `daysSinceStart` days before it. -/
def weekNumber (d : Date) (daysSinceStart : Nat) : Nat := (dayOfYear d + 6 - daysSinceStart) / 7

/-- The ISO year and week of a date: those of the Thursday of its week. -/
def isoWeek (d : Date) : Int × Nat :=
  let thursday := dateOfDays (daysOfDate d - weekday d + 3)
  (thursday.year, (dayOfYear thursday - 1) / 7 + 1)

/-- The hour on a clock of twelve hours. -/
def hour12 (c : Clock) : Nat := if c.hour % 12 == 0 then 12 else c.hour % 12

/-- The text of a number of a time. -/
def fieldText (t : Time) (pad : Pad) : Field → List Char
  | .year => paddedYear pad t.date.year
  | .century => numberText pad 2 (t.date.year.fdiv 100)
  | .yearOfCentury => numberText pad 2 (t.date.year.fmod 100)
  | .isoYear => paddedYear pad (isoWeek t.date).1
  | .isoYearOfCentury => numberText pad 2 ((isoWeek t.date).1.fmod 100)
  | .quarter => numberText pad 1 ((t.date.month - 1) / 3 + 1 : Nat)
  | .month => numberText pad 2 t.date.month
  | .day => numberText pad 2 t.date.day
  | .weekFromSunday => numberText pad 2 (weekNumber t.date ((weekday t.date + 1) % 7))
  | .weekFromMonday => numberText pad 2 (weekNumber t.date (weekday t.date))
  | .isoWeek => numberText pad 2 (isoWeek t.date).2
  | .dayFromSunday => numberText pad 1 ((weekday t.date + 1) % 7 : Nat)
  | .dayFromMonday => numberText pad 1 (weekday t.date + 1 : Nat)
  | .dayOfYear => numberText pad 3 (dayOfYear t.date)
  | .hour => numberText pad 2 t.clock.hour
  | .hour12 => numberText pad 2 (hour12 t.clock)
  | .minute => numberText pad 2 t.clock.minute
  | .second => numberText pad 2 (Clock.shownSecond t.clock)
  | .nanos => numberText pad 9 (Clock.shownNanos t.clock)
  | .timestamp => numberText pad 9 t.seconds

/-- The text of an offset from UTC. -/
def offsetFormText (offset : Int) : OffsetForm → List Char
  | .hours => [if offset < 0 then '-' else '+'] ++ zeroPadded 2 (offset.natAbs / 3600)
  | .minutes colon => offsetText colon offset
  | .seconds =>
    [if offset < 0 then '-' else '+'] ++ zeroPadded 2 (offset.natAbs / 3600) ++ [':'] ++
      zeroPadded 2 (offset.natAbs / 60 % 60) ++ [':'] ++ zeroPadded 2 (offset.natAbs % 60)

/-- The text of an item. -/
def itemText (t : Time) : Item → List Char
  | .literal text => text
  | .number field pad => fieldText t pad field
  | .monthName full => nameText monthNames (t.date.month - 1) full
  | .weekdayName full => nameText weekdayNames (weekday t.date) full
  | .meridiem upper =>
    if t.clock.hour < 12 then (if upper then ['A', 'M'] else ['a', 'm'])
    else (if upper then ['P', 'M'] else ['p', 'm'])
  | .fraction => fractionText (Clock.shownNanos t.clock)
  | .fixedFraction digits point =>
    (if point then ['.'] else []) ++
      zeroPadded digits (Clock.shownNanos t.clock / Nat.pow 10 (9 - digits))
  | .zoneName => offsetText true t.offset
  | .offset form => offsetFormText t.offset form
  | .rfc3339 => t.writeChars false

/-- The text of a time by a list of items. -/
def write (items : List Item) (t : Time) : String := String.ofList (items.flatMap (itemText t))

end Stencil.Time.Pattern
