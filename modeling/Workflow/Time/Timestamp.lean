import Workflow.Json.Numeral
import Workflow.Text.Affix
import Workflow.Text.Blank

/- Moments of universal time, written as date and time of day. A moment is kept as
   the fields of the Gregorian calendar. Written, the fraction of the second has no,
   three, six or nine digits; read, the parts may have blanks between them and fewer
   digits, and an offset of hours and minutes leads back to universal time. -/
namespace Workflow

/-- Whether a year has a leap day. -/
def leapYear (year : Int) : Bool := year % 4 == 0 && (year % 100 != 0 || year % 400 == 0)

/-- The number of days of a month. -/
def daysOfMonth (year : Int) : Nat → Nat
  | 2 => if leapYear year then 29 else 28
  | 4 => 30
  | 6 => 30
  | 9 => 30
  | 11 => 30
  | _ => 31

/-- A moment of universal time. The nanoseconds go on beyond a full second in a leap second,
which stands behind a second 59. -/
structure Timestamp where
  year : Int
  month : Nat
  day : Nat
  hour : Nat
  minute : Nat
  second : Nat
  nano : Nat
  deriving DecidableEq, Repr, Inhabited

namespace Timestamp

/-- The first year that a moment may lie in. -/
def firstYear : Int := -262143

/-- The last year that a moment may lie in. -/
def lastYear : Int := 262142

/-- Whether the fields are those of a moment. -/
def valid (t : Timestamp) : Bool :=
  firstYear ≤ t.year && t.year ≤ lastYear && 1 ≤ t.month && t.month ≤ 12
    && 1 ≤ t.day && t.day ≤ daysOfMonth t.year t.month
    && t.hour < 24 && t.minute < 60 && t.second < 60
    && (t.nano < 1000000000 || (t.second == 59 && t.nano < 2000000000))

/-- The moment with the date one day earlier. -/
def dayBefore (t : Timestamp) : Timestamp :=
  if 1 < t.day then { t with day := t.day - 1 }
  else if 1 < t.month then
    { t with month := t.month - 1, day := daysOfMonth t.year (t.month - 1) }
  else { t with year := t.year - 1, month := 12, day := 31 }

/-- The moment with the date one day later. -/
def dayAfter (t : Timestamp) : Timestamp :=
  if t.day < daysOfMonth t.year t.month then { t with day := t.day + 1 }
  else if t.month < 12 then { t with month := t.month + 1, day := 1 }
  else { t with year := t.year + 1, month := 1, day := 1 }

/-- The moment a number of minutes, less than a day, later or earlier. -/
def addMinutes (t : Timestamp) (minutes : Int) : Timestamp :=
  let m : Int := t.hour * 60 + t.minute + minutes
  let base := if m < 0 then t.dayBefore else if 1440 ≤ m then t.dayAfter else t
  let ofDay := (m % 1440).toNat
  { base with hour := ofDay / 60, minute := ofDay % 60 }

/-! ## Writing -/

/-- The decimal digits of a number, with zeros in front up to a width. -/
def padded (width n : Nat) : List Char :=
  let ds := Number.digits n
  List.replicate (width - ds.length) '0' ++ ds

/-- A year, with a sign when it has not four digits. -/
def yearText (year : Int) : List Char :=
  if 0 ≤ year && year ≤ 9999 then padded 4 year.toNat
  else (if year < 0 then '-' else '+') :: padded 4 year.natAbs

/-- The fraction of a second, in as few groups of three digits as it takes. -/
def fractionText (nano : Nat) : List Char :=
  if nano == 0 then []
  else if nano % 1000000 == 0 then '.' :: padded 3 (nano / 1000000)
  else if nano % 1000 == 0 then '.' :: padded 6 (nano / 1000)
  else '.' :: padded 9 nano

/-- The text of a date. -/
def dateText (t : Timestamp) : List Char :=
  yearText t.year ++ ['-'] ++ padded 2 t.month ++ ['-'] ++ padded 2 t.day

/-- The text of a moment. -/
def text (t : Timestamp) : String :=
  let (second, nano) :=
    if 1000000000 ≤ t.nano then (t.second + 1, t.nano - 1000000000) else (t.second, t.nano)
  String.ofList (t.dateText ++ ['T'] ++ padded 2 t.hour ++ [':'] ++ padded 2 t.minute ++ [':']
    ++ padded 2 second ++ fractionText nano ++ ['Z'])

/-! ## Reading -/

/-- A number of at least one digit and at most `width` of them, with blanks in front. -/
def scanNumber (width : Nat) (cs : List Char) : Option (Nat × List Char) :=
  let cs := Text.trimStartChars cs
  let ds := (cs.take width).takeWhile Char.isDigit
  if ds.isEmpty then none else some (Json.natOfDigits ds, cs.drop ds.length)

/-- A year; one with a sign may have any number of digits. -/
def scanYear (cs : List Char) : Option (Int × List Char) :=
  match Text.trimStartChars cs with
  | '-' :: rest =>
    let ds := rest.takeWhile Char.isDigit
    if ds.isEmpty then none else some (-(Json.natOfDigits ds : Int), rest.drop ds.length)
  | '+' :: rest =>
    let ds := rest.takeWhile Char.isDigit
    if ds.isEmpty then none else some ((Json.natOfDigits ds : Int), rest.drop ds.length)
  | rest => (scanNumber 4 rest).map fun (n, rest) => ((n : Int), rest)

/-- What follows a mark that may have blanks in front. -/
def scanMark (mark : Char) (cs : List Char) : Option (List Char) :=
  match Text.trimStartChars cs with
  | c :: rest => if c = mark then some rest else none
  | [] => none

/-- The nanoseconds of a fraction of a second; digits behind the ninth are passed over. -/
def scanFraction : List Char → Option (Nat × List Char)
  | '.' :: rest =>
    let ds := rest.takeWhile Char.isDigit
    if ds.isEmpty then none
    else
      let nine := ds.take 9
      some (Json.natOfDigits nine * Nat.pow 10 (9 - nine.length), rest.drop ds.length)
  | rest => some (0, rest)

/-- Two digits at the front of a text. -/
def scanTwo : List Char → Option (Nat × List Char)
  | a :: b :: rest =>
    if a.isDigit && b.isDigit then some (Json.natOfDigits [a, b], rest) else none
  | _ => none

/-- The minutes of an offset whose sign has been read, colons or blanks standing before them. -/
def scanOffsetMinutes (cs : List Char) : Option (Nat × List Char) := do
  let (hours, rest) ← scanTwo cs
  let (minutes, rest) ← scanTwo (rest.dropWhile fun c => c == ':' || Text.isBlank c)
  if minutes < 60 && hours < 24 then some (hours * 60 + minutes, rest) else none

/-- The minutes that a zone is ahead of universal time. -/
def scanZone (cs : List Char) : Option (Int × List Char) :=
  match Text.trimStartChars cs with
  | 'Z' :: rest => some (0, rest)
  | 'z' :: rest => some (0, rest)
  | '+' :: rest => (scanOffsetMinutes rest).map fun (m, rest) => ((m : Int), rest)
  | '-' :: rest => (scanOffsetMinutes rest).map fun (m, rest) => (-(m : Int), rest)
  | '\u2212' :: rest => (scanOffsetMinutes rest).map fun (m, rest) => (-(m : Int), rest)
  | cs =>
    if (cs.take 3).map Char.toUpper == ['U', 'T', 'C'] then some (0, cs.drop 3) else none

/-- The moment that a text writes. -/
def parse? (s : String) : Option Timestamp := do
  let (year, rest) ← scanYear s.toList
  let rest ← scanMark '-' rest
  let (month, rest) ← scanNumber 2 rest
  let rest ← scanMark '-' rest
  let (day, rest) ← scanNumber 2 rest
  let rest ← match rest with
    | c :: rest => if c == 'T' || c == 't' || c == ' ' then some rest else none
    | [] => none
  let (hour, rest) ← scanNumber 2 rest
  let rest ← scanMark ':' rest
  let (minute, rest) ← scanNumber 2 rest
  let rest ← scanMark ':' rest
  let (second, rest) ← scanNumber 2 rest
  let (nano, rest) ← scanFraction rest
  let (offset, rest) ← scanZone rest
  let written : Timestamp :=
    if second = 60 then ⟨year, month, day, hour, minute, 59, nano + 1000000000⟩
    else ⟨year, month, day, hour, minute, second, nano⟩
  let t := written.addMinutes (-offset)
  if written.valid && t.valid && rest.all Text.isBlank then some t else none

end Timestamp

end Workflow
