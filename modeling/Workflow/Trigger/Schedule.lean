import Workflow.Json.Basic
import Workflow.Text.Affix
import Workflow.Text.Blank
import Workflow.Json.Numeral

/- The interval of a timer, in nanoseconds, and how a payload asks for one: by a
   number of milliseconds, minutes or hours, or by a cron text of the few forms that
   mean a fixed interval. A number that gives no usable interval is passed over in
   favour of what comes next. -/
namespace Workflow.Schedule

/-- Nanoseconds in a millisecond. -/
def milli : Nat := 1000000

/-- Nanoseconds in a second. -/
def second : Nat := 1000000000

/-- The longest interval: 366 days. -/
def longest : Nat := 366 * 24 * 3600 * second

/-- An interval that is not zero and not too long. -/
def bounded (interval : Nat) : Option Nat :=
  if interval != 0 && interval ≤ longest then some interval else none

/-- The milliseconds of a field that is a number and not negative, rounded; at most what 64 bits
hold. -/
def millis? (payload : Json) (field : String) : Option Nat :=
  (((payload.field? field).bind Json.asReal?).filter (·.isNonneg)).map fun x =>
    min x.roundHalfUp 0xffffffffffffffff

/-- The interval of a field that counts units of so many seconds. The count may be a fraction;
its product with the unit is a double, and is rounded to nanoseconds. -/
def counted? (payload : Json) (field : String) (seconds : Nat) : Option Nat := do
  let count ← ((payload.field? field).bind Json.asReal?).filter (·.isPositive)
  let unit ← Number.Binary64.ofNat seconds
  let product ← count.mul unit
  bounded (product.roundTimes second)

/-- The number when 64 bits hold it. -/
def word? (n : Nat) : Option Nat := if n ≤ 0xffffffffffffffff then some n else none

/-- The number of 64 bits that digits write, a plus sign being allowed in front. -/
def count? (digits : List Char) : Option Nat :=
  let ds := match digits with
    | '+' :: rest => rest
    | rest => rest
  if !ds.isEmpty && ds.all Char.isDigit then word? (Json.natOfDigits ds) else none

/-- The step of a cron field that stands for every so many. -/
def every? (field : String) : Option Nat :=
  match field.toList with
  | '*' :: '/' :: digits => count? digits
  | _ => none

/-- The interval of so many units of so many seconds, if 64 bits hold the seconds. -/
def units? (count seconds : Nat) : Option Nat :=
  (word? (count * seconds)).bind fun total => bounded (total * second)

/-- The interval of a cron text: every so many minutes, or every so many hours at minute zero,
in which case a sixth field may follow. -/
def ofCron? (text : String) : Option Nat :=
  match Text.words text with
  | [minute, "*", "*", "*", "*"] => (every? minute).bind (units? · 60)
  | ["0", hour, "*", "*", "*"] => (every? hour).bind (units? · 3600)
  | ["0", hour, "*", "*", "*", "*"] => (every? hour).bind (units? · 3600)
  | _ => none

/-- The interval that a payload asks for. -/
def interval? (payload : Json) : Option Nat :=
  ((millis? payload "intervalMs").bind fun ms => bounded (ms * milli))
    <|> counted? payload "everyMinutes" 60
    <|> counted? payload "everyHours" 3600
    <|> ((payload.field? "cron").bind Json.asString?).bind ofCron?

/-- An interval in words, in the largest unit that counts its whole milliseconds. -/
def describe (interval : Nat) : String :=
  let ms := interval / milli
  if ms % 3600000 == 0 then s!"{ms / 3600000}h"
  else if ms % 60000 == 0 then s!"{ms / 60000}m"
  else s!"{ms}ms"

end Workflow.Schedule
