import Workflow.Json.Numeral
import Workflow.Time.Timestamp
import Workflow.Toml.Value

/- Numbers, dates and times of TOML. Each reader takes what it knows from the front
   of a text; whoever asked sees to it that nothing unfit follows. -/
namespace Workflow.Toml

/-- Further digits of a base, any of them behind a single underscore, and what follows them. -/
def moreDigits (isDigit : Char → Bool) : List Char → List Char × List Char
  | '_' :: d :: rest =>
    if isDigit d then
      let (ds, left) := moreDigits isDigit rest
      (d :: ds, left)
    else ([], '_' :: d :: rest)
  | c :: rest =>
    if isDigit c then
      let (ds, left) := moreDigits isDigit rest
      (c :: ds, left)
    else ([], c :: rest)
  | [] => ([], [])

/-- Digits of a base with single underscores between them, without the underscores. -/
def scanDigits (isDigit : Char → Bool) : List Char → Option (List Char × List Char)
  | c :: rest =>
    if isDigit c then
      let (ds, left) := moreDigits isDigit rest
      some (c :: ds, left)
    else none
  | [] => none

/-- A sign: whether it is a minus, and what follows it. -/
def scanSign : List Char → Bool × List Char
  | '-' :: rest => (true, rest)
  | '+' :: rest => (false, rest)
  | rest => (false, rest)

/-- A decimal number behind its sign: a zero alone, or digits that begin with another one. -/
def scanDecimal : List Char → Option (List Char × List Char)
  | '0' :: rest => some (['0'], rest)
  | rest => scanDigits Char.isDigit rest

/-- The digits of a fraction and of an exponent, one of which at least is there. -/
def scanPoint (cs : List Char) : Option (List Char × Bool × List Char × List Char) := do
  let (fraction, rest) ← match cs with
    | '.' :: rest => scanDigits Char.isDigit rest
    | rest => some ([], rest)
  match rest with
  | 'e' :: rest => withExponent fraction rest
  | 'E' :: rest => withExponent fraction rest
  | rest => if fraction.isEmpty then none else some (fraction, false, [], rest)
where
  /-- The exponent behind its letter. -/
  withExponent (fraction rest : List Char) :
      Option (List Char × Bool × List Char × List Char) := do
    let (minus, rest) := scanSign rest
    let (ds, rest) ← scanDigits Char.isDigit rest
    some (fraction, minus, ds, rest)

/-- The magnitude of `digits / 10 ^ places * 10 ^ exponent`; none when it is beyond every double.
Three tenths and a third of the number of binary places bound that of decimal places, and settle
the exponents that are far out of range. -/
def magnitude (digits : Nat) (places : Nat) (exponent : Int) : Option Nat :=
  let e := exponent - places
  if digits = 0 then some 0
  else if 400 < e + (Nat.log2 digits * 3 / 10 : Nat) then none
  else if e + (Nat.log2 digits / 3 : Nat) + 1 < -400 then some 0
  else if 0 ≤ e then
    Number.Binary64.roundUnits (digits * Nat.pow 10 e.toNat * Number.Binary64.one) 1
  else Number.Binary64.roundUnits (digits * Number.Binary64.one) (Nat.pow 10 e.natAbs)

/-- A float with a point or an exponent. One beyond every positive double is no value, but one
beyond every negative double is minus infinity. -/
def scanFloat (cs : List Char) : Option (Value × List Char) := do
  let (negative, rest) := scanSign cs
  let (whole, rest) ← scanDecimal rest
  let (fraction, minus, ds, rest) ← scanPoint rest
  let e : Int := Json.natOfDigits ds
  let significand := Json.natOfDigits (whole ++ fraction)
  match magnitude significand fraction.length (if minus then -e else e) with
  | some units => some (.real (.finite ⟨negative, units⟩), rest)
  | none => if negative then some (.real (.infinite true), rest) else none

/-- What follows a word. -/
def afterWord? (word : String) (cs : List Char) : Option (List Char) :=
  if word.toList.isPrefixOf cs then some (cs.drop word.length) else none

/-- An infinity or what is not a number, with an optional sign. -/
def scanSpecial (cs : List Char) : Option (Value × List Char) :=
  let (negative, rest) := scanSign cs
  match afterWord? "inf" rest, afterWord? "nan" rest with
  | some rest, _ => some (.real (.infinite negative), rest)
  | none, some rest => some (.real .notANumber, rest)
  | none, none => none

/-- The value of a digit of a base up to sixteen. -/
def digitOf (c : Char) : Nat :=
  if c.isDigit then c.toNat - 48 else c.toLower.toNat - 87

/-- Whether a character is a hexadecimal digit. -/
def isHex (c : Char) : Bool := c.isDigit || ('a' ≤ c.toLower && c.toLower ≤ 'f')

/-- The number that digits of a base write. -/
def natOfBase (base : Nat) (ds : List Char) : Nat :=
  ds.foldl (fun n d => n * base + digitOf d) 0

/-- An integer that fits 64 bits with a sign. -/
def fitted (z : Int) : Option Value :=
  if -0x8000000000000000 ≤ z && z < 0x8000000000000000 then some (.integer z) else none

/-- The digits of a base behind its mark. -/
def scanBase (base : Nat) (isDigit : Char → Bool) (cs : List Char) :
    Option (Value × List Char) := do
  let (ds, rest) ← scanDigits isDigit cs
  let v ← fitted (natOfBase base ds)
  some (v, rest)

/-- An integer. -/
def scanInteger : List Char → Option (Value × List Char)
  | '0' :: 'x' :: rest => scanBase 16 isHex rest
  | '0' :: 'o' :: rest => scanBase 8 (fun c => '0' ≤ c && c ≤ '7') rest
  | '0' :: 'b' :: rest => scanBase 2 (fun c => c == '0' || c == '1') rest
  | cs => do
    let (negative, rest) := scanSign cs
    let (ds, rest) ← scanDecimal rest
    let n : Int := Json.natOfDigits ds
    let v ← fitted (if negative then -n else n)
    some (v, rest)

/-- A number of exactly so many digits, and what follows it. -/
def scanFixed (count : Nat) (cs : List Char) : Option (Nat × List Char) :=
  let ds := cs.take count
  if ds.length == count && ds.all Char.isDigit then some (Json.natOfDigits ds, cs.drop count)
  else none

/-- What follows a character. -/
def after? (c : Char) : List Char → Option (List Char)
  | d :: rest => if c = d then some rest else none
  | [] => none

/-- What follows a date. -/
def skipDate (cs : List Char) : Option (List Char) := do
  let (year, rest) ← scanFixed 4 cs
  let rest ← after? '-' rest
  let (month, rest) ← scanFixed 2 rest
  let rest ← after? '-' rest
  let (day, rest) ← scanFixed 2 rest
  if 1 ≤ month && month ≤ 12 && 1 ≤ day && day ≤ daysOfMonth year month then some rest
  else none

/-- What follows the digits of a fraction of a second, if there is one. -/
def skipFraction : List Char → List Char
  | '.' :: d :: rest => if d.isDigit then rest.dropWhile Char.isDigit else '.' :: d :: rest
  | rest => rest

/-- What follows a time of day. -/
def skipTime (cs : List Char) : Option (List Char) := do
  let (hour, rest) ← scanFixed 2 cs
  let rest ← after? ':' rest
  let (minute, rest) ← scanFixed 2 rest
  let rest ← after? ':' rest
  let (second, rest) ← scanFixed 2 rest
  if hour < 24 && minute < 60 && second ≤ 60 then some (skipFraction rest) else none

/-- What follows an offset, if there is one. -/
def skipOffset (cs : List Char) : Option (List Char) :=
  match cs with
  | 'Z' :: rest => some rest
  | 'z' :: rest => some rest
  | '+' :: rest => hours rest
  | '-' :: rest => hours rest
  | rest => some rest
where
  /-- What follows the hours and minutes of an offset. -/
  hours (cs : List Char) : Option (List Char) := do
    let (hour, rest) ← scanFixed 2 cs
    let rest ← after? ':' rest
    let (minute, rest) ← scanFixed 2 rest
    if hour < 24 && minute < 60 then some rest else none

/-- What follows the time of day that may follow a date. -/
def skipTimeOfDate (cs : List Char) : Option (List Char) :=
  match cs with
  | c :: rest =>
    if c == 'T' || c == 't' || c == ' ' then
      match skipTime rest with
      | some rest => skipOffset rest
      | none => some cs
    else some cs
  | [] => some cs

/-- A date, a time, or both. -/
def scanMoment (cs : List Char) : Option (Value × List Char) := do
  let rest ← match skipDate cs with
    | some rest => skipTimeOfDate rest
    | none => skipTime cs
  some (.moment (String.ofList (cs.take (cs.length - rest.length))), rest)

/-- A value that begins with a digit or a sign, or is the name of a special number. -/
def scanNumber (cs : List Char) : Option (Value × List Char) :=
  scanMoment cs <|> scanFloat cs <|> scanSpecial cs <|> scanInteger cs

end Workflow.Toml
