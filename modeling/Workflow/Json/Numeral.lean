import Workflow.Json.Basic

/- Numbers as a JSON text writes them. A numeral is an optional sign, digits
   without a needless zero in front, and optionally a fraction and an exponent. Its
   value is an integer when it is written as one and fits 64 bits, and a double
   otherwise; a numeral beyond every double has no value. -/
namespace Workflow.Json

/-- A number as written; the fraction is empty when there is no point. -/
structure Numeral where
  negative : Bool
  whole : List Char
  fraction : List Char
  exponent : Option (Bool × List Char)
  deriving DecidableEq, Repr

/-- The digits at the front of a text, and what follows them. -/
def takeDigits (cs : List Char) : List Char × List Char :=
  (cs.takeWhile Char.isDigit, cs.dropWhile Char.isDigit)

/-- The digits behind a point, of which there is at least one; none when there is no point. -/
def scanFraction : List Char → Option (List Char × List Char)
  | '.' :: rest =>
    match takeDigits rest with
    | ([], _) => none
    | (ds, rest) => some (ds, rest)
  | rest => some ([], rest)

/-- The sign and the digits of an exponent whose letter has been read. -/
def scanExponentDigits (cs : List Char) : Option ((Bool × List Char) × List Char) :=
  let (negative, rest) := match cs with
    | '-' :: rest => (true, rest)
    | '+' :: rest => (false, rest)
    | rest => (false, rest)
  match takeDigits rest with
  | ([], _) => none
  | (ds, rest) => some ((negative, ds), rest)

/-- The exponent of a number, if there is one. -/
def scanExponent : List Char → Option (Option (Bool × List Char) × List Char)
  | 'e' :: rest => (scanExponentDigits rest).map fun (e, rest) => (some e, rest)
  | 'E' :: rest => (scanExponentDigits rest).map fun (e, rest) => (some e, rest)
  | rest => some (none, rest)

/-- The number at the front of a text whose sign has been read. A leading zero stands alone. -/
def scanNumeral (negative : Bool) (cs : List Char) : Option (Numeral × List Char) := do
  let (whole, rest) := takeDigits cs
  if whole.isEmpty || (whole.length != 1 && whole.head? == some '0') then none
  else
    let (fraction, rest) ← scanFraction rest
    let (exponent, rest) ← scanExponent rest
    some (⟨negative, whole, fraction, exponent⟩, rest)

/-- The value of a decimal digit. -/
def digitValue (c : Char) : Nat := c.toNat - 48

/-- The number that digits write. -/
def natOfDigits (ds : List Char) : Nat := ds.foldl (fun n d => n * 10 + digitValue d) 0

/-- A significand extended by digits as long as it stays below 2^64, and the digits left over. -/
def extend (significand : Nat) : List Char → Nat × List Char
  | [] => (significand, [])
  | d :: ds =>
    let next := significand * 10 + digitValue d
    if next < 0x10000000000000000 then extend next ds else (significand, d :: ds)

/-- The double of a significand and a power of ten, the exponent as written being added. An
exponent of more than 31 bits makes every significand but zero too large, or zero. -/
def Numeral.real? (n : Numeral) (significand : Nat) (shift : Int) : Option Number.Binary64 := do
  let x ← match n.exponent with
    | none => Number.Binary64.ofParts significand shift
    | some (minus, ds) =>
      let e := natOfDigits ds
      if e < 0x80000000 then
        Number.Binary64.ofParts significand (if minus then shift - e else shift + e)
      else if significand = 0 || minus then some (Number.Binary64.zero false)
      else none
  some { x with negative := n.negative }

/-- The value of a number: an integer that fits 64 bits, else a double. Minus zero is a double,
and a number beyond every double has no value. -/
def Numeral.value? (n : Numeral) : Option Number :=
  let (significand, left) := extend 0 n.whole
  if n.fraction.isEmpty then
    if n.exponent.isNone && left.isEmpty then
      if !n.negative then some (.int significand)
      else if significand != 0 && significand ≤ 0x8000000000000000 then
        some (.int (-(significand : Int)))
      else (n.real? significand 0).map .real
    else (n.real? significand left.length).map .real
  else
    let (longer, dropped) := extend significand n.fraction
    let used : Int := (n.fraction.length : Int) - dropped.length
    (n.real? longer (left.length - used)).map .real

/-- The text of a number. -/
def Number.text : Number → List Char
  | .int z => (if z < 0 then ['-'] else []) ++ Number.digits z.natAbs
  | .real x => x.text

end Workflow.Json
