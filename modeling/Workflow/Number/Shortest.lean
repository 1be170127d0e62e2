import Workflow.Number.Binary64
/-
  The shortest decimal text of a double: the fewest digits that read back as the
  number, the nearest such decimal to it, written positionally for decimal
  exponents from -5 to 15 and in scientific notation beyond.
-/

namespace Workflow.Number

/-- Decimal digits of a natural number, most significant first. -/
def digits (n : Nat) : List Char := Nat.toDigits 10 n

/-- A decimal `coefficient * 10 ^ exponent`. -/
structure Decimal where
  coefficient : Nat
  exponent : Int
  deriving DecidableEq, Repr

namespace Binary64

/-- Whether `units / 2^1074` is below `10 ^ p`. -/
def belowPow10 (units : Nat) (p : Int) : Bool :=
  if 0 ≤ p then units < Nat.pow 10 p.toNat * one else units * Nat.pow 10 p.natAbs < one

/-- The number of digits before the point of a magnitude: the least `p` with `x < 10 ^ p`. -/
def magnitude10 (units : Nat) : Int :=
  let binary : Int := (Nat.log2 units : Int) - 1074
  let guess := binary * 30103 / 100000
  if belowPow10 units guess then guess
  else if belowPow10 units (guess + 1) then guess + 1
  else guess + 2

/-- The quarters of units between which every decimal reads back as the double of `units`, and
whether the two ends themselves do. -/
def interval (units : Nat) : Nat × Nat × Bool :=
  let e := spacing units
  let m := units / Nat.pow 2 e
  let below := if m = 0x10000000000000 && 0 < e then Nat.pow 2 e else 2 * Nat.pow 2 e
  (4 * units - below, 4 * units + 2 * Nat.pow 2 e, m % 2 = 0)

/-- Whether the decimal `c * 10 ^ k` reads back as the double whose interval is given. -/
def readsBack (iv : Nat × Nat × Bool) (c : Nat) (k : Int) : Bool :=
  let num := if 0 ≤ k then c * Nat.pow 10 k.toNat * (4 * one) else c * (4 * one)
  let den := if 0 ≤ k then 1 else Nat.pow 10 k.natAbs
  let lo := iv.1 * den
  let hi := iv.2.1 * den
  if iv.2.2 then lo ≤ num && num ≤ hi else lo < num && num < hi

/-- The coefficient of the grid `10 ^ k` next to the magnitude from below, and whether the one
above is nearer. -/
def onGrid (units : Nat) (k : Int) : Nat × Bool :=
  let num := if 0 ≤ k then units else units * Nat.pow 10 k.natAbs
  let den := if 0 ≤ k then one * Nat.pow 10 k.toNat else one
  let c := num / den
  let r := num % den
  (c, den < 2 * r || (den == 2 * r && c % 2 == 1))

/-- The decimal of `n` digits that reads back, if there is one. -/
def withDigits (units : Nat) (p : Int) (n : Nat) : Option Decimal :=
  let k := p - n
  let iv := interval units
  let (c, up) := onGrid units k
  let first := if up then c + 1 else c
  let second := if up then c else c + 1
  if readsBack iv first k then some ⟨first, k⟩
  else if readsBack iv second k then some ⟨second, k⟩
  else none

/-- The decimal of fewest digits that reads back as the double of `units`. -/
def shortest (units : Nat) : Decimal :=
  let p := magnitude10 units
  ((List.range 17).findSome? fun n => withDigits units p (n + 1)).getD ⟨0, 0⟩

/-- Digits with the decimal point so that the first has the weight `10 ^ e`. -/
def positional (ds : List Char) (e : Int) : List Char :=
  if e < 0 then "0.".toList ++ List.replicate (e.natAbs - 1) '0' ++ ds
  else
    let whole := e.toNat + 1
    if ds.length ≤ whole then ds ++ List.replicate (whole - ds.length) '0' ++ ".0".toList
    else ds.take whole ++ '.' :: ds.drop whole

/-- Digits in scientific notation so that the first has the weight `10 ^ e`. -/
def scientific (ds : List Char) (e : Int) : List Char :=
  let tail := ds.drop 1
  ds.take 1 ++ (if tail.isEmpty then [] else '.' :: tail)
    ++ 'e' :: (if e < 0 then '-' else '+') :: digits e.natAbs

/-- The text of a double. -/
def text (x : Binary64) : List Char :=
  let sign := if x.negative then ['-'] else []
  if x.units = 0 then sign ++ "0.0".toList
  else
    let d := shortest x.units
    let all := digits d.coefficient
    let e : Int := (all.length : Int) - 1 + d.exponent
    let ds := (all.reverse.dropWhile (· == '0')).reverse
    sign ++ (if -5 ≤ e && e < 16 then positional ds e else scientific ds e)

end Binary64

end Workflow.Number
