/-
  Finite doubles, computed exactly.

  Every finite double is an integer number of units of 2^-1074, so a double is a
  sign and a natural number of units, and each operation is its exact rational
  result rounded to the nearest double, a tie going to the even significand.
  `none` stands for a result beyond the largest double.

  Statements: `roundDiv_mul` and `roundUnits_mul` — a representable value is its
  own rounding.
-/

namespace Workflow.Number

/-- The natural number nearest to `num / den`; a tie goes to the even one. -/
def roundDiv (num den : Nat) : Nat :=
  let q := num / den
  let r := num % den
  if 2 * r < den then q
  else if den < 2 * r then q + 1
  else if q % 2 = 0 then q else q + 1

theorem roundDiv_mul {q den : Nat} (h : 0 < den) : roundDiv (q * den) den = q := by
  simp [roundDiv, Nat.mul_div_cancel _ h, h]

/-- A finite double of value `± units / 2^1074`. -/
structure Binary64 where
  negative : Bool
  units : Nat
  deriving DecidableEq, Repr, Inhabited

namespace Binary64

/-- The units of the number one. -/
def one : Nat := Nat.pow 2 1074

/-- The least number of units that is beyond every double. -/
def limit : Nat := Nat.pow 2 2098

/-- Doubles of at least `n` units are spaced `2 ^ spacing n` units or wider. -/
def spacing (n : Nat) : Nat := Nat.log2 n - 52

/-- The double nearest to `num / den` units. -/
def roundUnits (num den : Nat) : Option Nat :=
  let e := spacing (num / den)
  let u := roundDiv num (den * Nat.pow 2 e) * Nat.pow 2 e
  if u < limit then some u else none

/-- A number of units that is a multiple of its own spacing rounds to itself. -/
theorem roundUnits_mul {m e : Nat} (he : spacing (m * Nat.pow 2 e) = e)
    (hm : m * Nat.pow 2 e < limit) :
    roundUnits (m * Nat.pow 2 e) 1 = some (m * Nat.pow 2 e) := by
  have hp : 0 < Nat.pow 2 e := Nat.two_pow_pos e
  simp only [roundUnits, Nat.div_one, he, Nat.one_mul, roundDiv_mul hp, hm, if_true]

/-- Zero, of either sign. -/
def zero (negative : Bool) : Binary64 := ⟨negative, 0⟩

/-- The double nearest to a natural number. -/
def ofNat (n : Nat) : Option Binary64 := (roundUnits (n * one) 1).map (⟨false, ·⟩)

/-- The double nearest to an integer. -/
def ofInt (z : Int) : Option Binary64 :=
  (roundUnits (z.natAbs * one) 1).map (⟨decide (z < 0), ·⟩)

/-- The same magnitude with the other sign. -/
def neg (x : Binary64) : Binary64 := { x with negative := !x.negative }

/-- The rounded product. -/
def mul (x y : Binary64) : Option Binary64 :=
  (roundUnits (x.units * y.units) one).map (⟨x.negative != y.negative, ·⟩)

/-- The rounded quotient by a divisor that is not zero. -/
def div (x y : Binary64) : Option Binary64 :=
  (roundUnits (x.units * one) y.units).map (⟨x.negative != y.negative, ·⟩)

/-- The double nearest to a power of ten. -/
def pow10 (e : Nat) : Option Binary64 := ofNat (Nat.pow 10 e)

/-- Whether the number is greater than zero. -/
def isPositive (x : Binary64) : Bool := !x.negative && x.units != 0

/-- Whether the number is at least zero; a zero of either sign is. -/
def isNonneg (x : Binary64) : Bool := !x.negative || x.units == 0

/-- The magnitude rounded to a natural number, a half going up. -/
def roundHalfUp (x : Binary64) : Nat := (2 * x.units + one) / (2 * one)

/-- The natural number nearest to the magnitude times `k`; a tie goes to the even one. -/
def roundTimes (x : Binary64) (k : Nat) : Nat := roundDiv (x.units * k) one

/-- The number divided by `10 ^ e`, in steps of at most `10 ^ 308`. -/
def scaleDown (x : Binary64) (e : Nat) : Option Binary64 :=
  if x.units = 0 then some x
  else if 308 < e then do
    let ten ← pow10 308
    let y ← x.div ten
    scaleDown y (e - 308)
  else do
    let ten ← pow10 e
    x.div ten
termination_by e
decreasing_by omega

/-- The number times `10 ^ e`; beyond `10 ^ 308` only zero has a result. -/
def scaleUp (x : Binary64) (e : Nat) : Option Binary64 :=
  if 308 < e then (if x.units = 0 then some x else none)
  else do
    let ten ← pow10 e
    x.mul ten

/-- The double written as `significand * 10 ^ exponent`. The significand is rounded first and
scaled afterwards, so the last place may differ from the nearest double. -/
def ofParts (significand : Nat) (exponent : Int) : Option Binary64 := do
  let x ← ofNat significand
  if 0 ≤ exponent then x.scaleUp exponent.toNat else x.scaleDown exponent.natAbs

end Binary64

end Workflow.Number
