import Workflow.Json.Basic

/- Whole numbers among doubles. Those of up to 53 bits are doubles themselves, so rounding leaves
   them as they are (`roundUnits_whole`), and rounding never loses as much as half of a number
   (`div_le_two_mul`), so what is too large for that stays large. The double of a JSON number
   that is whole stands for it in this sense (`standsFor_of_whole`). -/
namespace Workflow

namespace Number

theorem roundDiv_mul_mul {k : Nat} (hk : 0 < k) (num den : Nat) :
    roundDiv (num * k) (den * k) = roundDiv num den := by
  have hlt : ∀ a b : Nat, 2 * (a * k) < b * k ↔ 2 * a < b := fun a b => by
    rw [← Nat.mul_assoc, Nat.mul_lt_mul_right hk]
  have hgt : ∀ a b : Nat, b * k < 2 * (a * k) ↔ b < 2 * a := fun a b => by
    rw [← Nat.mul_assoc, Nat.mul_lt_mul_right hk]
  simp only [roundDiv, Nat.mul_div_mul_right _ _ hk, Nat.mul_mod_mul_right, hlt, hgt]

theorem div_le_roundDiv (num den : Nat) : num / den ≤ roundDiv num den := by
  unfold roundDiv
  dsimp only
  split
  · exact Nat.le_refl _
  · split
    · exact Nat.le_succ _
    · split
      · exact Nat.le_refl _
      · exact Nat.le_succ _

theorem log2_mul_two_pow {n : Nat} (hn : n ≠ 0) (b : Nat) :
    (n * Nat.pow 2 b).log2 = n.log2 + b := by
  have hpow : 2 ^ b ≠ 0 := Nat.ne_of_gt (Nat.two_pow_pos b)
  show (n * 2 ^ b).log2 = n.log2 + b
  rw [Nat.log2_eq_iff (Nat.mul_ne_zero hn hpow), Nat.pow_add, Nat.add_right_comm, Nat.pow_add]
  exact ⟨Nat.mul_le_mul_right _ (Nat.log2_self_le hn),
    Nat.mul_lt_mul_of_pos_right Nat.lt_log2_self (Nat.two_pow_pos b)⟩

theorem mul_two_pow_lt {n a b c : Nat} (h : n < Nat.pow 2 a) (hc : a + b ≤ c) :
    n * Nat.pow 2 b < Nat.pow 2 c := by
  have hlt : n * 2 ^ b < 2 ^ a * 2 ^ b := Nat.mul_lt_mul_of_pos_right h (Nat.two_pow_pos b)
  rw [← Nat.pow_add] at hlt
  exact Nat.lt_of_lt_of_le hlt (Nat.pow_le_pow_right (by decide) hc)

namespace Binary64

theorem one_pos : 0 < one := by
  decide +kernel

theorem roundUnits_mul_right {k : Nat} (hk : 0 < k) (num : Nat) :
    roundUnits (num * k) k = roundUnits num 1 := by
  have hscaled : ∀ e, roundDiv (num * k) (k * Nat.pow 2 e) = roundDiv num (1 * Nat.pow 2 e) := by
    intro e
    rw [Nat.mul_comm k, roundDiv_mul_mul hk, Nat.one_mul]
  simp only [roundUnits, Nat.mul_div_cancel num hk, Nat.div_one, hscaled]

/-- A number of at most 53 bits with enough zeros behind them is its own rounding. -/
theorem roundUnits_shifted {n b : Nat} (hn : n < 0x20000000000000) (hb : 52 ≤ b)
    (hlimit : n * Nat.pow 2 b < limit) :
    roundUnits (n * Nat.pow 2 b) 1 = some (n * Nat.pow 2 b) := by
  rcases Nat.eq_zero_or_pos n with rfl | hpos
  · rw [Nat.zero_mul] at hlimit ⊢
    exact roundUnits_mul (m := 0) (e := 0) rfl hlimit
  · have hbits : n.log2 < 53 := (Nat.log2_lt (Nat.ne_of_gt hpos)).mpr hn
    have hlog : (n * Nat.pow 2 b).log2 = n.log2 + b := log2_mul_two_pow (Nat.ne_of_gt hpos) b
    have hsplit : n * Nat.pow 2 b = n * 2 ^ (52 - n.log2) * Nat.pow 2 (n.log2 + b - 52) := by
      show n * 2 ^ b = n * 2 ^ (52 - n.log2) * 2 ^ (n.log2 + b - 52)
      rw [Nat.mul_assoc, ← Nat.pow_add]
      congr 2
      omega
    rw [hsplit] at hlimit hlog ⊢
    exact roundUnits_mul (by rw [spacing, hlog]) hlimit

/-- A whole number of at most 53 bits is a double. -/
theorem roundUnits_whole {n : Nat} (h : n < 0x20000000000000) :
    roundUnits (n * one) 1 = some (n * one) := by
  have hlimit : n * one < limit := by
    unfold one limit
    generalize hb : 1074 = b
    generalize hc : 2098 = c
    have hbits : n < Nat.pow 2 53 := h
    exact mul_two_pow_lt hbits (by omega)
  -- the exponent is not to be computed with
  unfold one at hlimit ⊢
  generalize hb : 1074 = b at hlimit ⊢
  exact roundUnits_shifted h (by omega) hlimit

/-- Rounding loses no more than half of a number. -/
theorem div_le_two_mul {num den u : Nat} (h : roundUnits num den = some u) :
    num / den ≤ 2 * u := by
  unfold roundUnits at h
  generalize hq : num / den = q at h
  dsimp only at h
  split at h
  · obtain rfl := Option.some.inj h
    have hfloor : q / Nat.pow 2 (spacing q) ≤
        roundDiv num (den * Nat.pow 2 (spacing q)) := by
      have hle := div_le_roundDiv num (den * Nat.pow 2 (spacing q))
      rwa [← Nat.div_div_eq_div_mul, hq] at hle
    rcases Nat.eq_zero_or_pos q with rfl | hpos
    · exact Nat.zero_le _
    · have hspace : Nat.pow 2 (spacing q) ≤ q :=
        calc Nat.pow 2 (spacing q) ≤ 2 ^ q.log2 := Nat.pow_le_pow_right (by decide) (Nat.sub_le _ _)
          _ ≤ q := Nat.log2_self_le (Nat.ne_of_gt hpos)
      have hw : 0 < Nat.pow 2 (spacing q) := Nat.two_pow_pos _
      generalize roundDiv num (den * Nat.pow 2 (spacing q)) = u at hfloor ⊢
      generalize Nat.pow 2 (spacing q) = w at hspace hw hfloor ⊢
      calc q = w * (q / w) + q % w := (Nat.div_add_mod q w).symm
        _ ≤ w * (q / w) + w * (q / w) := by
          refine Nat.add_le_add_left (Nat.le_of_lt (Nat.lt_of_lt_of_le (Nat.mod_lt q hw) ?_)) _
          exact Nat.le_mul_of_pos_right w (Nat.div_pos hspace hw)
        _ = 2 * (q / w * w) := by rw [Nat.mul_comm w, Nat.two_mul]
        _ ≤ 2 * (u * w) := Nat.mul_le_mul_left 2 (Nat.mul_le_mul_right w hfloor)
  · cases h

/-- Whether a double is what an integer is rounded to: the integer itself if that has no more than
53 bits, and otherwise something of its sign and no less than half of it. -/
structure StandsFor (x : Binary64) (z : Int) : Prop where
  negative : z < 0 → x.negative = true
  positive : 0 < z → x.negative = false
  half : z.natAbs * one ≤ 2 * x.units
  same : z.natAbs < 0x20000000000000 → x.units = z.natAbs * one

theorem standsFor_ofInt {z : Int} {x : Binary64} (h : ofInt z = some x) : x.StandsFor z := by
  obtain ⟨u, hu, rfl⟩ := Option.map_eq_some_iff.mp h
  constructor
  case negative => exact fun hz => decide_eq_true hz
  case positive => exact fun hz => decide_eq_false (Int.not_lt.mpr (Int.le_of_lt hz))
  case half => simpa only [Nat.div_one] using div_le_two_mul hu
  case same =>
    intro hz
    rw [roundUnits_whole hz] at hu
    exact (Option.some.inj hu).symm

/-- What a double that stands for an integer has of it for certain. -/
theorem StandsFor.le_units {x : Binary64} {z : Int} (h : x.StandsFor z) :
    min z.natAbs (0x10000000000000) * one ≤ x.units := by
  by_cases hz : z.natAbs < 0x20000000000000
  · rw [h.same hz]
    exact Nat.mul_le_mul_right one (Nat.min_le_left _ _)
  · have hlarge : 0x20000000000000 * one ≤ z.natAbs * one :=
      Nat.mul_le_mul_right one (Nat.le_of_not_lt hz)
    have hhalf := h.half
    rw [Nat.min_eq_right (by omega)]
    omega

theorem StandsFor.isPositive_iff {x : Binary64} {z : Int} (h : x.StandsFor z) :
    x.isPositive = true ↔ 0 < z := by
  constructor
  · intro hpos
    simp only [isPositive, Bool.and_eq_true, Bool.not_eq_true', bne_iff_ne] at hpos
    rcases Int.lt_trichotomy z 0 with hz | rfl | hz
    · rw [h.negative hz] at hpos
      exact absurd hpos.1 (by decide)
    · exact absurd (h.same (by decide)) (by simpa using hpos.2)
    · exact hz
  · intro hz
    have hunits : 0 < x.units :=
      Nat.lt_of_lt_of_le (Nat.mul_pos (by omega) one_pos) h.le_units
    simp only [isPositive, h.positive hz, Bool.not_false, Bool.true_and, bne_iff_ne]
    exact Nat.ne_of_gt hunits

theorem isNonneg_of_isPositive {x : Binary64} (h : x.isPositive = true) : x.isNonneg = true := by
  simp only [isPositive, Bool.and_eq_true] at h
  rw [isNonneg, h.1, Bool.true_or]

/-- Of what is not positive, only zero is not negative. -/
theorem units_eq_zero {x : Binary64} (hpos : x.isPositive = false) (h : x.isNonneg = true) :
    x.units = 0 := by
  unfold isPositive at hpos
  unfold isNonneg at h
  cases hsign : x.negative <;> simp_all

/-! ### What is made of doubles -/

variable {x : Binary64} {n k : Nat}

theorem roundHalfUp_of_units (h : x.units = n * one) : x.roundHalfUp = n := by
  have hsplit : 2 * x.units + one = one + 2 * one * n := by
    rw [h, Nat.mul_assoc, Nat.mul_comm n]
    omega
  have hone := one_pos
  rw [roundHalfUp, hsplit, Nat.add_mul_div_left _ _ (by omega), Nat.div_eq_of_lt (by omega),
    Nat.zero_add]

theorem le_roundHalfUp (h : n * one ≤ x.units) : n ≤ x.roundHalfUp := by
  have hone := one_pos
  rw [roundHalfUp, Nat.le_div_iff_mul_le (by omega), Nat.mul_left_comm]
  omega

theorem roundTimes_whole (negative : Bool) (n k : Nat) :
    roundTimes ⟨negative, n * one⟩ k = n * k := by
  rw [roundTimes]
  dsimp only
  rw [Nat.mul_right_comm, roundDiv_mul one_pos]

theorem le_roundTimes (h : n * one ≤ x.units) (k : Nat) : n * k ≤ x.roundTimes k := by
  refine Nat.le_trans ?_ (div_le_roundDiv (x.units * k) one)
  rw [Nat.le_div_iff_mul_le one_pos, Nat.mul_right_comm]
  exact Nat.mul_le_mul_right k h

theorem ofNat_whole (h : k < 0x20000000000000) : ofNat k = some ⟨false, k * one⟩ := by
  rw [ofNat, roundUnits_whole h]
  rfl

theorem mul_whole (x : Binary64) (k : Nat) :
    x.mul ⟨false, k * one⟩ = (roundUnits (x.units * k) 1).map (⟨x.negative, ·⟩) := by
  rw [mul, ← Nat.mul_assoc, roundUnits_mul_right one_pos, Bool.bne_false]

/-- The product with a whole number is exact while it has no more than 53 bits. -/
theorem mul_of_units (h : x.units = n * one) (hk : n * k < 0x20000000000000) :
    x.mul ⟨false, k * one⟩ = some ⟨x.negative, n * k * one⟩ := by
  rw [mul_whole, h, Nat.mul_right_comm, roundUnits_whole hk]
  rfl

/-- The product with a whole number is no less than half of what it should be. -/
theorem le_units_of_mul {y : Binary64} (h : n * one ≤ x.units)
    (hy : x.mul ⟨false, k * one⟩ = some y) : n * k * one ≤ 2 * y.units := by
  rw [mul_whole] at hy
  obtain ⟨u, hu, rfl⟩ := Option.map_eq_some_iff.mp hy
  calc n * k * one = n * one * k := Nat.mul_right_comm n k one
    _ ≤ x.units * k := Nat.mul_le_mul_right k h
    _ ≤ 2 * u := by simpa only [Nat.div_one] using div_le_two_mul hu

end Binary64

end Number

open Number (Binary64)

/-- The integer that a value is, if it is a number without a fraction. -/
def Json.whole? : Json → Option Int
  | .num (.int z) => some z
  | .num (.real x) =>
    if x.units % Binary64.one = 0 then
      some (if x.negative then -(x.units / Binary64.one : Nat) else (x.units / Binary64.one : Nat))
    else none
  | _ => none

/-- The double of a whole number stands for it, and there is one if the number has no more than 53
bits. -/
theorem Json.standsFor_of_whole {v : Json} {z : Int} (h : v.whole? = some z) :
    (∀ x, v.asReal? = some x → x.StandsFor z) ∧
      (z.natAbs < 0x20000000000000 → v.asReal?.isSome = true) := by
  unfold whole? at h
  split at h
  case h_1 w =>
    obtain rfl := Option.some.inj h
    refine ⟨fun x hx => Binary64.standsFor_ofInt hx, fun hw => ?_⟩
    rw [asReal?, Binary64.ofInt, Binary64.roundUnits_whole hw]
    rfl
  case h_2 x =>
    refine ⟨fun y hy => ?_, fun _ => rfl⟩
    obtain rfl : x = y := Option.some.inj hy
    split at h
    case isFalse => cases h
    case isTrue hwhole =>
      have hunits : x.units = x.units / Binary64.one * Binary64.one :=
        (Nat.div_mul_cancel (Nat.dvd_of_mod_eq_zero hwhole)).symm
      generalize x.units / Binary64.one = n at h hunits
      have habs : z.natAbs = n := by
        rw [← Option.some.inj h]
        split <;> simp
      have hsign : x.negative = true ∧ z ≤ 0 ∨ x.negative = false ∧ 0 ≤ z := by
        rw [← Option.some.inj h]
        cases x.negative <;> simp
      constructor
      case negative =>
        intro hneg
        exact (hsign.resolve_right fun hpos => by omega).1
      case positive =>
        intro hpos
        exact (hsign.resolve_left fun hneg => by omega).1
      case half =>
        rw [habs, hunits]
        omega
      case same => exact fun _ => habs ▸ hunits
  case h_3 => cases h

end Workflow
