import Workflow.Json.Numeral
import Workflow.Time.Timestamp

/- Numbers and their decimal digits. The digits of a number lead back to it
   (`natOfDigits_digits`), with zeros in front of them too (`natOfDigits_padded`), and a number
   below a power of ten has as many digits when it is padded (`length_padded`). -/
namespace Workflow

theorem Json.natOfDigits_eq (ds : List Char) : natOfDigits ds = Nat.ofDigitChars 10 ds 0 := by
  rw [Nat.ofDigitChars_eq_foldl]
  unfold natOfDigits digitValue
  congr 1
  funext n d
  rw [Nat.mul_comm]
  rfl

namespace Number

variable {n : Nat}

theorem isDigit_of_mem_digits {c : Char} (h : c ∈ digits n) : c.isDigit = true :=
  Nat.isDigit_of_mem_toDigits (by decide) (by decide) h

theorem digits_ne_nil (n : Nat) : digits n ≠ [] := Nat.toDigits_ne_nil

theorem natOfDigits_digits (n : Nat) : Json.natOfDigits (digits n) = n := by
  rw [Json.natOfDigits_eq]
  exact Nat.ofDigitChars_ten_toDigits

theorem digits_inj {m : Nat} (h : digits m = digits n) : m = n := by
  rw [← natOfDigits_digits m, h, natOfDigits_digits]

theorem toString_inj {m : Nat} (h : toString m = toString n) : m = n := by
  refine digits_inj ?_
  simpa [digits] using congrArg String.toList h

/-- Only zero begins with a zero. -/
theorem head?_digits (h : 0 < n) : (digits n).head? ≠ some '0' := by
  induction n using Nat.strongRecOn with
  | ind n ih =>
    unfold digits at ih ⊢
    rw [Nat.toDigits_eq_if (by decide)]
    split
    case isTrue hlt =>
      intro hzero
      have hchar : Nat.digitChar n = '0' := by simpa using hzero
      exact Nat.ne_of_gt h (Nat.digitChar_eq_zero.mp hchar)
    case isFalse hle =>
      have hpos : 0 < n / 10 := Nat.div_pos (Nat.le_of_not_lt hle) (by decide)
      have hrest := ih (n / 10) (Nat.div_lt_self h (by decide)) hpos
      obtain ⟨d, ds, hds⟩ := List.exists_cons_of_ne_nil (Nat.toDigits_ne_nil (n := n / 10) (b := 10))
      rw [hds] at hrest ⊢
      exact hrest

end Number

namespace Timestamp

variable {width n : Nat}

theorem isDigit_of_mem_padded {c : Char} (h : c ∈ padded width n) : c.isDigit = true := by
  rcases List.mem_append.mp h with hzero | hdigit
  · rw [List.eq_of_mem_replicate hzero]
    decide
  · exact Number.isDigit_of_mem_digits hdigit

theorem padded_ne_nil (width n : Nat) : padded width n ≠ [] := by
  intro h
  exact Number.digits_ne_nil n (List.append_eq_nil_iff.mp h).2

theorem natOfDigits_padded (width n : Nat) : Json.natOfDigits (padded width n) = n := by
  unfold padded
  rw [Json.natOfDigits_eq, Nat.ofDigitChars_append, Nat.ofDigitChars_replicate_zero, Nat.mul_zero,
    ← Json.natOfDigits_eq, Number.natOfDigits_digits]

theorem length_padded (hwidth : 0 < width) (h : n < Nat.pow 10 width) :
    (padded width n).length = width := by
  have hle : (Number.digits n).length ≤ width :=
    (Nat.length_toDigits_le_iff (by decide) hwidth).mpr h
  rw [padded, List.length_append, List.length_replicate]
  omega

end Timestamp

end Workflow
