import Workflow.Proofs.DecimalDigits

/- The text of a moment leads back to it (`parse?_text`): each part is read up to where the next one
   begins, and what is written as a second 60 is read as the leap second that it stands for. -/
namespace Workflow

theorem Text.isBlank_of_isDigit {c : Char} (h : c.isDigit = true) : isBlank c = false := by
  rw [Char.isDigit_iff_toNat] at h
  obtain ⟨hlow, hhigh⟩ := h
  have hlow : 48 ≤ c.toNat := hlow
  have hhigh : c.toNat ≤ 57 := hhigh
  simp only [isBlank, Bool.or_eq_false_iff, Bool.and_eq_false_imp, beq_eq_false_iff_ne,
    decide_eq_true_eq, decide_eq_false_iff_not]
  omega

theorem Text.trimStartChars_cons {c : Char} (h : isBlank c = false) (cs : List Char) :
    trimStartChars (c :: cs) = c :: cs := by
  unfold trimStartChars
  rw [List.dropWhile_cons, h]
  rfl

namespace Timestamp

section Readers

variable {width : Nat} {ds cs rest : List Char}

theorem trimStartChars_digits (hne : ds ≠ []) (h : ∀ c ∈ ds, c.isDigit = true)
    (rest : List Char) : Text.trimStartChars (ds ++ rest) = ds ++ rest := by
  obtain ⟨d, ds, rfl⟩ := List.exists_cons_of_ne_nil hne
  exact Text.trimStartChars_cons (Text.isBlank_of_isDigit (h d List.mem_cons_self)) _

theorem takeWhile_digits (h : ∀ c ∈ ds, c.isDigit = true) {c : Char} (hc : c.isDigit = false)
    (rest : List Char) : (ds ++ c :: rest).takeWhile Char.isDigit = ds := by
  rw [List.takeWhile_append_of_pos h, List.takeWhile_cons, hc]
  simp

theorem scanNumber_digits (hlength : ds.length = width) (hne : ds ≠ [])
    (h : ∀ c ∈ ds, c.isDigit = true) (rest : List Char) :
    scanNumber width (ds ++ rest) = some (Json.natOfDigits ds, rest) := by
  have htaken : ((ds ++ rest).take width).takeWhile Char.isDigit = ds := by
    rw [← hlength, List.take_left, ← List.append_nil ds, List.takeWhile_append_of_pos h]
    simp
  unfold scanNumber
  rw [trimStartChars_digits hne h]
  dsimp only
  rw [htaken, if_neg (by simpa using hne), List.drop_left]

/-- A number that has the digits that it is padded to. -/
theorem scanNumber_padded {n : Nat} (hwidth : 0 < width) (h : n < Nat.pow 10 width)
    (rest : List Char) : scanNumber width (padded width n ++ rest) = some (n, rest) := by
  rw [scanNumber_digits (length_padded hwidth h) (padded_ne_nil width n)
    (fun _ => isDigit_of_mem_padded), natOfDigits_padded]

theorem scanMark_cons {mark : Char} (h : Text.isBlank mark = false) (rest : List Char) :
    scanMark mark (mark :: rest) = some rest := by
  unfold scanMark
  rw [Text.trimStartChars_cons h]
  exact if_pos rfl

theorem scanYear_yearText (year : Int) (rest : List Char) :
    scanYear (yearText year ++ '-' :: rest) = some (year, '-' :: rest) := by
  have hdigits : ∀ c ∈ padded 4 year.natAbs, c.isDigit = true := fun _ => isDigit_of_mem_padded
  have hsigned := takeWhile_digits hdigits (show Char.isDigit '-' = false from rfl) rest
  have hnonempty : ¬ (padded 4 year.natAbs).isEmpty = true := by
    simpa using padded_ne_nil 4 year.natAbs
  unfold yearText
  by_cases hplain : 0 ≤ year ∧ year ≤ 9999
  · have hlt : year.toNat < Nat.pow 10 4 := by
      show year.toNat < 10000
      omega
    have hscan : scanNumber 4 (padded 4 year.toNat ++ '-' :: rest) =
        some (year.toNat, '-' :: rest) := scanNumber_padded (by decide) hlt _
    have hvalue : (year.toNat : Int) = year := Int.toNat_of_nonneg hplain.1
    have hdigits : ∀ c ∈ padded 4 year.toNat, c.isDigit = true := fun _ => isDigit_of_mem_padded
    rw [if_pos (by simpa using hplain)]
    unfold scanYear
    rw [trimStartChars_digits (padded_ne_nil 4 _) hdigits]
    -- the first character is a digit, and so no sign
    obtain ⟨d, ds, hcons⟩ := List.exists_cons_of_ne_nil (padded_ne_nil 4 year.toNat)
    have hd : d.isDigit = true := hdigits d (hcons ▸ List.mem_cons_self)
    split
    · rename_i heq
      rw [hcons, List.cons_append, List.cons.injEq] at heq
      rw [heq.1] at hd
      cases hd
    · rename_i heq
      rw [hcons, List.cons_append, List.cons.injEq] at heq
      rw [heq.1] at hd
      cases hd
    · simp only [hscan, Option.map_some, hvalue]
  · rw [if_neg (by simpa using hplain)]
    unfold scanYear
    by_cases hneg : year < 0
    · rw [if_pos hneg, List.cons_append, Text.trimStartChars_cons (by decide)]
      simp only [hsigned, if_neg hnonempty, natOfDigits_padded, List.drop_left]
      congr 2
      omega
    · rw [if_neg hneg, List.cons_append, Text.trimStartChars_cons (by decide)]
      simp only [hsigned, if_neg hnonempty, natOfDigits_padded, List.drop_left]
      congr 2
      omega

/-- So many leading digits of nine as a fraction. -/
theorem scanFraction_padded {n : Nat} (hwidth : 0 < width) (hnine : width ≤ 9)
    (h : n < Nat.pow 10 width) :
    scanFraction ('.' :: padded width n ++ ['Z']) = some (n * Nat.pow 10 (9 - width), ['Z']) := by
  have hlength := length_padded hwidth h
  have hdigits : ∀ c ∈ padded width n, c.isDigit = true := fun _ => isDigit_of_mem_padded
  have htaken := takeWhile_digits hdigits (show Char.isDigit 'Z' = false from rfl) []
  have hall : (padded width n).take 9 = padded width n := List.take_of_length_le (by omega)
  have hnonempty : ¬ (padded width n).isEmpty = true := by simpa using padded_ne_nil width n
  unfold scanFraction
  simp only [List.cons_append, htaken, if_neg hnonempty, hall, natOfDigits_padded, List.drop_left]
  rw [hlength]

theorem scanFraction_fractionText {nano : Nat} (h : nano < 1000000000) :
    scanFraction (fractionText nano ++ ['Z']) = some (nano, ['Z']) := by
  unfold fractionText
  split
  case isTrue hzero =>
    obtain rfl : nano = 0 := by simpa using hzero
    rfl
  case isFalse =>
    split
    case isTrue hmilli =>
      have hlt : nano / 1000000 < Nat.pow 10 3 := by
        show nano / 1000000 < 1000
        omega
      have hnano : nano / 1000000 * 1000000 = nano := Nat.div_mul_cancel (by
        simpa [Nat.dvd_iff_mod_eq_zero] using hmilli)
      rw [scanFraction_padded (by decide) (by decide) hlt]
      exact congrArg (fun n => some (n, ['Z'])) hnano
    case isFalse =>
      split
      case isTrue hmicro =>
        have hlt : nano / 1000 < Nat.pow 10 6 := by
          show nano / 1000 < 1000000
          omega
        have hnano : nano / 1000 * 1000 = nano := Nat.div_mul_cancel (by
          simpa [Nat.dvd_iff_mod_eq_zero] using hmicro)
        rw [scanFraction_padded (by decide) (by decide) hlt]
        exact congrArg (fun n => some (n, ['Z'])) hnano
      case isFalse =>
        rw [scanFraction_padded (by decide) (by decide) h]
        exact congrArg (fun n => some (n, ['Z'])) (Nat.mul_one nano)

end Readers

theorem addMinutes_zero {t : Timestamp} (hhour : t.hour < 24) (hminute : t.minute < 60) :
    t.addMinutes 0 = t := by
  have hlow : ¬ (t.hour * 60 + t.minute + 0 : Int) < 0 := by omega
  have hhigh : ¬ (1440 ≤ (t.hour * 60 + t.minute + 0 : Int)) := by omega
  have hofDay : ((t.hour * 60 + t.minute + 0 : Int) % 1440).toNat = t.hour * 60 + t.minute := by
    omega
  have hours : (t.hour * 60 + t.minute) / 60 = t.hour := by omega
  have minutes : (t.hour * 60 + t.minute) % 60 = t.minute := by omega
  unfold addMinutes
  dsimp only
  rw [if_neg hlow, if_neg hhigh, hofDay, hours, minutes]

/-- Parts written one behind the other are read one after the other. -/
theorem parse?_written {year : Int} {month day hour minute second nano : Nat}
    (hmonth : month < 100) (hday : day < 100) (hhour : hour < 24) (hminute : minute < 60)
    (hsecond : second < 100) (hnano : nano < 1000000000) {t : Timestamp}
    (ht : t = if second = 60 then ⟨year, month, day, hour, minute, 59, nano + 1000000000⟩
      else ⟨year, month, day, hour, minute, second, nano⟩) (hvalid : t.valid = true) :
    parse? (String.ofList (yearText year ++ ['-'] ++ padded 2 month ++ ['-'] ++ padded 2 day
      ++ ['T'] ++ padded 2 hour ++ [':'] ++ padded 2 minute ++ [':'] ++ padded 2 second
      ++ fractionText nano ++ ['Z'])) = some t := by
  have htwo : ∀ {n : Nat}, n < 100 → ∀ rest, scanNumber 2 (padded 2 n ++ rest) = some (n, rest) :=
    fun h => scanNumber_padded (by decide) h
  have hminutes : t.addMinutes 0 = t := by
    apply addMinutes_zero
    · rw [ht]
      split <;> exact hhour
    · rw [ht]
      split <;> exact hminute
  have hdash := scanMark_cons (show Text.isBlank '-' = false from rfl)
  have hcolon := scanMark_cons (show Text.isBlank ':' = false from rfl)
  have hzone : scanZone ['Z'] = some (0, []) := rfl
  unfold parse?
  rw [String.toList_ofList]
  simp only [List.append_assoc, List.cons_append, List.nil_append]
  -- the parts one by one, each with what stands behind it
  refine Option.bind_eq_some_iff.mpr ⟨_, scanYear_yearText year _, ?_⟩
  refine Option.bind_eq_some_iff.mpr ⟨_, hdash _, ?_⟩
  refine Option.bind_eq_some_iff.mpr ⟨_, htwo hmonth _, ?_⟩
  refine Option.bind_eq_some_iff.mpr ⟨_, hdash _, ?_⟩
  refine Option.bind_eq_some_iff.mpr ⟨_, htwo hday _, ?_⟩
  refine Option.bind_eq_some_iff.mpr ⟨_, htwo (Nat.lt_trans hhour (by decide)) _, ?_⟩
  refine Option.bind_eq_some_iff.mpr ⟨_, hcolon _, ?_⟩
  refine Option.bind_eq_some_iff.mpr ⟨_, htwo (Nat.lt_trans hminute (by decide)) _, ?_⟩
  refine Option.bind_eq_some_iff.mpr ⟨_, hcolon _, ?_⟩
  refine Option.bind_eq_some_iff.mpr ⟨_, htwo hsecond _, ?_⟩
  refine Option.bind_eq_some_iff.mpr ⟨_, scanFraction_fractionText hnano, ?_⟩
  refine Option.bind_eq_some_iff.mpr ⟨_, hzone, ?_⟩
  simp only [← ht, Int.neg_zero, hminutes, hvalid, List.all_nil, Bool.and_self, if_true]

/-- The text of a moment leads back to it. -/
theorem parse?_text {t : Timestamp} (h : t.valid = true) : parse? t.text = some t := by
  have hvalid := h
  simp only [valid, Bool.and_eq_true, Bool.or_eq_true, decide_eq_true_eq, beq_iff_eq] at h
  obtain ⟨⟨⟨⟨⟨⟨⟨⟨⟨-, -⟩, -⟩, hmonth⟩, -⟩, hday⟩, hhour⟩, hminute⟩, hsecond⟩, hnano⟩ := h
  have hdays : daysOfMonth t.year t.month ≤ 31 := by
    unfold daysOfMonth
    split
    · split <;> decide
    all_goals decide
  unfold text dateText
  by_cases hleap : 1000000000 ≤ t.nano
  · -- a leap second is written as a second 60
    have hlast : t.second = 59 ∧ t.nano < 2000000000 := by omega
    rw [if_pos hleap]
    refine parse?_written (by omega) (by omega) hhour hminute (by omega) (by omega) ?_ hvalid
    rw [if_pos (by omega), Nat.sub_add_cancel hleap, ← hlast.1]
  · rw [if_neg hleap]
    refine parse?_written (by omega) (by omega) hhour hminute (by omega) (by omega) ?_ hvalid
    rw [if_neg (by omega)]

end Timestamp

end Workflow
