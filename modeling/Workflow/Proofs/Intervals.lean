import Workflow.Trigger.Schedule
import Workflow.Proofs.WholeNumbers

/- The intervals that payloads ask for. A field that counts units does so exactly if its number is
   whole (`millis_asked`, `counted_asked`): what the doubles and words on the way cannot hold is
   too long an interval in any case. A cron text has an interval if it is of one of the forms that
   mean one (`ofCron?_eq_some_iff`). Put together, `intervals_of_payload`. -/
namespace Workflow

open Number (Binary64)

namespace Schedule

/-- The longest interval, in seconds. -/
theorem longest_eq : longest = 31622400 * second := rfl

theorem mul_second_eq_longest {most seconds : Nat} (hmost : most * seconds = 31622400) :
    most * (seconds * second) = longest := by
  rw [← Nat.mul_assoc, hmost, longest_eq]

theorem bounded_of_le {n : Nat} (hpos : 1 ≤ n) (hle : n ≤ longest) : bounded n = some n :=
  if_pos (by simp [hle]; omega)

theorem bounded_of_lt {n : Nat} (h : longest < n) : bounded n = none :=
  if_neg (by simp; omega)

theorem bounded_zero : bounded 0 = none := rfl

section Units

variable {most unit : Nat} (hmost : most * unit = longest) (hunit : 0 < unit)
include hmost hunit

theorem bounded_mul_of_le {n : Nat} (hpos : 1 ≤ n) (hle : n ≤ most) :
    bounded (n * unit) = some (n * unit) :=
  bounded_of_le (Nat.mul_pos hpos hunit) (hmost ▸ Nat.mul_le_mul_right unit hle)

theorem bounded_mul_of_lt {n : Nat} (h : most < n) : bounded (n * unit) = none :=
  bounded_of_lt (hmost ▸ Nat.mul_lt_mul_of_pos_right h hunit)

end Units

theorem le_of_bounded {n m : Nat} (h : bounded n = some m) : m = n ∧ 1 ≤ n ∧ n ≤ longest := by
  unfold bounded at h
  split at h
  · rename_i hn
    simp only [Bool.and_eq_true, bne_iff_ne, decide_eq_true_eq] at hn
    exact ⟨(Option.some.inj h).symm, Nat.pos_of_ne_zero hn.1, hn.2⟩
  · cases h

/-! ## Fields that count units -/

/-- Whether a field, if it is a number, is a whole one. -/
def Counts (payload : Json) (field : String) : Prop :=
  ∀ n, payload.field? field = some (.num n) → ∃ z, (Json.num n).whole? = some z

/-- The number of units that a field asks for: a whole number from one up to a most. -/
def asked? (payload : Json) (field : String) (most : Nat) : Option Nat :=
  ((payload.field? field).bind Json.whole?).bind fun z =>
    if 1 ≤ z ∧ z ≤ most then some z.toNat else none

section Fields

variable {payload : Json} {field : String}

/-- What a field has for those who want a number of it. -/
theorem Counts.cases (h : Counts payload field) :
    ((payload.field? field).bind Json.asReal? = none ∧
      (payload.field? field).bind Json.whole? = none) ∨
    ∃ z, (payload.field? field).bind Json.whole? = some z ∧
      (∀ x, (payload.field? field).bind Json.asReal? = some x → x.StandsFor z) ∧
      (z.natAbs < 0x20000000000000 → ((payload.field? field).bind Json.asReal?).isSome = true) := by
  cases hfield : payload.field? field with
  | none => exact .inl ⟨rfl, rfl⟩
  | some v =>
    cases v with
    | num n =>
      obtain ⟨z, hz⟩ := h n hfield
      exact .inr ⟨z, hz, Json.standsFor_of_whole hz⟩
    | null | bool | str | arr | obj => exact .inl ⟨rfl, rfl⟩

/-- What is computed of the number of a field, if it passes a test, is what the field asks for, if
that is so for every double that stands for an integer. -/
theorem Counts.eq_asked (h : Counts payload field) {most unit : Nat}
    (hmost : most < 0x20000000000000)
    {p : Binary64 → Bool} {f : Binary64 → Option Nat}
    (hlow : ∀ x z, x.StandsFor z → z < 1 → p x = true → f x = none)
    (hfits : ∀ x n, x.StandsFor (n : Nat) → 1 ≤ n → n ≤ most →
      p x = true ∧ f x = some (n * unit))
    (hhigh : ∀ x z, x.StandsFor z → (most : Int) < z → f x = none) :
    (((payload.field? field).bind Json.asReal?).filter p).bind f =
      (asked? payload field most).map (· * unit) := by
  unfold asked?
  rcases h.cases with ⟨hreal, hwhole⟩ | ⟨z, hwhole, hstands, hreal⟩
  · rw [hreal, hwhole]
    rfl
  · rw [hwhole, Option.bind_some]
    by_cases hz : 1 ≤ z ∧ z ≤ most
    · obtain ⟨n, rfl⟩ := Int.eq_ofNat_of_zero_le (Int.le_trans (by decide) hz.1)
      obtain ⟨x, hx⟩ := Option.isSome_iff_exists.mp (hreal (by simp; omega))
      obtain ⟨hp, hf⟩ := hfits x n (hstands x hx) (by omega) (by omega)
      rw [if_pos hz, hx, Option.filter_some_pos hp]
      exact hf
    · rw [if_neg hz]
      cases hx : ((payload.field? field).bind Json.asReal?).filter p with
      | none => rfl
      | some x =>
        obtain ⟨hfield, hp⟩ := Option.filter_eq_some_iff.mp hx
        by_cases hlt : z < 1
        · exact hlow x z (hstands x hfield) hlt hp
        · exact hhigh x z (hstands x hfield) (by omega)

/-- A number of milliseconds that is a whole one is taken as it is. -/
theorem millis_asked (h : Counts payload field) {most : Nat} (hmost : most * milli = longest) :
    ((millis? payload field).bind fun ms => bounded (ms * milli)) =
      (asked? payload field most).map (· * milli) := by
  have hsmall : most < 0x10000000000000 := by
    unfold milli longest second at hmost
    omega
  rw [millis?, Option.bind_map]
  refine h.eq_asked (by omega) ?low ?fits ?high
  case low =>
    intro x z hx hz hnonneg
    have hpos : x.isPositive = false := Bool.eq_false_iff.mpr fun hpos => by
      have := hx.isPositive_iff.mp hpos
      omega
    have hzero : x.units = 0 * Binary64.one := by
      rw [Nat.zero_mul, Binary64.units_eq_zero hpos hnonneg]
    rw [Function.comp_apply, Binary64.roundHalfUp_of_units hzero, Nat.zero_min, Nat.zero_mul]
    exact bounded_zero
  case fits =>
    intro x n hx hpos hle
    refine ⟨Binary64.isNonneg_of_isPositive (hx.isPositive_iff.mpr (by omega)), ?_⟩
    rw [Function.comp_apply, Binary64.roundHalfUp_of_units (hx.same (by omega)),
      Int.natAbs_natCast, Nat.min_eq_left (by omega)]
    exact bounded_mul_of_le hmost (by decide) hpos hle
  case high =>
    intro x z hx hz
    have hround := Binary64.le_roundHalfUp hx.le_units
    have hword : most < 0xffffffffffffffff := Nat.lt_trans hsmall (by decide)
    rw [Function.comp_apply]
    exact bounded_mul_of_lt hmost (by decide) (Nat.lt_min.mpr ⟨by omega, hword⟩)

/-- The interval of so many units, computed in doubles. -/
def scaled (seconds : Nat) (x : Binary64) : Option Nat :=
  (Binary64.ofNat seconds).bind fun unit =>
    (x.mul unit).bind fun product => bounded (product.roundTimes second)

theorem scaled_eq {seconds : Nat} (hseconds : seconds < 0x20000000000000) (x : Binary64) :
    scaled seconds x = (x.mul ⟨false, seconds * Binary64.one⟩).bind fun product =>
      bounded (product.roundTimes second) := by
  rw [scaled, Binary64.ofNat_whole hseconds, Option.bind_some]

theorem scaled_of_units {seconds n : Nat} {x : Binary64} (hseconds : seconds < 0x20000000000000)
    (hx : x.units = n * Binary64.one) (hn : n * seconds < 0x20000000000000) :
    scaled seconds x = bounded (n * (seconds * second)) := by
  rw [scaled_eq hseconds, Binary64.mul_of_units hx hn, Option.bind_some,
    Binary64.roundTimes_whole, Nat.mul_assoc]

/-- A product that a double does not hold exactly is too long an interval. -/
theorem scaled_of_large {seconds n : Nat} {x : Binary64} (hseconds : seconds < 0x20000000000000)
    (hx : n * Binary64.one ≤ x.units) (hn : 0x10000000000000 ≤ n * seconds) :
    scaled seconds x = none := by
  rw [scaled_eq hseconds]
  cases hy : x.mul ⟨false, seconds * Binary64.one⟩ with
  | none => rfl
  | some y =>
    have hproduct := Binary64.le_units_of_mul hx hy
    have hlarge : 0x10000000000000 * Binary64.one ≤ n * seconds * Binary64.one :=
      Nat.mul_le_mul_right _ hn
    have hunits : 0x8000000000000 * Binary64.one ≤ y.units := by omega
    have hround := Binary64.le_roundTimes hunits second
    rw [Option.bind_some]
    refine bounded_of_lt (Nat.lt_of_lt_of_le ?_ hround)
    rw [longest_eq]
    exact Nat.mul_lt_mul_of_pos_right (by decide) (by decide)

/-- A count of units that is a whole one is taken as it is: what is rounded on the way is too
long. -/
theorem counted_asked (h : Counts payload field) {most seconds : Nat}
    (hmost : most * seconds = 31622400) (hseconds : 0 < seconds) :
    counted? payload field seconds =
      (asked? payload field most).map (· * (seconds * second)) := by
  have hunit : seconds ≤ 31622400 :=
    Nat.le_of_dvd (by decide) (hmost ▸ Nat.dvd_mul_left seconds most)
  have hmany : most ≤ 31622400 := hmost ▸ Nat.le_mul_of_pos_right most hseconds
  have hlongest := mul_second_eq_longest hmost
  refine h.eq_asked (f := scaled seconds) (by omega) ?low ?fits ?high
  case low =>
    intro x z hx hz hpos
    have := hx.isPositive_iff.mp hpos
    omega
  case fits =>
    intro x n hx hpos hle
    have hproduct : n * seconds ≤ most * seconds := Nat.mul_le_mul_right seconds hle
    have hunits : x.units = n * Binary64.one := hx.same (by omega)
    refine ⟨hx.isPositive_iff.mpr (by omega), ?_⟩
    rw [scaled_of_units (by omega) hunits (by omega)]
    exact bounded_mul_of_le hlongest (Nat.mul_pos hseconds (by decide)) hpos hle
  case high =>
    intro x z hx hz
    by_cases hexact : z.natAbs * seconds < 0x20000000000000
    · have hle : z.natAbs ≤ z.natAbs * seconds := Nat.le_mul_of_pos_right _ hseconds
      rw [scaled_of_units (by omega) (hx.same (by omega)) hexact]
      exact bounded_mul_of_lt hlongest (Nat.mul_pos hseconds (by decide)) (by omega)
    · refine scaled_of_large (by omega) hx.le_units ?_
      rcases Nat.le_total z.natAbs 0x10000000000000 with hle | hle
      · rw [Nat.min_eq_left hle]
        omega
      · rw [Nat.min_eq_right hle]
        exact Nat.le_mul_of_pos_right _ hseconds

end Fields

/-! ## Cron texts -/

/-- The characters that write a number: digits, with or without a plus sign in front. -/
inductive Writes : List Char → Nat → Prop
  | plain {ds : List Char} : ds ≠ [] → (∀ d ∈ ds, d.isDigit = true) →
      Writes ds (Json.natOfDigits ds)
  | plus {ds : List Char} : ds ≠ [] → (∀ d ∈ ds, d.isDigit = true) →
      Writes ('+' :: ds) (Json.natOfDigits ds)

theorem word?_eq_some_iff {n m : Nat} : word? n = some m ↔ m = n ∧ n ≤ 0xffffffffffffffff := by
  unfold word?
  split
  case isTrue h => simp [h, eq_comm]
  case isFalse h => simp [h]

/-- Digits are read if there are any and 64 bits hold what they write. -/
theorem digits_eq_some_iff {ds : List Char} {n : Nat} :
    (if !ds.isEmpty && ds.all Char.isDigit then word? (Json.natOfDigits ds) else none) = some n ↔
      (ds ≠ [] ∧ ∀ d ∈ ds, d.isDigit = true) ∧ n = Json.natOfDigits ds ∧
        n ≤ 0xffffffffffffffff := by
  have hdigits : (!ds.isEmpty && ds.all Char.isDigit) = true ↔
      ds ≠ [] ∧ ∀ d ∈ ds, d.isDigit = true := by
    simp
  split
  case isTrue h =>
    rw [word?_eq_some_iff]
    constructor
    · rintro ⟨rfl, hle⟩
      exact ⟨hdigits.mp h, rfl, hle⟩
    · rintro ⟨-, rfl, hle⟩
      exact ⟨rfl, hle⟩
  case isFalse h =>
    constructor
    · exact nofun
    · rintro ⟨hds, -⟩
      exact absurd (hdigits.mpr hds) h

theorem count?_eq_some_iff {digits : List Char} {n : Nat} :
    count? digits = some n ↔ Writes digits n ∧ n ≤ 0xffffffffffffffff := by
  unfold count?
  constructor
  · intro h
    dsimp only at h
    split at h
    · obtain ⟨⟨hne, hall⟩, rfl, hle⟩ := digits_eq_some_iff.mp h
      exact ⟨.plus hne hall, hle⟩
    · obtain ⟨⟨hne, hall⟩, rfl, hle⟩ := digits_eq_some_iff.mp h
      exact ⟨.plain hne hall, hle⟩
  · rintro ⟨hwrites, hle⟩
    cases hwrites with
    | plus hne hall => exact digits_eq_some_iff.mpr ⟨⟨hne, hall⟩, rfl, hle⟩
    | plain hne hall =>
      dsimp only
      split
      · exact absurd (hall '+' (List.mem_cons_self ..)) (by decide)
      · exact digits_eq_some_iff.mpr ⟨⟨hne, hall⟩, rfl, hle⟩

/-- Whether a field of a cron text means every so many. -/
def MeansEvery (field : String) (n : Nat) : Prop :=
  ∃ digits, field.toList = '*' :: '/' :: digits ∧ Writes digits n

theorem every?_eq_some_iff {field : String} {n : Nat} :
    every? field = some n ↔ MeansEvery field n ∧ n ≤ 0xffffffffffffffff := by
  unfold every? MeansEvery
  split
  case h_1 digits hfield =>
    simp only [hfield, List.cons.injEq, true_and, exists_eq_left', count?_eq_some_iff]
  case h_2 hother =>
    constructor
    · exact nofun
    · rintro ⟨⟨digits, hfield, -⟩, -⟩
      exact absurd hfield (hother digits)

theorem units?_eq_some_iff {n seconds most i : Nat} (hmost : most * seconds = 31622400)
    (hseconds : 0 < seconds) :
    units? n seconds = some i ↔ (1 ≤ n ∧ n ≤ most) ∧ i = n * (seconds * second) := by
  have hlongest := mul_second_eq_longest hmost
  have hunit : 0 < seconds * second := Nat.mul_pos hseconds (by decide)
  unfold units?
  constructor
  · intro h
    obtain ⟨total, hword, hbounded⟩ := Option.bind_eq_some_iff.mp h
    obtain ⟨rfl, -⟩ := word?_eq_some_iff.mp hword
    rw [Nat.mul_assoc] at hbounded
    obtain ⟨rfl, hpos, hle⟩ := le_of_bounded hbounded
    rw [← hlongest] at hle
    exact ⟨⟨Nat.pos_of_mul_pos_right hpos, Nat.le_of_mul_le_mul_right hle hunit⟩, rfl⟩
  · rintro ⟨⟨hpos, hle⟩, rfl⟩
    have hsmall : n * seconds ≤ 31622400 := hmost ▸ Nat.mul_le_mul_right seconds hle
    rw [word?_eq_some_iff.mpr ⟨rfl, Nat.le_trans hsmall (by decide)⟩, Option.bind_some,
      Nat.mul_assoc]
    exact bounded_mul_of_le hlongest hunit hpos hle

/-- What a field of a cron text gives as the count of a unit. -/
theorem every_units {field : String} {seconds most i : Nat} (hmost : most * seconds = 31622400)
    (hseconds : 0 < seconds) :
    (every? field).bind (units? · seconds) = some i ↔
      ∃ n, MeansEvery field n ∧ (1 ≤ n ∧ n ≤ most) ∧ i = n * (seconds * second) := by
  have hmany : most ≤ 31622400 := hmost ▸ Nat.le_mul_of_pos_right most hseconds
  rw [Option.bind_eq_some_iff]
  constructor
  · rintro ⟨n, hevery, hunits⟩
    exact ⟨n, (every?_eq_some_iff.mp hevery).1, (units?_eq_some_iff hmost hseconds).mp hunits⟩
  · rintro ⟨n, hmeans, hn, hi⟩
    have hword : n ≤ 0xffffffffffffffff := Nat.le_trans hn.2 (Nat.le_trans hmany (by decide))
    exact ⟨n, every?_eq_some_iff.mpr ⟨hmeans, hword⟩,
      (units?_eq_some_iff hmost hseconds).mpr ⟨hn, hi⟩⟩

/-- The fields of a cron text, and the interval that they mean. -/
inductive MeansInterval : List String → Nat → Prop
  | minutes {field : String} {n : Nat} : MeansEvery field n → 1 ≤ n ∧ n ≤ 527040 →
      MeansInterval [field, "*", "*", "*", "*"] (n * (60 * second))
  | hours {field : String} {n : Nat} {stars : List String} : MeansEvery field n →
      1 ≤ n ∧ n ≤ 8784 → stars = ["*", "*", "*"] ∨ stars = ["*", "*", "*", "*"] →
      MeansInterval ("0" :: field :: stars) (n * (3600 * second))

theorem MeansEvery.ne_star {field : String} {n : Nat} (h : MeansEvery field n) : field ≠ "*" := by
  rintro rfl
  obtain ⟨digits, hfield, -⟩ := h
  cases hfield

theorem ofCron?_eq_some_iff {text : String} {i : Nat} :
    ofCron? text = some i ↔ MeansInterval (Text.words text) i := by
  have minutes : 527040 * 60 = 31622400 := by decide
  have hours : 8784 * 3600 = 31622400 := by decide
  unfold ofCron?
  constructor
  · intro h
    split at h
    case h_1 minute hwords =>
      obtain ⟨n, hmeans, hn, rfl⟩ := (every_units minutes (by decide)).mp h
      rw [hwords]
      exact .minutes hmeans hn
    case h_2 hour hother hwords =>
      obtain ⟨n, hmeans, hn, rfl⟩ := (every_units hours (by decide)).mp h
      rw [hwords]
      exact .hours hmeans hn (.inl rfl)
    case h_3 hour hwords =>
      obtain ⟨n, hmeans, hn, rfl⟩ := (every_units hours (by decide)).mp h
      rw [hwords]
      exact .hours hmeans hn (.inr rfl)
    case h_4 => cases h
  · intro h
    generalize Text.words text = fields at h
    cases h with
    | minutes hmeans hn => exact (every_units minutes (by decide)).mpr ⟨_, hmeans, hn, rfl⟩
    | hours hmeans hn hstars =>
      have hhours := (every_units hours (by decide)).mpr ⟨_, hmeans, hn, rfl⟩
      rcases hstars with rfl | rfl
      · split
        case h_1 hfields =>
          exact absurd (List.cons.inj (List.cons.inj hfields).2).1 hmeans.ne_star
        case h_2 hfields =>
          obtain rfl := (List.cons.inj (List.cons.inj hfields).2).1
          exact hhours
        case h_3 hfields => simp at hfields
        case h_4 hthree _ => exact absurd rfl (hthree _)
      · split
        case h_1 hfields => simp at hfields
        case h_2 hfields => simp at hfields
        case h_3 hfields =>
          obtain rfl := (List.cons.inj (List.cons.inj hfields).2).1
          exact hhours
        case h_4 hother => exact absurd rfl (hother _)

/-! ## Payloads -/

theorem le_of_bind_bounded {α : Type} {o : Option α} {f : α → Nat} {i : Nat}
    (h : (o.bind fun a => bounded (f a)) = some i) : 1 ≤ i ∧ i ≤ longest := by
  obtain ⟨a, -, ha⟩ := Option.bind_eq_some_iff.mp h
  obtain ⟨rfl, hi⟩ := le_of_bounded ha
  exact hi

theorem le_of_counted {payload : Json} {field : String} {seconds i : Nat}
    (h : counted? payload field seconds = some i) : 1 ≤ i ∧ i ≤ longest := by
  obtain ⟨count, -, h⟩ := Option.bind_eq_some_iff.mp h
  obtain ⟨unit, -, h⟩ := Option.bind_eq_some_iff.mp h
  exact le_of_bind_bounded h

theorem MeansInterval.le_longest {fields : List String} {i : Nat} (h : MeansInterval fields i) :
    1 ≤ i ∧ i ≤ longest := by
  cases h with
  | minutes _ hn =>
    exact ⟨Nat.mul_pos hn.1 (by decide), Nat.le_trans (Nat.mul_le_mul_right _ hn.2) (by decide)⟩
  | hours _ hn =>
    exact ⟨Nat.mul_pos hn.1 (by decide), Nat.le_trans (Nat.mul_le_mul_right _ hn.2) (by decide)⟩

/-- Whatever a payload asks for, an interval is not zero and not too long. -/
theorem interval?_bounded {payload : Json} {i : Nat} (h : interval? payload = some i) :
    1 ≤ i ∧ i ≤ longest := by
  simp only [interval?, Option.orElse_eq_orElse, Option.orElse_eq_or, Option.or_eq_some_iff] at h
  rcases h with h | ⟨-, h | ⟨-, h | ⟨-, h⟩⟩⟩
  · exact le_of_bind_bounded h
  · exact le_of_counted h
  · exact le_of_counted h
  · obtain ⟨text, -, h⟩ := Option.bind_eq_some_iff.mp h
    exact (ofCron?_eq_some_iff.mp h).le_longest

/-- **Intervals are those asked for.** A payload whose numbers are whole has the interval of the
first of its fields that asks for one within its bounds, counted exactly, and after them that of its
cron text, if its fields are of a form that means one. No interval is zero or too long. -/
theorem intervals_of_payload (payload : Json)
    (h : ∀ field ∈ ["intervalMs", "everyMinutes", "everyHours"], Counts payload field) :
    interval? payload =
        ((asked? payload "intervalMs" 31622400000).map (· * milli)
          <|> (asked? payload "everyMinutes" 527040).map (· * (60 * second))
          <|> (asked? payload "everyHours" 8784).map (· * (3600 * second))
          <|> ((payload.field? "cron").bind Json.asString?).bind ofCron?) ∧
      (∀ text i, ofCron? text = some i ↔ MeansInterval (Text.words text) i) ∧
      ∀ i, interval? payload = some i → 1 ≤ i ∧ i ≤ longest := by
  have millis : 31622400000 * milli = longest := by decide
  have minutes : 527040 * 60 = 31622400 := by decide
  have hours : 8784 * 3600 = 31622400 := by decide
  refine ⟨?_, fun text i => ofCron?_eq_some_iff, fun i => interval?_bounded⟩
  rw [interval?, millis_asked (h "intervalMs" (by decide)) millis,
    counted_asked (h "everyMinutes" (by decide)) minutes (by decide),
    counted_asked (h "everyHours" (by decide)) hours (by decide)]

/-- A payload with too many minutes, and a cron text. -/
def manyMinutes : Json :=
  .obj [("cron", .str "0 */+6 * * *"), ("everyMinutes", .num (.int 527041))]

theorem counts_manyMinutes :
    ∀ field ∈ ["intervalMs", "everyMinutes", "everyHours"], Counts manyMinutes field := by
  intro field hfield n hn
  simp only [List.mem_cons, List.not_mem_nil, or_false] at hfield
  rcases hfield with rfl | rfl | rfl
  · cases hn
  · cases hn
    exact ⟨527041, rfl⟩
  · cases hn

/-- A count of minutes that is too large gives way to a cron text. -/
theorem interval_of_many_minutes :
    (∀ field ∈ ["intervalMs", "everyMinutes", "everyHours"], Counts manyMinutes field) ∧
      interval? manyMinutes = some (6 * (3600 * second)) :=
  ⟨counts_manyMinutes,
    (intervals_of_payload manyMinutes counts_manyMinutes).1.trans (by decide +kernel)⟩

end Schedule

end Workflow
