/-
  Blank characters: the White_Space property of Unicode, and the trimming and
  splitting of text by it.

  Statement: `blank_iff_trim_eq` — a text trims to nothing exactly when all of
  it is blank.
-/

namespace Workflow.Text

/-- Whether a character has the White_Space property. -/
def isBlank (c : Char) : Bool :=
  let n := c.toNat
  (9 ≤ n && n ≤ 13) || n == 0x20 || n == 0x85 || n == 0xA0 || n == 0x1680
    || (0x2000 ≤ n && n ≤ 0x200A) || n == 0x2028 || n == 0x2029 || n == 0x202F
    || n == 0x205F || n == 0x3000

/-- The text without its leading blanks. -/
def trimStartChars (cs : List Char) : List Char := cs.dropWhile isBlank

/-- The text without its trailing blanks. -/
def trimEndChars (cs : List Char) : List Char := (cs.reverse.dropWhile isBlank).reverse

/-- The text without leading and trailing blanks. -/
def trimChars (cs : List Char) : List Char := trimEndChars (trimStartChars cs)

/-- The text without leading and trailing blanks. -/
def trim (s : String) : String := String.ofList (trimChars s.toList)

/-- The text without leading blanks. -/
def trimStart (s : String) : String := String.ofList (trimStartChars s.toList)

/-- Whether a text has no character that is not blank. -/
def blank (s : String) : Bool := s.toList.all isBlank

/-- The characters gathered so far, as a word in front of the later ones. -/
private def close (word : List Char) (later : List (List Char)) : List (List Char) :=
  if word.isEmpty then later else word.reverse :: later

/-- Words of a text, the characters of an unfinished word given in reverse. -/
def wordsFrom : List Char → List Char → List (List Char)
  | word, [] => close word []
  | word, c :: rest =>
    if isBlank c then close word (wordsFrom [] rest) else wordsFrom (c :: word) rest

/-- The maximal runs of characters that are not blank, in order. -/
def words (s : String) : List String := (wordsFrom [] s.toList).map String.ofList

/-- ASCII letters in lower case; every other character as it is. -/
def asciiLower (s : String) : String := String.ofList (s.toList.map Char.toLower)

/-- ASCII letters in upper case; every other character as it is. -/
def asciiUpper (s : String) : String := String.ofList (s.toList.map Char.toUpper)

theorem dropWhile_eq_nil_iff {p : Char → Bool} {cs : List Char} :
    cs.dropWhile p = [] ↔ ∀ c ∈ cs, p c = true := by
  induction cs with
  | nil => simp
  | cons c cs ih => by_cases h : p c = true <;> simp [h, ih]

theorem trimEndChars_eq_nil_iff {cs : List Char} :
    trimEndChars cs = [] ↔ ∀ c ∈ cs, isBlank c = true := by
  rw [trimEndChars, List.reverse_eq_nil_iff, dropWhile_eq_nil_iff]
  simp only [List.mem_reverse]

theorem trimStartChars_blank {cs : List Char} :
    (∀ c ∈ trimStartChars cs, isBlank c = true) ↔ ∀ c ∈ cs, isBlank c = true := by
  induction cs with
  | nil => simp [trimStartChars]
  | cons c cs ih =>
    by_cases h : isBlank c = true
    · simpa [trimStartChars, List.dropWhile_cons, h] using ih
    · simp [trimStartChars, h]

theorem trimChars_eq_nil_iff {cs : List Char} :
    trimChars cs = [] ↔ ∀ c ∈ cs, isBlank c = true := by
  rw [trimChars, trimEndChars_eq_nil_iff, trimStartChars_blank]

/-- A text trims to the empty text exactly when it is blank. -/
theorem blank_iff_trim_eq {s : String} : blank s = true ↔ trim s = "" := by
  rw [String.ext_iff]
  simp [blank, trim, trimChars_eq_nil_iff]

end Workflow.Text
