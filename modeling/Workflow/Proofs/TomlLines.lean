import Workflow.Proofs.DecimalDigits
import Workflow.Proofs.TomlTexts
import Workflow.Toml.Document

/- Lines of a document are read as they were written: a value up to the end of its line (`Writes`),
   an assignment or a header (`Line`), and a text of such lines with empty ones between them
   (`Written.scanStatements`). A number is its digits, which nothing else begins with that a value
   may be (`scanNumber_digits`). -/
namespace Workflow.Toml

variable {c : Char} {ds name rest text left : List Char} {n fuel : Nat}

/-! ## Numbers -/

theorem moreDigits_digits (h : ∀ d ∈ ds, d.isDigit = true) (rest : List Char) :
    moreDigits Char.isDigit (ds ++ '\n' :: rest) = (ds, '\n' :: rest) := by
  induction ds with
  | nil => simp [moreDigits]
  | cons d ds ih =>
    obtain ⟨hd, hds⟩ := List.forall_mem_cons.mp h
    have hne : d ≠ '_' := ne_of_class hd (by decide)
    simp [moreDigits, hne, hd, ih hds]

theorem scanDecimal_digits (n : Nat) (rest : List Char) :
    scanDecimal (Number.digits n ++ '\n' :: rest) = some (Number.digits n, '\n' :: rest) := by
  rcases Nat.eq_zero_or_pos n with rfl | hpos
  · rfl
  have hhead := Number.head?_digits hpos
  have hdigit := fun c => Number.isDigit_of_mem_digits (n := n) (c := c)
  match Number.digits n, Number.digits_ne_nil n, hhead, hdigit with
  | d :: ds, _, hhead, hdigit =>
    have hne : d ≠ '0' := fun h => hhead (congrArg some h)
    have hd := hdigit d List.mem_cons_self
    have hds : ∀ c ∈ ds, c.isDigit = true := fun c hc => hdigit c (List.mem_cons_of_mem d hc)
    simp [scanDecimal, hne, scanDigits, hd, moreDigits_digits hds]

/-- Behind so many digits stands a further one or the end of the line. -/
theorem after?_scanFixed {count : Nat} (h : ∀ d ∈ ds, d.isDigit = true)
    (hscan : scanFixed count (ds ++ '\n' :: rest) = some (n, left)) (hdigit : c.isDigit = false)
    (hline : c ≠ '\n') : after? c left = none := by
  unfold scanFixed at hscan
  dsimp only at hscan
  split at hscan
  case isFalse => cases hscan
  case isTrue hall =>
  simp only [Bool.and_eq_true, beq_iff_eq, List.all_eq_true] at hall
  obtain ⟨hlength, hdigits⟩ := hall
  obtain ⟨-, rfl⟩ := Prod.mk.inj (Option.some.inj hscan)
  have hcount : count ≤ ds.length := by
    refine Nat.le_of_not_lt fun hlt => ?_
    -- the end of the line would be one of the digits
    have hmem : '\n' ∈ (ds ++ '\n' :: rest).take count := by
      obtain ⟨more, hmore⟩ := Nat.exists_eq_add_of_lt hlt
      rw [hmore, Nat.add_assoc, List.take_length_add_append, List.take_succ_cons]
      exact List.mem_append_right _ List.mem_cons_self
    exact absurd (hdigits _ hmem) (by decide)
  rw [List.drop_append_of_le_length hcount]
  cases hdrop : ds.drop count with
  | nil => simp [after?, hline]
  | cons d later =>
    have hd : d.isDigit = true := h d (List.mem_of_mem_drop (hdrop ▸ List.mem_cons_self))
    simp [after?, (ne_of_class hd hdigit).symm]

theorem scanSign_digit (h : c.isDigit = true) (rest : List Char) :
    scanSign (c :: rest) = (false, c :: rest) := by
  have hminus : c ≠ '-' := ne_of_class h (by decide)
  have hplus : c ≠ '+' := ne_of_class h (by decide)
  simp [scanSign, hminus, hplus]

theorem scanSpecial_digit (h : c.isDigit = true) (rest : List Char) :
    scanSpecial (c :: rest) = none := by
  have hi : 'i' ≠ c := (ne_of_class h (by decide)).symm
  have hn : 'n' ≠ c := (ne_of_class h (by decide)).symm
  have hinf : afterWord? "inf" (c :: rest) = none := by
    rw [afterWord?, if_neg]
    simp [hi]
  have hnan : afterWord? "nan" (c :: rest) = none := by
    rw [afterWord?, if_neg]
    simp [hn]
  simp [scanSpecial, scanSign_digit h, hinf, hnan]

theorem fitted_natCast (h : n < 0x8000000000000000) : fitted n = some (.integer n) := by
  unfold fitted
  rw [if_pos]
  simp only [Bool.and_eq_true, decide_eq_true_eq]
  omega

theorem scanInteger_digits (h : n < 0x8000000000000000) (rest : List Char) :
    scanInteger (Number.digits n ++ '\n' :: rest) = some (.integer n, '\n' :: rest) := by
  -- no mark of a base is in front, a zero being followed by the end of the line
  have hplain : scanInteger (Number.digits n ++ '\n' :: rest) =
      (scanDecimal (Number.digits n ++ '\n' :: rest)).bind fun read =>
        (fitted (Json.natOfDigits read.1)).bind fun v => some (v, read.2) := by
    rcases Nat.eq_zero_or_pos n with rfl | hpos
    · rfl
    have hhead := Number.head?_digits hpos
    have hdigit := fun c => Number.isDigit_of_mem_digits (n := n) (c := c)
    match Number.digits n, Number.digits_ne_nil n, hhead, hdigit with
    | d :: ds, _, hhead, hdigit =>
      have hne : d ≠ '0' := fun h => hhead (congrArg some h)
      unfold scanInteger
      split
      case h_1 heq => exact absurd (List.cons.inj heq).1 hne
      case h_2 heq => exact absurd (List.cons.inj heq).1 hne
      case h_3 heq => exact absurd (List.cons.inj heq).1 hne
      case h_4 =>
        rw [List.cons_append, scanSign_digit (hdigit d List.mem_cons_self)]
        rfl
  have hfits : fitted (Json.natOfDigits (Number.digits n)) = some (.integer n) := by
    rw [Number.natOfDigits_digits, fitted_natCast h]
  rw [hplain]
  exact Option.bind_eq_some_iff.mpr ⟨_, scanDecimal_digits n rest,
    Option.bind_eq_some_iff.mpr ⟨_, hfits, rfl⟩⟩

theorem scanNumber_digits (h : n < 0x8000000000000000) (rest : List Char) :
    scanNumber (Number.digits n ++ '\n' :: rest) = some (.integer n, '\n' :: rest) := by
  have hdigits : ∀ d ∈ Number.digits n, d.isDigit = true := fun d => Number.isDigit_of_mem_digits
  have hmoment : scanMoment (Number.digits n ++ '\n' :: rest) = none := by
    have hdate : skipDate (Number.digits n ++ '\n' :: rest) = none := by
      unfold skipDate
      cases hscan : scanFixed 4 (Number.digits n ++ '\n' :: rest) with
      | none => rfl
      | some read => simp [after?_scanFixed hdigits hscan (c := '-') (by decide) (by decide)]
    have htime : skipTime (Number.digits n ++ '\n' :: rest) = none := by
      unfold skipTime
      cases hscan : scanFixed 2 (Number.digits n ++ '\n' :: rest) with
      | none => rfl
      | some read => simp [after?_scanFixed hdigits hscan (c := ':') (by decide) (by decide)]
    simp [scanMoment, hdate, htime]
  have hdecimal := scanDecimal_digits n rest
  have hinteger := scanInteger_digits h rest
  match Number.digits n, Number.digits_ne_nil n, hdigits, hmoment, hdecimal, hinteger with
  | d :: ds, _, hdigits, hmoment, hdecimal, hinteger =>
    have hd := hdigits d List.mem_cons_self
    have hspecial := scanSpecial_digit hd (ds ++ '\n' :: rest)
    rw [List.cons_append] at hmoment hdecimal hinteger ⊢
    have hfloat : scanFloat (d :: (ds ++ '\n' :: rest)) = none := by
      simp [scanFloat, scanSign_digit hd, hdecimal, scanPoint]
    simp [scanNumber, hmoment, hfloat, hspecial, hinteger]

/-! ## Values -/

theorem head_quote (s : String) : ∃ c ∈ (quote s).head?, c = '"' ∨ c = '\x27' := by
  unfold quote
  dsimp only
  split
  · split
    · exact ⟨_, rfl, .inr rfl⟩
    · split <;> exact ⟨_, rfl, .inr rfl⟩
  · split <;> exact ⟨_, rfl, .inl rfl⟩

theorem scanValue_quote (s : String) (fuel depth : Nat) (rest : List Char) :
    scanValue (fuel + 1) depth (quote s ++ '\n' :: rest) = some (.text s, '\n' :: rest) := by
  have hread := scanText_quote s rest
  obtain ⟨c, hc, hquote⟩ := head_quote s
  match quote s, hc, hread with
  | c :: cs, rfl, hread =>
    rcases hquote with rfl | rfl <;>
    · simp only [List.cons_append] at hread ⊢
      simp [scanValue, hread]

theorem scanValue_truth (b : Bool) (fuel depth : Nat) (rest : List Char) :
    scanValue (fuel + 1) depth ((if b then "true".toList else "false".toList) ++ '\n' :: rest) =
      some (.truth b, '\n' :: rest) := by
  cases b <;> rfl

theorem scanValue_digits (h : n < 0x8000000000000000) (fuel depth : Nat) (rest : List Char) :
    scanValue (fuel + 1) depth (Number.digits n ++ '\n' :: rest) =
      some (.integer n, '\n' :: rest) := by
  have hread := scanNumber_digits h rest
  have hdigits := fun d => Number.isDigit_of_mem_digits (n := n) (c := d)
  match Number.digits n, Number.digits_ne_nil n, hdigits, hread with
  | d :: ds, _, hdigits, hread =>
    have hd := hdigits d List.mem_cons_self
    have hne : ∀ c : Char, c.isDigit = false → d ≠ c := fun c => ne_of_class hd
    rw [← hread, List.cons_append]
    simp [scanValue, hne '"' (by decide), hne '\x27' (by decide), hne '[' (by decide),
      hne '\x7b' (by decide), hne 't' (by decide), hne 'f' (by decide)]

/-! ## Keys -/

/-- A key without quotes. -/
def BareName (name : List Char) : Prop := name ≠ [] ∧ ∀ c ∈ name, isBare c = true

instance (name : List Char) : Decidable (BareName name) :=
  decidable_of_iff ((!name.isEmpty && name.all isBare) = true) (by simp [BareName])

/-- What may stand behind a key: no further part of it, and nothing that would be one more
character of its last part. -/
def Ends (text : List Char) : Prop :=
  (∀ c ∈ text.head?, isBare c = false) ∧ (skipSpace text).head? ≠ some '.'

theorem scanPart_bare (hname : BareName name) (hends : Ends rest) :
    scanPart (name ++ rest) = some (String.ofList name, rest) := by
  obtain ⟨hne, hbare⟩ := hname
  have htake : (name ++ rest).takeWhile isBare = name := by
    rw [List.takeWhile_append_of_pos hbare]
    cases rest with
    | nil => simp
    | cons c rest =>
      have hc := hends.1 c rfl
      simp [hc]
  match name, hne, hbare with
  | c :: name, _, hbare =>
    have hc := hbare c List.mem_cons_self
    have hquote : c ≠ '"' ∧ c ≠ '\x27' := ⟨ne_of_class hc (by decide), ne_of_class hc (by decide)⟩
    rw [List.cons_append] at htake ⊢
    simp [scanPart, hquote, htake]

/-- No blank is in front of what begins with a character of a class without them. -/
theorem skipSpace_class {p : Char → Bool} (h : p c = true) (hspace : p ' ' = false)
    (htab : p '\t' = false) (rest : List Char) : skipSpace (c :: rest) = c :: rest := by
  refine List.dropWhile_cons_of_neg ?_
  simp [ne_of_class h hspace, ne_of_class h htab]

theorem scanPath_bare (hname : BareName name) (hends : Ends rest) :
    scanPath (name ++ rest) = some ([], String.ofList name, skipSpace rest) := by
  have hpart := scanPart_bare hname hends
  have hkey : scanKey ((name ++ rest).length + 1) (name ++ rest) =
      some ([String.ofList name], skipSpace rest) := by
    have hspace : skipSpace (name ++ rest) = name ++ rest := by
      obtain ⟨hne, hbare⟩ := hname
      match name, hne, hbare with
      | c :: name, _, hbare =>
        exact skipSpace_class (hbare c List.mem_cons_self) (by decide) (by decide) _
    rw [scanKey, hspace, hpart]
    have hdot := hends.2
    dsimp only [Option.bind_eq_bind, Option.bind_some]
    split
    case h_1 heq => exact absurd (congrArg List.head? heq) hdot
    case h_2 => rfl
  unfold scanPath
  rw [hkey]
  rfl

/-! ## Lines -/

/-- A text that is read as a value up to the end of its line. -/
structure Writes (value : List Char) (v : Value) : Prop where
  scan (fuel depth : Nat) (rest : List Char) :
    scanValue (fuel + 1) depth (value ++ '\n' :: rest) = some (v, '\n' :: rest)
  front : ∀ rest, skipSpace (value ++ rest) = value ++ rest

theorem writes_quote (s : String) : Writes (quote s) (.text s) where
  scan fuel depth rest := scanValue_quote s fuel depth rest
  front rest := by
    obtain ⟨c, hc, hquote⟩ := head_quote s
    match quote s, hc with
    | c :: cs, rfl => rcases hquote with rfl | rfl <;> rfl

theorem writes_truth (b : Bool) :
    Writes (if b then "true".toList else "false".toList) (.truth b) where
  scan fuel depth rest := scanValue_truth b fuel depth rest
  front rest := by cases b <;> rfl

theorem writes_digits (h : n < 0x8000000000000000) : Writes (Number.digits n) (.integer n) where
  scan fuel depth rest := scanValue_digits h fuel depth rest
  front rest := by
    have hdigits := fun d => Number.isDigit_of_mem_digits (n := n) (c := d)
    match Number.digits n, Number.digits_ne_nil n, hdigits with
    | d :: ds, _, hdigits =>
      exact skipSpace_class (hdigits d List.mem_cons_self) (by decide) (by decide) _

/-- Whether a statement may begin with a character. -/
def opens (c : Char) : Bool := c == '[' || isBare c

/-- A line without its end that is read as a statement. -/
structure Line (line : List Char) (s : Statement) : Prop where
  scan (rest : List Char) : scanStatement (line ++ '\n' :: rest) = some (s, rest)
  front : ∃ c ∈ line.head?, opens c = true

theorem skipSpace_sign (rest : List Char) : skipSpace (' ' :: '=' :: rest) = '=' :: rest := rfl

theorem endLine_feed (rest : List Char) : endLine ('\n' :: rest) = some rest := rfl

theorem BareName.head (hname : BareName name) : ∃ c ∈ name.head?, isBare c = true := by
  obtain ⟨hne, hbare⟩ := hname
  match name, hne, hbare with
  | c :: name, _, hbare => exact ⟨c, rfl, hbare c List.mem_cons_self⟩

theorem BareName.ne_bracket (hname : BareName name) (rest later : List Char) :
    name ++ rest ≠ '[' :: later := by
  obtain ⟨hne, hbare⟩ := hname
  match name, hne, hbare with
  | c :: name, _, hbare =>
    intro heq
    obtain ⟨rfl, -⟩ := List.cons.inj heq
    exact absurd (hbare '[' List.mem_cons_self) (by decide)

theorem ends_bracket (rest : List Char) : Ends (']' :: rest) :=
  ⟨by simp [isBare], by simp [skipSpace]⟩

theorem line_header (hname : BareName name) :
    Line ('[' :: name ++ [']']) (.header [] (String.ofList name)) where
  scan rest := by
    have hpath := scanPath_bare hname (ends_bracket ('\n' :: rest))
    have htext : '[' :: name ++ [']'] ++ '\n' :: rest = '[' :: (name ++ ']' :: '\n' :: rest) := by
      simp
    rw [htext]
    unfold scanStatement
    split
    case h_1 heq => exact absurd (List.cons.inj heq).2 (hname.ne_bracket _ _)
    case h_2 heq =>
      obtain ⟨-, rfl⟩ := List.cons.inj heq
      rw [hpath]
      rfl
    case h_3 hbracket => exact absurd rfl (hbracket _)
  front := ⟨'[', rfl, rfl⟩

theorem line_arrayHeader (hname : BareName name) :
    Line ('[' :: '[' :: name ++ [']', ']']) (.arrayHeader [] (String.ofList name)) where
  scan rest := by
    have hpath := scanPath_bare hname (ends_bracket (']' :: '\n' :: rest))
    have htext : '[' :: '[' :: name ++ [']', ']'] ++ '\n' :: rest =
        '[' :: '[' :: (name ++ ']' :: ']' :: '\n' :: rest) := by
      simp
    rw [htext]
    unfold scanStatement
    simp only [hpath]
    rfl
  front := ⟨'[', rfl, rfl⟩

theorem line_assign {value : List Char} {v : Value} (hname : BareName name)
    (hvalue : Writes value v) :
    Line (name ++ " = ".toList ++ value) (.assign [] (String.ofList name) v) where
  scan rest := by
    have hends : Ends (' ' :: '=' :: ' ' :: (value ++ '\n' :: rest)) :=
      ⟨by simp [isBare], by simp [skipSpace]⟩
    have hpath := scanPath_bare hname hends
    have htext : name ++ " = ".toList ++ value ++ '\n' :: rest =
        name ++ ' ' :: '=' :: ' ' :: (value ++ '\n' :: rest) := by
      simp
    have hspace : skipSpace (' ' :: (value ++ '\n' :: rest)) = value ++ '\n' :: rest :=
      hvalue.front _
    rw [htext]
    unfold scanStatement
    split
    case h_1 heq => exact absurd heq (hname.ne_bracket _ _)
    case h_2 heq => exact absurd heq (hname.ne_bracket _ _)
    case h_3 =>
      simp [hpath, skipSpace_sign, after?, hspace, hvalue.scan, endLine_feed]
  front := by
    obtain ⟨c, hc, hbare⟩ := hname.head
    exact ⟨c, by simp [List.head?_append, Option.mem_def.mp hc], by simp [opens, hbare]⟩


/-! ## Documents -/

/-- A text of lines, with empty ones between them. -/
inductive Written : List Char → List Statement → Prop where
  | nil : Written [] []
  | gap {text : List Char} {statements : List Statement} (later : Written text statements) :
      Written ('\n' :: text) statements
  | line {line text : List Char} {s : Statement} {statements : List Statement}
      (isLine : Line line s) (later : Written text statements) :
      Written (line ++ '\n' :: text) (s :: statements)

theorem Written.append {between : List Char} {statements later : List Statement}
    (h : Written text statements) (hlater : Written between later) :
    Written (text ++ between) (statements ++ later) := by
  induction h with
  | nil => exact hlater
  | gap _ ih => exact .gap ih
  | line isLine _ ih =>
    rw [List.append_assoc]
    exact .line isLine ih

theorem Line.skipLines {line : List Char} {s : Statement} (h : Line line s) (rest : List Char)
    (fuel : Nat) : skipLines fuel (line ++ rest) = line ++ rest := by
  obtain ⟨c, hc, hfront⟩ := h.front
  match line, hc with
  | c :: line, rfl =>
    cases fuel with
    | zero => rfl
    | succ fuel =>
      have hspace := skipSpace_class hfront (by decide) (by decide) (line ++ rest)
      have hcomment : c ≠ '#' := ne_of_class hfront (by decide)
      have hfeed : c ≠ '\n' := ne_of_class hfront (by decide)
      have hreturn : c ≠ '\r' := ne_of_class hfront (by decide)
      simp [Toml.skipLines, hspace, skipComment, lineEnd?, hcomment, hfeed, hreturn]

theorem Written.scanStatements {statements : List Statement} (h : Written text statements)
    (hfuel : statements.length < fuel) : scanStatements fuel text = some statements := by
  induction h generalizing fuel with
  | nil => cases fuel with
    | zero => cases hfuel
    | succ fuel => rfl
  | gap later ih => cases fuel with
    | zero => cases hfuel
    | succ fuel => exact ih hfuel
  | @line line text s statements isLine later ih => cases fuel with
    | zero => cases hfuel
    | succ fuel =>
      have hskip := isLine.skipLines ('\n' :: text) (line ++ '\n' :: text).length
      have hrest := ih (Nat.lt_of_succ_lt_succ hfuel)
      rw [Toml.scanStatements, hskip]
      split
      case h_1 heq => simp at heq
      case h_2 => simp [isLine.scan, hrest]

theorem Written.length_le {statements : List Statement} (h : Written text statements) :
    statements.length ≤ text.length := by
  induction h with
  | nil => exact Nat.le_refl 0
  | gap later ih => exact Nat.le_succ_of_le ih
  | line isLine later ih =>
    rw [List.length_append, List.length_cons, List.length_cons]
    omega

theorem Written.head {statements : List Statement} (h : Written text statements) :
    text.head? ≠ some '\uFEFF' := by
  cases h with
  | nil => simp
  | gap later => simp
  | line isLine later =>
    obtain ⟨c, hc, hfront⟩ := isLine.front
    rw [List.head?_append, Option.mem_def.mp hc]
    rintro ⟨⟩
    exact absurd hfront (by decide)

theorem Written.parse? {statements : List Statement} (h : Written text statements) :
    Toml.parse? (String.ofList text) =
      ((Draft.performAll {} statements).bind Draft.close).map fieldsOf := by
  have hscan : Toml.scanStatements (text.length + 1) text = some statements :=
    h.scanStatements (Nat.lt_succ_of_le h.length_le)
  have hhead := h.head
  unfold Toml.parse?
  rw [String.toList_ofList]
  split
  case h_1 => exact absurd rfl hhead
  case h_2 =>
    simp only [hscan, Option.bind_eq_bind, Option.bind_some, Option.map_eq_bind, Option.bind_assoc]
    rfl

end Workflow.Toml
