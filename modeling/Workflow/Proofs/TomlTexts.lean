import Workflow.Toml.Quoted

/- Strings of TOML are read as they were written (`scanText_quote`). In a basic string each
   character stands for itself or is escaped (`WrittenAs`), in a literal one it stands for itself,
   and there three apostrophes never stand in a row before the end. -/
namespace Workflow.Toml

variable {c : Char} {cs rest : List Char} {fuel : Nat}

/-- A character of a class is none outside it. -/
theorem ne_of_class {p : Char → Bool} {d : Char} (hc : p c = true) (hd : p d = false) : c ≠ d := by
  rintro rfl
  rw [hc] at hd
  cases hd

theorem lineEnd?_plain (h : plain c = true) (rest : List Char) : lineEnd? (c :: rest) = none := by
  have hfeed : c ≠ '\n' := ne_of_class h (by decide)
  have hreturn : c ≠ '\r' := ne_of_class h (by decide)
  simp [lineEnd?, hfeed, hreturn]

/-! ## Basic strings -/

/-- How a character of a basic string is written: it stands for itself, or behind a backslash
stands what it is read from, which is no line end. -/
inductive WrittenAs (overLines : Bool) (c : Char) : List Char → Prop where
  | itself (isPlain : plain c = true) (notQuote : c ≠ '"') (notSlash : c ≠ '\\') :
      WrittenAs overLines c [c]
  | escaped {letters : List Char} (escape : ∀ tail, scanEscape (letters ++ tail) = some (c, tail))
      (unbroken : ∀ tail, skipBreak (letters ++ tail) = none) :
      WrittenAs overLines c ('\\' :: letters)
  | feed (isTall : overLines = true) (isFeed : c = '\n') : WrittenAs overLines c ['\n']

theorem fourHex_ascii : ∀ n < 128, natOfBase 16 (fourHex n) = n ∧ (fourHex n).all isHex = true := by
  decide

theorem scanCode_fourHex {n : Nat} (h : n < 128) (tail : List Char) :
    scanCode 4 (fourHex n ++ tail) = some (Char.ofNat n, tail) := by
  obtain ⟨hvalue, hhex⟩ := fourHex_ascii n h
  have hvalid : n.isValidChar := .inl (by omega)
  have htaken : (fourHex n ++ tail).take 4 = fourHex n := rfl
  have hdropped : (fourHex n ++ tail).drop 4 = tail := rfl
  unfold scanCode
  dsimp only
  rw [htaken, hdropped, hvalue, if_pos]
  simp [hhex, hvalid]
  rfl

theorem written_writtenChar (overLines : Bool) (c : Char) :
    WrittenAs overLines c (writtenChar overLines c) := by
  unfold writtenChar
  by_cases hback : c = '\x08'
  · subst hback
    exact .escaped (fun _ => rfl) (fun _ => rfl)
  by_cases htab : c = '\t'
  · subst htab
    exact .escaped (fun _ => rfl) (fun _ => rfl)
  by_cases hfeed : c = '\n'
  · subst hfeed
    cases overLines with
    | true => exact .feed rfl rfl
    | false => exact .escaped (fun _ => rfl) (fun _ => rfl)
  by_cases hform : c = '\x0c'
  · subst hform
    exact .escaped (fun _ => rfl) (fun _ => rfl)
  by_cases hreturn : c = '\r'
  · subst hreturn
    exact .escaped (fun _ => rfl) (fun _ => rfl)
  by_cases hquote : c = '"'
  · subst hquote
    exact .escaped (fun _ => rfl) (fun _ => rfl)
  by_cases hslash : c = '\\'
  · subst hslash
    exact .escaped (fun _ => rfl) (fun _ => rfl)
  simp only [beq_iff_eq, hback, htab, hfeed, hform, hreturn, hquote, hslash, if_false]
  split
  case isTrue hcontrol =>
    have hlow : c.toNat < 128 := by
      simp only [Bool.or_eq_true, decide_eq_true_eq, beq_iff_eq] at hcontrol
      rcases hcontrol with hlt | rfl
      · exact Nat.lt_trans (Char.lt_def.mp hlt) (by decide)
      · decide
    refine .escaped (fun tail => ?_) (fun _ => rfl)
    show scanCode 4 (fourHex c.toNat ++ tail) = _
    rw [scanCode_fourHex hlow, Char.ofNat_toNat]
  case isFalse hplain =>
    refine .itself ?_ hquote hslash
    simp only [Bool.or_eq_true, decide_eq_true_eq, beq_iff_eq, not_or] at hplain
    simp [plain, hplain.2, Char.not_lt.mp hplain.1]

/-- A basic string on one line is read as it was written. -/
theorem scanLine_written (h : cs.length < fuel) (rest : List Char) :
    scanLine '"' fuel (cs.flatMap (writtenChar false) ++ '"' :: rest) = some (cs, rest) := by
  induction cs generalizing fuel with
  | nil => cases fuel with
    | zero => cases h
    | succ fuel => rfl
  | cons c cs ih => cases fuel with
    | zero => cases h
    | succ fuel =>
    have ih := ih (Nat.lt_of_succ_lt_succ h)
    have hwritten := written_writtenChar false c
    rw [List.flatMap_cons, List.append_assoc]
    generalize writtenChar false c = written at hwritten
    cases hwritten with
    | itself isPlain notQuote notSlash => simp [scanLine, notQuote, notSlash, isPlain, ih]
    | escaped escape => simp [scanLine, escape, ih]
    | feed isTall => cases isTall

/-- So is one over several lines. -/
theorem scanLines_written (h : cs.length < fuel) (rest : List Char) :
    scanLines '"' fuel (cs.flatMap (writtenChar true) ++ '"' :: '"' :: '"' :: '\n' :: rest) =
      some (cs, '\n' :: rest) := by
  induction cs generalizing fuel with
  | nil => cases fuel with
    | zero => cases h
    | succ fuel => rfl
  | cons c cs ih => cases fuel with
    | zero => cases h
    | succ fuel =>
    have ih := ih (Nat.lt_of_succ_lt_succ h)
    have hwritten := written_writtenChar true c
    rw [List.flatMap_cons, List.append_assoc]
    generalize writtenChar true c = written at hwritten
    cases hwritten with
    | itself isPlain notQuote notSlash =>
      simp [scanLines, notQuote, notSlash, isPlain, lineEnd?_plain isPlain, ih]
    | escaped escape unbroken => simp [scanLines, escape, unbroken, ih]
    | feed isTall isFeed =>
      subst isFeed
      simp [scanLines, lineEnd?, ih]

/-! ## Literal strings -/

/-- The greatest number of apostrophes in a row, given the greatest so far and how many stand in
front. -/
def tally (best here : Nat) (cs : List Char) : Nat :=
  (cs.foldl (fun ((best, here) : Nat × Nat) c =>
    if c == '\x27' then (max best (here + 1), here + 1) else (best, 0)) (best, here)).1

theorem tally_quote (best here : Nat) (cs : List Char) :
    tally best here ('\x27' :: cs) = tally (max best (here + 1)) (here + 1) cs := rfl

theorem tally_other (h : c ≠ '\x27') (best here : Nat) (cs : List Char) :
    tally best here (c :: cs) = tally best 0 cs := by
  simp [tally, h]

theorem le_tally (best here : Nat) (cs : List Char) : best ≤ tally best here cs := by
  induction cs generalizing best here with
  | nil => exact Nat.le_refl best
  | cons c cs ih =>
    by_cases hc : c = '\x27'
    · subst hc
      exact Nat.le_trans (Nat.le_max_left ..) (ih ..)
    · rw [tally_other hc]
      exact ih best 0

theorem tally_mono {best best' here here' : Nat} (hbest : best ≤ best') (hhere : here ≤ here')
    (cs : List Char) : tally best here cs ≤ tally best' here' cs := by
  induction cs generalizing best best' here here' with
  | nil => exact hbest
  | cons c cs ih =>
    by_cases hc : c = '\x27'
    · subst hc
      rw [tally_quote, tally_quote]
      exact ih (by omega) (by omega)
    · rw [tally_other hc, tally_other hc]
      exact ih hbest (Nat.le_refl 0)

/-- Whether a text can stand in a literal string over several lines: none of its characters has to
be escaped, no three apostrophes stand in a row, and none at the end. -/
structure Stands (cs : List Char) : Prop where
  chars : ∀ c ∈ cs, c = '\n' ∨ plain c = true
  ending : cs.getLast? ≠ some '\x27'
  rows : tally 0 0 cs < 3

theorem Stands.tail (h : Stands (c :: cs)) : Stands cs where
  chars d hd := h.chars d (List.mem_cons_of_mem c hd)
  ending hlast := by
    have hending := h.ending
    rw [List.getLast?_cons, hlast] at hending
    exact hending rfl
  rows := by
    refine Nat.lt_of_le_of_lt ?_ h.rows
    by_cases hc : c = '\x27'
    · subst hc
      exact tally_mono (Nat.zero_le _) (Nat.zero_le _) cs
    · exact Nat.le_of_eq (tally_other hc 0 0 cs).symm

/-- Such a text from left to right: at most two apostrophes stand in a row, and something follows
them. -/
inductive Literal : List Char → Prop where
  | nil : Literal []
  | other {c : Char} {cs : List Char} (stands : c = '\n' ∨ plain c = true)
      (notQuote : c ≠ '\x27') (later : Literal cs) : Literal (c :: cs)
  | one {c : Char} {cs : List Char} (notQuote : c ≠ '\x27') (later : Literal (c :: cs)) :
      Literal ('\x27' :: c :: cs)
  | two {c : Char} {cs : List Char} (notQuote : c ≠ '\x27') (later : Literal (c :: cs)) :
      Literal ('\x27' :: '\x27' :: c :: cs)

theorem Stands.literal {cs : List Char} (h : Stands cs) : Literal cs := by
  match cs with
  | [] => exact .nil
  | c :: cs =>
    by_cases hc : c = '\x27'
    · subst hc
      match cs with
      | [] => exact absurd rfl h.ending
      | d :: ds =>
        by_cases hd : d = '\x27'
        · subst hd
          match ds with
          | [] => exact absurd rfl h.ending
          | e :: es =>
            by_cases he : e = '\x27'
            · -- three apostrophes in a row
              subst he
              exact absurd h.rows (Nat.not_lt.mpr (le_tally 3 3 es))
            · exact .two he h.tail.tail.literal
        · exact .one hd h.tail.literal
    · exact .other (h.chars c List.mem_cons_self) hc h.tail.literal

theorem takeWhile_quotes (n : Nat) (h : c ≠ '\x27') (cs : List Char) :
    (List.replicate n '\x27' ++ c :: cs).takeWhile (· == '\x27') = List.replicate n '\x27' := by
  rw [List.takeWhile_append_of_pos (by simp), List.takeWhile_cons_of_neg (by simpa using h)]
  simp

/-- A literal string over several lines is read as it was written. -/
theorem scanLines_literal (hliteral : Literal cs) (h : cs.length < fuel) (rest : List Char) :
    scanLines '\x27' fuel (cs ++ '\x27' :: '\x27' :: '\x27' :: '\n' :: rest) =
      some (cs, '\n' :: rest) := by
  induction hliteral generalizing fuel with
  | nil => cases fuel with
    | zero => cases h
    | succ fuel => rfl
  | other stands notQuote later ih => cases fuel with
    | zero => cases h
    | succ fuel =>
    have ih := ih (Nat.lt_of_succ_lt_succ h)
    rcases stands with rfl | isPlain
    · simp [scanLines, lineEnd?, ih]
    · simp [scanLines, notQuote, isPlain, lineEnd?_plain isPlain, ih]
  | @one c cs notQuote later ih => cases fuel with
    | zero => cases h
    | succ fuel =>
    have ih := ih (Nat.lt_of_succ_lt_succ h)
    have hrun := takeWhile_quotes 0 notQuote
      (cs ++ '\x27' :: '\x27' :: '\x27' :: '\n' :: rest)
    simp only [List.replicate_zero, List.nil_append] at hrun
    simp [scanLines, hrun] at ih ⊢
    simp [ih]
  | @two c cs notQuote later ih => cases fuel with
    | zero => cases h
    | succ fuel =>
    have ih := ih (Nat.lt_of_succ_lt (Nat.lt_of_succ_lt_succ h))
    have hrun := takeWhile_quotes 1 notQuote
      (cs ++ '\x27' :: '\x27' :: '\x27' :: '\n' :: rest)
    simp only [List.replicate_one, List.singleton_append] at hrun
    simp [scanLines, hrun] at ih ⊢
    simp [ih]

/-- So is one on one line. -/
theorem scanLine_literal (hplain : ∀ c ∈ cs, plain c = true) (hquote : '\x27' ∉ cs)
    (h : cs.length < fuel) (rest : List Char) :
    scanLine '\x27' fuel (cs ++ '\x27' :: rest) = some (cs, rest) := by
  induction cs generalizing fuel with
  | nil => cases fuel with
    | zero => cases h
    | succ fuel => rfl
  | cons c cs ih => cases fuel with
    | zero => cases h
    | succ fuel =>
    obtain ⟨hc, hplain⟩ := List.forall_mem_cons.mp hplain
    obtain ⟨hne, hquote⟩ := not_or.mp fun h => hquote (List.mem_cons.mpr h)
    have ih := ih hplain hquote (Nat.lt_of_succ_lt_succ h)
    simp [scanLine, Ne.symm hne, hc, ih]

/-! ## Strings -/

theorem stands_of_isLiteral (h : isLiteral cs = true) : Stands cs ∧ '\\' ∈ cs := by
  simp only [isLiteral, Bool.and_eq_true, List.contains_iff_mem, bne_iff_ne, decide_eq_true_eq,
    List.all_eq_true, Bool.or_eq_true, beq_iff_eq] at h
  obtain ⟨⟨⟨hslash, hending⟩, hrows⟩, hchars⟩ := h
  exact ⟨⟨hchars, hending, hrows⟩, hslash⟩

/-- Between tripled quotes, a string goes on to the three that close it. -/
theorem scanText_tripled {quote : Char} (hquote : quote = '"' ∨ quote = '\x27')
    (text : List Char) {left : List Char} (hscan : ∀ fuel, cs.length < fuel →
      scanLines quote fuel ((lineEnd? text).getD text) = some (cs, left))
    (hlength : cs.length ≤ ((lineEnd? text).getD text).length) :
    scanText (quote :: quote :: quote :: text) = some (String.ofList cs, left) := by
  have hscan := hscan (((lineEnd? text).getD text).length + 1) (by omega)
  rcases hquote with rfl | rfl <;> simp [scanText, hscan]

theorem length_le_flatMap_writtenChar (overLines : Bool) (cs : List Char) :
    cs.length ≤ (cs.flatMap (writtenChar overLines)).length := by
  induction cs with
  | nil => exact Nat.le_refl 0
  | cons c cs ih =>
    have hone : 1 ≤ (writtenChar overLines c).length := by
      have hwritten := written_writtenChar overLines c
      generalize writtenChar overLines c = written at hwritten
      cases hwritten <;> simp
    rw [List.flatMap_cons, List.length_append, List.length_cons]
    omega

/-- Between single quotes, a string goes on to the one that closes it. Where the string is empty,
a third quote may not follow. -/
theorem scanText_single {quote : Char} (hquote : quote = '"' ∨ quote = '\x27')
    (text : List Char) {left : List Char} (hscan : ∀ fuel, cs.length < fuel →
      scanLine quote fuel text = some (cs, left))
    (hlength : cs.length ≤ text.length) (hsingle : ∀ later, text ≠ quote :: quote :: later) :
    scanText (quote :: text) = some (String.ofList cs, left) := by
  have hscan := hscan (text.length + 1) (by omega)
  have hshort : scanShort (quote :: text) = some (String.ofList cs, left) := by
    rcases hquote with rfl | rfl <;> simp [scanShort, hscan]
  unfold scanText
  split
  case h_1 a b c later heq =>
    obtain ⟨rfl, htext⟩ := List.cons.inj heq
    rw [if_neg]
    · exact hshort
    · intro h
      simp only [Bool.and_eq_true, beq_iff_eq] at h
      obtain ⟨⟨-, rfl⟩, rfl⟩ := h
      exact hsingle later htext
  case h_2 => exact hshort

/-- A basic string on one line does not begin as one over several does. -/
theorem writtenChar_ne_quotes (s : List Char) (rest later : List Char) :
    s.flatMap (writtenChar false) ++ '"' :: '\n' :: rest ≠ '"' :: '"' :: later := by
  cases s with
  | nil => simp
  | cons c s =>
    intro h
    have hwritten := written_writtenChar false c
    rw [List.flatMap_cons, List.append_assoc] at h
    generalize writtenChar false c = written at hwritten h
    cases hwritten with
    | itself isPlain notQuote => exact notQuote (List.cons.inj h).1
    | escaped => exact absurd (List.cons.inj h).1 (by decide)
    | feed isTall => cases isTall

/-- A string is read as it was written, up to the end of its line. -/
theorem scanText_quote (s : String) (rest : List Char) :
    scanText (quote s ++ '\n' :: rest) = some (s, '\n' :: rest) := by
  have hs : String.ofList s.toList = s := String.ofList_toList
  unfold quote
  dsimp only
  split
  case isTrue hliteral =>
    obtain ⟨hstands, hslash⟩ := stands_of_isLiteral hliteral
    split
    case isTrue hover =>
      have hread := scanText_tripled (.inr rfl)
        ('\n' :: s.toList ++ '\x27' :: '\x27' :: '\x27' :: '\n' :: rest)
        (fun fuel h => scanLines_literal hstands.literal h rest) (by simp [lineEnd?])
      simpa [hs] using hread
    case isFalse hover =>
      have hplain : ∀ c ∈ s.toList, plain c = true := by
        intro c hc
        refine (hstands.chars c hc).resolve_left ?_
        rintro rfl
        exact hover (List.contains_iff_mem.mpr hc)
      split
      case isTrue hquote =>
        have hunbroken :
            lineEnd? (s.toList ++ '\x27' :: '\x27' :: '\x27' :: '\n' :: rest) = none := by
          match s.toList, hslash, hplain with
          | c :: cs, _, hplain => exact lineEnd?_plain (hplain c List.mem_cons_self) _
        have hread := scanText_tripled (.inr rfl)
          (s.toList ++ '\x27' :: '\x27' :: '\x27' :: '\n' :: rest)
          (by rw [hunbroken]; exact fun fuel h => scanLines_literal hstands.literal h rest)
          (by simp [hunbroken])
        simpa [hs] using hread
      case isFalse hquote =>
        have hquote : '\x27' ∉ s.toList := fun h => hquote (List.contains_iff_mem.mpr h)
        have hread := scanText_single (.inr rfl) (s.toList ++ '\x27' :: '\n' :: rest)
          (fun fuel h => scanLine_literal hplain hquote h ('\n' :: rest)) (by simp)
          (fun later => by
            match s.toList, hslash, hquote with
            | c :: cs, _, hquote =>
              intro h
              exact hquote (List.mem_cons.mpr (.inl (List.cons.inj h).1.symm)))
        simpa [hs] using hread
  case isFalse hbasic =>
    split
    case isTrue hover =>
      have hread := scanText_tripled (.inl rfl)
        ('\n' :: s.toList.flatMap (writtenChar true) ++ '"' :: '"' :: '"' :: '\n' :: rest)
        (fun fuel h => scanLines_written h rest)
        (by simpa [lineEnd?] using
          Nat.le_add_right_of_le (length_le_flatMap_writtenChar true s.toList))
      simpa [hs] using hread
    case isFalse hover =>
      have hread := scanText_single (.inl rfl)
        (s.toList.flatMap (writtenChar false) ++ '"' :: '\n' :: rest)
        (fun fuel h => scanLine_written h ('\n' :: rest))
        (by simpa using Nat.le_add_right_of_le (length_le_flatMap_writtenChar false s.toList))
        (writtenChar_ne_quotes s.toList rest)
      simpa [hs] using hread

end Workflow.Toml
