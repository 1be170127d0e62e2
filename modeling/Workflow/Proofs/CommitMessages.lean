import Workflow.Shell.Run
import Workflow.Step.CommandLine
import Workflow.Template

/- How a shell reads the message of a commit. The message stands in double quotes with its
   backslashes and double quotes escaped, so the quotes end where they were meant to end, and
   a message in which nothing begins a substitution (`Inert`) is read back as it is, whatever
   else is in it (`readDouble_inert`). A dollar sign or a grave accent is not escaped: where one
   begins a substitution, the shell makes the substitution or cannot read the command
   (`readDouble_settles`). `readings_of_commit` says so of the whole command. -/
namespace Workflow.Shell

/-! ## Escaped texts -/

/-- Whether a character is written behind a backslash. -/
def isEscaped (c : Char) : Bool := c == '\\' || c == '"'

/-- Characters as they are written between double quotes. -/
def escaped (cs : List Char) : List Char :=
  cs.flatMap fun c => if isEscaped c then ['\\', c] else [c]

theorem toList_escapeDoubleQuoted (s : String) :
    (escapeDoubleQuoted s).toList = escaped s.toList := String.toList_ofList

theorem escaped_cons_of_escaped {c : Char} (h : isEscaped c = true) (cs : List Char) :
    escaped (c :: cs) = '\\' :: c :: escaped cs := by
  simp [escaped, h]

theorem escaped_cons_of_plain {c : Char} (h : isEscaped c = false) (cs : List Char) :
    escaped (c :: cs) = c :: escaped cs := by
  simp [escaped, h]

theorem length_le_escaped (cs : List Char) : cs.length ≤ (escaped cs).length := by
  induction cs with
  | nil => exact Nat.le_refl _
  | cons c cs ih =>
    cases hc : isEscaped c with
    | true =>
      rw [escaped_cons_of_escaped hc]
      exact Nat.succ_le_succ (Nat.le_succ_of_le ih)
    | false =>
      rw [escaped_cons_of_plain hc]
      exact Nat.succ_le_succ ih

/-- Whether a character behind a dollar sign begins a substitution. -/
def opensSubstitution (c : Char) : Bool := c == '\x7b' || c == '(' || beginsName c || isSpecialName c

/-- Whether nothing in a text begins a substitution: there is no grave accent, and no dollar sign in
front of what begins one. -/
def Inert (cs : List Char) : Prop :=
  '\x60' ∉ cs ∧ ∀ c, ['$', c] <:+: cs → opensSubstitution c = false

theorem Inert.tail {c : Char} {cs : List Char} (h : Inert (c :: cs)) : Inert cs :=
  ⟨fun hmem => h.1 (List.mem_cons_of_mem _ hmem), fun d hd => h.2 d (List.infix_cons hd)⟩

theorem afterDollar?_eq_none {c : Char} (h : opensSubstitution c = false) (quoted : Bool)
    (rest : List Char) : afterDollar? quoted (c :: rest) = none := by
  simp only [opensSubstitution, Bool.or_eq_false_iff, beq_eq_false_iff_ne] at h
  obtain ⟨⟨⟨hbrace, hparen⟩, hname⟩, hspecial⟩ := h
  unfold afterDollar?
  split <;> simp_all

/-- What stands behind a character of a text as it is written. -/
theorem exists_front (cs rest : List Char) :
    ∃ d tail, escaped cs ++ '"' :: rest = d :: tail ∧
      (opensSubstitution d = true → cs.head? = some d) := by
  cases cs with
  | nil => exact ⟨'"', rest, rfl, by decide⟩
  | cons c cs =>
    cases hc : isEscaped c with
    | true =>
      rw [escaped_cons_of_escaped hc]
      exact ⟨'\\', _, rfl, fun hopens => absurd hopens (by decide)⟩
    | false =>
      rw [escaped_cons_of_plain hc]
      exact ⟨_, _, rfl, fun _ => rfl⟩

/-! ## Reading in double quotes -/

section Reading

variable {c : Char} {cs rest : List Char} {n : Nat}

theorem readDouble_of_escaped (h : isEscaped c = true) (n : Nat) (rest : List Char) :
    readDouble (n + 1) ('\\' :: c :: rest) =
      (readDouble n rest).map fun (ps, r) => (.char c true :: ps, r) := by
  simp only [isEscaped, Bool.or_eq_true, beq_iff_eq] at h
  rcases h with rfl | rfl <;> simp [readDouble, escapable]

theorem readDouble_of_plain (h : escapable c = false) (n : Nat) (rest : List Char) :
    readDouble (n + 1) (c :: rest) =
      (readDouble n rest).map fun (ps, r) => (.char c true :: ps, r) := by
  simp only [escapable, Bool.or_eq_false_iff, beq_eq_false_iff_ne] at h
  obtain ⟨⟨⟨hdollar, haccent⟩, hquote⟩, hslash⟩ := h
  rw [readDouble]
  · exact fun h => hquote h
  · exact fun c rest h => absurd h hslash
  · exact fun h => haccent h
  · exact fun h => hdollar h

theorem readDouble_of_dollar (h : afterDollar? true rest = none) (n : Nat) :
    readDouble (n + 1) ('$' :: rest) =
      (readDouble n rest).map fun (ps, r) => (.char '$' true :: ps, r) := by
  simp [readDouble, h]

theorem readDouble_nil (n : Nat) : readDouble n [] = none := by
  cases n <;> rfl

/-- A dollar sign of an inert text stands for itself. -/
theorem Inert.afterDollar? (h : Inert ('$' :: cs)) (rest : List Char) :
    afterDollar? true (escaped cs ++ '"' :: rest) = none := by
  obtain ⟨d, tail, hfront, hhead⟩ := exists_front cs rest
  rw [hfront]
  refine afterDollar?_eq_none (Bool.eq_false_iff.mpr fun hopens => ?_) true tail
  obtain ⟨more, rfl⟩ := List.head?_eq_some_iff.mp (hhead hopens)
  have hcloses := h.2 d ⟨[], more, rfl⟩
  rw [hopens] at hcloses
  cases hcloses

/-- An inert text is read back as it is. -/
theorem readDouble_inert (h : Inert cs) (rest : List Char) (hn : cs.length < n) :
    readDouble n (escaped cs ++ '"' :: rest) = some (cs.map (.char · true), rest) := by
  induction cs generalizing n with
  | nil =>
    obtain ⟨k, rfl⟩ : ∃ k, n = k + 1 := ⟨n - 1, by omega⟩
    rfl
  | cons c cs ih =>
    obtain ⟨k, rfl⟩ : ∃ k, n = k + 1 := ⟨n - 1, by omega⟩
    have hrest := ih h.tail (Nat.lt_of_succ_lt_succ hn)
    cases hc : isEscaped c with
    | true =>
      rw [escaped_cons_of_escaped hc, List.cons_append, List.cons_append, readDouble_of_escaped hc,
        hrest]
      rfl
    | false =>
      rw [escaped_cons_of_plain hc, List.cons_append]
      by_cases hdollar : c = '$'
      · subst hdollar
        rw [readDouble_of_dollar (h.afterDollar? rest), hrest]
        rfl
      · have haccent : c ≠ '\x60' := fun heq => h.1 (heq ▸ List.mem_cons_self)
        rw [readDouble_of_plain (by simp_all [escapable, isEscaped]), hrest]
        rfl

/-! ## Substitutions -/

theorem bracedPart_literal? (quoted : Bool) (cs : List Char) :
    (bracedPart quoted cs).literal? = none := by
  simp only [bracedPart]
  generalize (if (cs.takeWhile isNameChar).isEmpty then cs.take 1 else cs.takeWhile isNameChar) =
    name
  split
  · rfl
  · split <;> rfl

theorem takeNested_eq {opening closing : Char} {depth : Nat} {inner : List Char}
    (h : takeNested opening closing depth cs = some (inner, rest)) :
    cs = inner ++ closing :: rest := by
  induction cs generalizing depth inner with
  | nil => cases h
  | cons c cs ih =>
    have hlater : ∀ {depth'}, (takeNested opening closing depth' cs).map
        (fun found => (c :: found.1, found.2)) = some (inner, rest) →
        c :: cs = inner ++ closing :: rest := by
      intro depth' hmap
      obtain ⟨⟨inner', rest'⟩, htaken, heq⟩ := Option.map_eq_some_iff.mp hmap
      cases heq
      rw [ih htaken, List.cons_append]
    unfold takeNested at h
    split at h
    · rename_i hclosing
      cases depth with
      | zero =>
        cases h
        rw [eq_of_beq hclosing, List.nil_append]
      | succ depth => exact hlater h
    · exact hlater h

theorem isEscaped_of_class {p : Char → Bool} (hc : p c = true) (hslash : p '\\' = false)
    (hquote : p '"' = false) : isEscaped c = false := by
  simp only [isEscaped, Bool.or_eq_false_iff, beq_eq_false_iff_ne]
  constructor
  · rintro rfl
    rw [hslash] at hc
    cases hc
  · rintro rfl
    rw [hquote] at hc
    cases hc

theorem isNameChar_of_beginsName (h : beginsName c = true) : isNameChar c = true := by
  simp only [beginsName, isNameChar, Char.isAlphanum, Bool.or_eq_true] at h ⊢
  rcases h with h | h
  · exact .inl (.inl h)
  · exact .inr h

/-- What begins behind a dollar sign is no literal, and ends with a character that is not written
behind a backslash, or is never ended. -/
theorem afterDollar?_split {quoted : Bool} {part : Part}
    (h : afterDollar? quoted cs = some (part, rest)) :
    part.literal? = none ∧
      (rest = [] ∨ ∃ front d, cs = front ++ d :: rest ∧ isEscaped d = false) := by
  unfold afterDollar? at h
  split at h
  · -- in braces
    split at h
    · rename_i inner rest' htaken
      cases h
      exact ⟨bracedPart_literal? quoted inner,
        .inr ⟨_ :: inner, '\x7d', by rw [takeNested_eq htaken]; rfl, by decide⟩⟩
    · cases h
      exact ⟨rfl, .inl rfl⟩
  · -- in parentheses
    split at h
    · rename_i inner rest' htaken
      cases h
      exact ⟨rfl, .inr ⟨_ :: inner, ')', by rw [takeNested_eq htaken]; rfl, by decide⟩⟩
    · cases h
      exact ⟨rfl, .inl rfl⟩
  · rename_i c later hbrace hparen
    split at h
    · rename_i hname
      cases h
      obtain ⟨front, d, hlast⟩ :=
        (List.eq_nil_or_concat (c :: later.takeWhile isNameChar)).resolve_left (by simp)
      have hd : isNameChar d = true := by
        have hmem : d ∈ c :: later.takeWhile isNameChar := by simp [hlast]
        rcases List.mem_cons.mp hmem with rfl | hmem
        · exact isNameChar_of_beginsName hname
        · exact List.all_eq_true.mp List.all_takeWhile d hmem
      refine ⟨rfl, .inr ⟨front, d, ?_, isEscaped_of_class hd (by decide) (by decide)⟩⟩
      have hsplit : c :: later =
          (c :: later.takeWhile isNameChar) ++ later.dropWhile isNameChar := by
        rw [List.cons_append, List.takeWhile_append_dropWhile]
      rw [hsplit, hlast, List.concat_eq_append, List.append_assoc]
      rfl
    · split at h
      · rename_i hspecial
        cases h
        exact ⟨rfl, .inr ⟨[], c, rfl, isEscaped_of_class hspecial (by decide) (by decide)⟩⟩
      · cases h
  · cases h

/-- Behind a character that is not written behind a backslash, a text as it is written goes on as
one. -/
theorem escaped_suffix {front : List Char} {d : Char} (hd : isEscaped d = false)
    (h : escaped cs ++ ['"'] = front ++ d :: rest) :
    ∃ cs', rest = escaped cs' ++ ['"'] ∧ cs'.length < cs.length := by
  induction cs generalizing front with
  | nil =>
    rcases front with _ | ⟨c, front⟩
    · cases h
      cases hd
    · have := congrArg List.length h
      simp [escaped] at this
  | cons c cs ih =>
    have hlater : ∀ {front'}, escaped cs ++ ['"'] = front' ++ d :: rest →
        ∃ cs', rest = escaped cs' ++ ['"'] ∧ cs'.length < (c :: cs).length := by
      intro front' hfront
      obtain ⟨cs', hrest, hlength⟩ := ih hfront
      exact ⟨cs', hrest, Nat.lt_succ_of_lt hlength⟩
    cases hc : isEscaped c with
    | true =>
      rw [escaped_cons_of_escaped hc] at h
      match front, h with
      | [], h => cases h; cases hd
      | [_], h =>
        cases h
        rw [hc] at hd
        cases hd
      | _ :: _ :: front, h => exact hlater (List.cons.inj (List.cons.inj h).2).2
    | false =>
      rw [escaped_cons_of_plain hc] at h
      match front, h with
      | [], h =>
        cases h
        exact ⟨cs, rfl, Nat.lt_succ_self _⟩
      | _ :: front, h => exact hlater (List.cons.inj h).2

theorem inert_nil : Inert [] := by
  refine ⟨List.not_mem_nil, fun c hinfix => ?_⟩
  simp at hinfix

theorem Inert.cons (h : Inert cs) (haccent : c ≠ '\x60')
    (hdollar : c = '$' → ∀ d, cs.head? = some d → opensSubstitution d = false) :
    Inert (c :: cs) := by
  refine ⟨fun hmem => ?_, fun d hinfix => ?_⟩
  · rcases List.mem_cons.mp hmem with heq | hmem
    · exact haccent heq.symm
    · exact h.1 hmem
  · rcases List.infix_cons_iff.mp hinfix with hprefix | hinfix
    · obtain ⟨more, hmore⟩ := hprefix
      cases hmore
      exact hdollar rfl d rfl
    · exact h.2 d hinfix

/-- A dollar sign that stands for itself has nothing behind it that begins a substitution. -/
theorem closes_of_afterDollar? {quoted : Bool} {d : Char}
    (h : afterDollar? quoted (escaped cs ++ ['"']) = none) (hhead : cs.head? = some d) :
    opensSubstitution d = false := by
  obtain ⟨more, rfl⟩ := List.head?_eq_some_iff.mp hhead
  cases hd : isEscaped d with
  | true =>
    simp only [isEscaped, Bool.or_eq_true, beq_iff_eq] at hd
    rcases hd with rfl | rfl <;> rfl
  | false =>
    rw [escaped_cons_of_plain hd, List.cons_append] at h
    unfold afterDollar? at h
    split at h
    · split at h <;> cases h
    · split at h <;> cases h
    · rename_i heq
      cases heq
      split at h
      · cases h
      · split at h
        · cases h
        · simp_all [opensSubstitution]
    · rename_i heq
      cases heq

/-- Whether reading a text failed or ended with the text, having made a substitution unless the text
is inert. -/
def Settles (cs : List Char) (result : Option (Word × Rest)) : Prop :=
  result = none ∨
    ∃ parts, result = some (parts, []) ∧ (Inert cs ∨ ∃ p ∈ parts, p.literal? = none)

theorem Settles.literal {result : Option (Word × Rest)} (h : Settles cs result) (d : Char)
    (hinert : Inert cs → Inert (c :: cs)) :
    Settles (c :: cs) (result.map fun (ps, r) => (.char d true :: ps, r)) := by
  rcases h with rfl | ⟨parts, rfl, hparts⟩
  · exact .inl rfl
  · refine .inr ⟨_, rfl, hparts.imp hinert ?_⟩
    rintro ⟨p, hp, hnone⟩
    exact ⟨p, List.mem_cons_of_mem _ hp, hnone⟩

theorem Settles.substitution {result : Option (Word × Rest)} {cs' : List Char} {part : Part}
    (h : Settles cs' result) (hpart : part.literal? = none) (cs : List Char) :
    Settles cs (result.map fun (ps, r) => (part :: ps, r)) := by
  rcases h with rfl | ⟨parts, rfl, -⟩
  · exact .inl rfl
  · exact .inr ⟨_, rfl, .inr ⟨part, List.mem_cons_self, hpart⟩⟩

/-- The quotes end where the text ends, if they end at all, and a text that is not inert is not read
without a substitution. -/
theorem readDouble_settles (hn : cs.length < n) : Settles cs (readDouble n (escaped cs ++ ['"'])) := by
  -- on the length of the text, since a substitution takes several characters at once
  induction hlength : cs.length using Nat.strongRecOn generalizing cs n with
  | ind length ih =>
    obtain ⟨k, rfl⟩ : ∃ k, n = k + 1 := ⟨n - 1, by omega⟩
    cases cs with
    | nil => exact .inr ⟨[], rfl, .inl inert_nil⟩
    | cons c cs =>
      have hlater : ∀ {cs' : List Char}, cs'.length ≤ cs.length →
          Settles cs' (readDouble k (escaped cs' ++ ['"'])) := by
        intro cs' hle
        simp only [List.length_cons] at hn hlength
        exact ih cs'.length (by omega) (by omega) rfl
      cases hc : isEscaped c with
      | true =>
        rw [escaped_cons_of_escaped hc, List.cons_append, List.cons_append,
          readDouble_of_escaped hc]
        refine (hlater (Nat.le_refl _)).literal c fun hinert => hinert.cons ?_ ?_
        · rintro rfl
          cases hc
        · rintro rfl
          cases hc
      | false =>
        rw [escaped_cons_of_plain hc, List.cons_append]
        -- what stands behind a substitution is shorter, and is again a text as it is written
        have hbehind : ∀ {front : List Char} {d : Char} {rest : List Char} {part : Part},
            isEscaped d = false → escaped cs ++ ['"'] = front ++ d :: rest → part.literal? = none →
            Settles (c :: cs) ((readDouble k rest).map fun (ps, r) => (part :: ps, r)) := by
          intro front d rest part hd hfront hpart
          obtain ⟨cs', rfl, hlt⟩ := escaped_suffix hd hfront
          exact (hlater (Nat.le_of_lt hlt)).substitution hpart _
        by_cases haccent : c = '\x60'
        · subst haccent
          rw [readDouble]
          split
          · rename_i inner rest hcut
            exact hbehind hc (Template.cut_eq hcut) rfl
          · exact .inl rfl
        by_cases hdollar : c = '$'
        · subst hdollar
          cases hafter : afterDollar? true (escaped cs ++ ['"']) with
          | none =>
            rw [readDouble_of_dollar hafter]
            exact (hlater (Nat.le_refl _)).literal '$' fun hinert =>
              hinert.cons (by decide) fun _ d hhead => closes_of_afterDollar? hafter hhead
          | some found =>
            obtain ⟨part, rest⟩ := found
            rw [readDouble]
            simp only [hafter]
            obtain ⟨hpart, rfl | ⟨front, d, hfront, hd⟩⟩ := afterDollar?_split hafter
            · rw [readDouble_nil]
              exact .inl rfl
            · exact hbehind hd hfront hpart
        · rw [readDouble_of_plain (by simp_all [escapable, isEscaped])]
          exact (hlater (Nat.le_refl _)).literal c fun hinert =>
            hinert.cons haccent fun heq => absurd heq hdollar

end Reading

/-! ## Words -/

/-- The characters that mean something outside quotes, apart from those that end a word. -/
def marks : List Char := "\x27\"\\\x60$*?#".toList

/-- Whether a character stands for itself outside quotes. -/
def isPlain (c : Char) : Bool := !endsWord c && !marks.contains c

/-- Whether a text is a word in which every character stands for itself. -/
def IsPlainText (text : String) : Prop := text.toList ≠ [] ∧ text.toList.all isPlain = true

instance (text : String) : Decidable (IsPlainText text) :=
  inferInstanceAs (Decidable (_ ∧ _))

/-- The word of a text that is not quoted. -/
def plainWord (text : String) : Word := text.toList.map (.char · false)

/-- The word of a text in double quotes. -/
def quotedWord (text : String) : Word := .quote :: text.toList.map (.char · true)

theorem literal?_quotedWord (text : String) : literal? (quotedWord text) = some text := by
  have hchars : ∀ cs : List Char,
      (cs.map (Part.char · true)).mapM Part.literal? = some (cs.map ([·])) := by
    intro cs
    induction cs with
    | nil => rfl
    | cons c cs ih =>
      rw [List.map_cons, List.mapM_cons, ih]
      rfl
  have hall : (quotedWord text).mapM Part.literal? = some ([] :: text.toList.map ([·])) := by
    rw [quotedWord, List.mapM_cons, hchars]
    rfl
  rw [literal?, hall, Option.map_some, List.flatten_cons, List.nil_append, ← List.flatMap_def,
    List.flatMap_singleton', String.ofList_toList]

section Words

variable {c : Char} {cs rest : List Char} {n : Nat}

theorem isPlain_iff : isPlain c = true ↔ endsWord c = false ∧ c ∉ marks := by
  simp [isPlain]

theorem readWord_of_plain (h : isPlain c = true) (n : Nat) (rest : List Char) :
    readWord (n + 1) (c :: rest) =
      (readWord n rest).map fun (ps, r) => (.char c false :: ps, r) := by
  obtain ⟨hends, hmem⟩ := isPlain_iff.mp h
  have hne : ∀ d ∈ marks, c ≠ d := fun d hd heq => hmem (heq ▸ hd)
  rw [readWord, hends]
  · rfl
  · exact hne _ (by decide)
  · exact hne _ (by decide)
  · exact fun d rest heq => absurd heq (hne _ (by decide))
  · exact hne _ (by decide)
  · exact hne _ (by decide)

/-- A word ends at a blank. -/
theorem readWord_plain (h : ∀ c ∈ cs, isPlain c = true) (rest : List Char) (hn : cs.length < n) :
    readWord n (cs ++ ' ' :: rest) = some (cs.map (.char · false), ' ' :: rest) := by
  induction cs generalizing n with
  | nil =>
    obtain ⟨k, rfl⟩ : ∃ k, n = k + 1 := ⟨n - 1, by omega⟩
    rfl
  | cons c cs ih =>
    obtain ⟨k, rfl⟩ : ∃ k, n = k + 1 := ⟨n - 1, by omega⟩
    obtain ⟨hc, hcs⟩ := List.forall_mem_cons.mp h
    rw [List.cons_append, readWord_of_plain hc, ih hcs (Nat.lt_of_succ_lt_succ hn)]
    rfl

theorem streamAt?_of_plain (h : ∀ c ∈ cs, isPlain c = true) (rest : List Char) :
    streamAt? (cs ++ ' ' :: rest) = none := by
  match cs, h with
  | [], _ => cases rest <;> rfl
  | [c], _ =>
    show (if c.isDigit && false then _ else none) = none
    simp
  | c :: d :: cs, h =>
    have hd : endsWord d = false := (isPlain_iff.mp (h d (by simp))).1
    have hless : d ≠ '<' := by
      rintro rfl
      cases hd
    have hgreater : d ≠ '>' := by
      rintro rfl
      cases hd
    simp [streamAt?, hless, hgreater]

theorem tokensWithin_plain {text : String} (h : IsPlainText text) (n : Nat) (rest : List Char) :
    tokensWithin (n + 2) (text.toList ++ ' ' :: rest) =
      (tokensWithin n rest).map (.word (plainWord text) :: ·) := by
  obtain ⟨hne, hall⟩ := h
  have hplain := List.all_eq_true.mp hall
  unfold plainWord
  cases hcs : text.toList with
  | nil => exact absurd hcs hne
  | cons c cs =>
    rw [hcs] at hplain
    have hstream := streamAt?_of_plain hplain rest
    have hword := readWord_plain hplain rest (n := (cs ++ ' ' :: rest).length + 2)
      (by rw [List.length_append, List.length_cons, List.length_cons]; omega)
    obtain ⟨hends, hmem⟩ := isPlain_iff.mp (hplain c List.mem_cons_self)
    have hcomment : c ≠ '#' := by
      rintro rfl
      exact hmem (by decide)
    have hblank : c ≠ ' ' ∧ c ≠ '\t' := by
      constructor <;> (rintro rfl; cases hends)
    rw [List.cons_append] at hstream hword ⊢
    rw [tokensWithin]
    simp only [hstream, hword, hends, hcomment, hblank.1, hblank.2, beq_iff_eq, Bool.or_eq_true,
      or_self, if_false, Option.bind_some, Bool.false_eq_true]
    rw [tokensWithin]
    simp

/-- Plain words are the tokens that a text with a blank behind each of them begins with. -/
theorem tokensWithin_words {words : List String} (h : ∀ w ∈ words, IsPlainText w) (n : Nat)
    (rest : List Char) :
    tokensWithin (n + 2 * words.length) (words.flatMap (·.toList ++ [' ']) ++ rest) =
      (tokensWithin n rest).map (words.map (Token.word ∘ plainWord) ++ ·) := by
  induction words with
  | nil => simp
  | cons w words ih =>
    obtain ⟨hw, hwords⟩ := List.forall_mem_cons.mp h
    have hlater := ih hwords
    rw [List.flatMap_cons, List.append_assoc, List.append_assoc, List.singleton_append,
      List.length_cons, Nat.mul_succ, ← Nat.add_assoc, tokensWithin_plain hw, hlater,
      Option.map_map]
    rfl

/-- A text in double quotes that closes them at its end is one word. -/
theorem tokensWithin_quoted
    (hrest : ∀ found, readDouble (cs.length + 1) cs = some found → found.2 = []) (n : Nat) :
    tokensWithin (n + 1) ('"' :: cs) =
      (readDouble (cs.length + 1) cs).map fun found => [.word (.quote :: found.1)] := by
  have hstream : streamAt? ('"' :: cs) = none := by cases cs <;> rfl
  have hends : endsWord '"' = false := by decide
  rw [tokensWithin]
  cases hread : readDouble (cs.length + 1) cs with
  | none => simp [hstream, hends, readWord, hread]
  | some found =>
    obtain ⟨parts, rest⟩ := found
    obtain rfl : rest = [] := hrest _ hread
    simp [hstream, hends, readWord, hread]
    cases n <;> rfl

theorem readCommand_words (words : List Word) :
    readCommand (words.map .word) = some ({ words }, []) := by
  induction words with
  | nil => rfl
  | cons w words ih =>
    rw [List.map_cons, readCommand, ih]
    rfl

theorem readScript_words {words : List Word} (hne : words ≠ []) (n : Nat) :
    readScript (n + 1) .always [] (words.map .word) = some [(.always, [{ words }])] := by
  rw [readScript, readCommand_words]
  simp [Command.isEmpty, hne]

/-- Each word takes two characters at least. -/
theorem two_mul_length_le {words : List String} (h : ∀ w ∈ words, IsPlainText w) :
    2 * words.length ≤ (words.flatMap (·.toList ++ [' '])).length := by
  induction words with
  | nil => exact Nat.zero_le _
  | cons w words ih =>
    obtain ⟨hw, hwords⟩ := List.forall_mem_cons.mp h
    have hlater := ih hwords
    have hpos := List.length_pos_iff.mpr hw.1
    simp only [List.flatMap_cons, List.length_append, List.length_cons, List.length_nil]
    omega

/-- A line of plain words and a text in double quotes that closes them is one command, whose last
word is what is read of the text. -/
theorem parse?_of_quoted {words : List String} (h : ∀ w ∈ words, IsPlainText w) {line : String}
    (hline : line.toList = words.flatMap (·.toList ++ [' ']) ++ '"' :: cs)
    (hrest : ∀ found, readDouble (cs.length + 1) cs = some found → found.2 = []) :
    Script.parse? line = (readDouble (cs.length + 1) cs).map fun found =>
      [(.always, [{ words := words.map plainWord ++ [.quote :: found.1] }])] := by
  obtain ⟨n, hn⟩ : ∃ n, line.toList.length + 1 = n + 1 + 2 * words.length := by
    have hlength := two_mul_length_le h
    rw [hline, List.length_append, List.length_cons]
    exact ⟨(words.flatMap (·.toList ++ [' '])).length + (cs.length + 1) - 2 * words.length,
      by omega⟩
  have htokens : tokensWithin (line.toList.length + 1) line.toList =
      (readDouble (cs.length + 1) cs).map fun found =>
        (words.map plainWord ++ [.quote :: found.1]).map Token.word := by
    rw [hn, hline, tokensWithin_words h, tokensWithin_quoted hrest, Option.map_map]
    simp [Function.comp_def]
  simp only [Script.parse?, htokens]
  cases readDouble (cs.length + 1) cs with
  | none => rfl
  | some found => exact readScript_words (by simp) _

end Words

/-! ## Expansion -/

section Expansion

variable (sub : Substitute) (s : Session)

theorem fieldsFrom_chars (fields : List (List Mark)) (field : List Mark) (cs : List Char)
    (quoted : Bool) :
    fieldsFrom sub s (fields, some field) (cs.map (.char · quoted)) =
      some (fields ++ [field ++ cs.map (·, quoted)]) := by
  induction cs generalizing field with
  | nil => simp [fieldsFrom]
  | cons c cs ih =>
    have hlater := ih (field ++ [(c, quoted)])
    simpa [fieldsFrom, expandPart, addMarks, Part.splits] using hlater

theorem fieldsFrom_quotedWord (text : String) :
    fieldsFrom sub s ([], none) (quotedWord text) = some [text.toList.map (·, true)] := by
  simpa [quotedWord, fieldsFrom, expandPart] using fieldsFrom_chars sub s [] [] text.toList true

theorem fieldsFrom_plainWord {text : String} (h : text.toList ≠ []) :
    fieldsFrom sub s ([], none) (plainWord text) = some [text.toList.map (·, false)] := by
  unfold plainWord
  cases hcs : text.toList with
  | nil => exact absurd hcs h
  | cons c cs =>
    simpa [fieldsFrom, expandPart, addMarks, Part.splits] using
      fieldsFrom_chars sub s [] [(c, false)] cs false

/-- A field is no pattern when it is quoted or has no character of one. -/
theorem namesOf_of_not_pattern {text : String} {quoted : Bool}
    (h : quoted = true ∨ ∀ c ∈ text.toList, isPlain c = true) :
    namesOf s (text.toList.map (·, quoted)) = [text] := by
  have hpattern : (text.toList.map fun c => (c, quoted)).any
      (fun m => !m.2 && (m.1 == '*' || m.1 == '?')) = false := by
    rw [List.any_map, List.any_eq_false]
    intro c hc
    rcases h with rfl | hplain
    · simp
    · have hmem := (isPlain_iff.mp (hplain c hc)).2
      have hstar : c ≠ '*' := by
        rintro rfl
        exact hmem (by decide)
      have hmark : c ≠ '?' := by
        rintro rfl
        exact hmem (by decide)
      simp [hstar, hmark]
  unfold namesOf
  rw [hpattern]
  simp [Function.comp_def]

theorem expand_cons {w : Word} {fields : List (List Mark)}
    (h : fieldsFrom sub s ([], none) w = some fields) (ws : List Word) :
    expand sub s (w :: ws) = (expand sub s ws).map (fields.flatMap (namesOf s) ++ ·) := by
  simp only [expand, List.mapM_cons, h, Option.map_some, Option.bind_eq_bind, Option.bind_some]
  cases ws.mapM fun w => (fieldsFrom sub s ([], none) w).map (·.flatMap (namesOf s)) <;> rfl

/-- Plain words and a text in double quotes are expanded to themselves. -/
theorem expand_words {words : List String} (h : ∀ w ∈ words, IsPlainText w) (text : String) :
    expand sub s (words.map plainWord ++ [quotedWord text]) = some (words ++ [text]) := by
  induction words with
  | nil =>
    rw [List.map_nil, List.nil_append, expand_cons sub s (fieldsFrom_quotedWord sub s text)]
    simp [namesOf_of_not_pattern, expand]
  | cons w words ih =>
    obtain ⟨hw, hwords⟩ := List.forall_mem_cons.mp h
    rw [List.map_cons, List.cons_append, expand_cons sub s (fieldsFrom_plainWord sub s hw.1),
      ih hwords]
    simp [namesOf_of_not_pattern s (.inr (List.all_eq_true.mp hw.2))]

end Expansion

/-! ## The command of a commit -/

/-- The words in front of the message of a commit. -/
def commitFront (amend : Bool) : List String :=
  ["git", "commit"] ++ (if amend then ["--amend"] else []) ++ ["-m"]

theorem isPlainText_of_commitFront (amend : Bool) : ∀ w ∈ commitFront amend, IsPlainText w := by
  cases amend <;> decide

theorem toList_commandLine_commit (message : String) (amend : Bool) :
    (GitCommand.commit message amend).commandLine.toList =
      (commitFront amend).flatMap (·.toList ++ [' ']) ++
        '"' :: (escaped message.toList ++ ['"']) := by
  have hfront : ("git commit " ++ (if amend then "--amend " else "") ++ "-m \"").toList =
      (commitFront amend).flatMap (·.toList ++ [' ']) ++ ['"'] := by
    cases amend <;> decide
  unfold GitCommand.commandLine
  rw [String.toList_append, String.toList_append, hfront, toList_escapeDoubleQuoted,
    List.append_assoc, List.append_assoc, List.singleton_append]
  rfl

theorem commandLine_commit (message : String) (amend : Bool) :
    (GitCommand.commit message amend).commandLine =
      " ".intercalate (commitFront amend ++ ["\"" ++ escapeDoubleQuoted message ++ "\""]) := by
  apply String.ext
  rw [toList_commandLine_commit]
  cases amend <;> simp [commitFront, toList_escapeDoubleQuoted]

/-- **What a shell makes of a commit.** The command of a commit is a line of plain words with the
message in double quotes behind them. If nothing in the message begins a substitution, the
shell reads one command with the message as its last word, whatever else is in it, and expands it
to the message, whatever it knows and whatever a substitution would do. If something does, the
shell cannot read the line, or makes a substitution in the last word. -/
theorem readings_of_commit (message : String) (amend : Bool) :
    (GitCommand.commit message amend).commandLine =
      " ".intercalate (commitFront amend ++ ["\"" ++ escapeDoubleQuoted message ++ "\""]) ∧
    (Inert message.toList →
      Script.parse? (GitCommand.commit message amend).commandLine =
        some [(.always,
          [{ words := (commitFront amend).map plainWord ++ [quotedWord message] }])] ∧
      literal? (quotedWord message) = some message ∧
      ∀ sub s, expand sub s ((commitFront amend).map plainWord ++ [quotedWord message]) =
        some (commitFront amend ++ [message])) ∧
    (¬ Inert message.toList →
      Script.parse? (GitCommand.commit message amend).commandLine = none ∨
      ∃ inner, Script.parse? (GitCommand.commit message amend).commandLine =
          some [(.always,
            [{ words := (commitFront amend).map plainWord ++ [.quote :: inner] }])] ∧
        ∃ p ∈ inner, p.literal? = none) := by
  have hplain := isPlainText_of_commitFront amend
  have hline := toList_commandLine_commit message amend
  have hlength : message.toList.length < (escaped message.toList ++ ['"']).length + 1 := by
    have hle := length_le_escaped message.toList
    rw [List.length_append]
    omega
  refine ⟨commandLine_commit message amend, fun hinert => ⟨?_, ?_, fun sub s => ?_⟩,
    fun hactive => ?_⟩
  · have hread := readDouble_inert hinert [] hlength
    rw [parse?_of_quoted hplain hline (by rw [hread]; rintro found ⟨⟩; rfl), hread]
    rfl
  · exact literal?_quotedWord message
  · exact expand_words sub s hplain message
  · rcases readDouble_settles hlength with hnone | ⟨inner, hread, hinner⟩
    · left
      rw [parse?_of_quoted hplain hline (by rw [hnone]; rintro found ⟨⟩), hnone]
      rfl
    · right
      refine ⟨inner, ?_, hinner.resolve_left hactive⟩
      rw [parse?_of_quoted hplain hline (by rw [hread]; rintro found ⟨⟩; rfl), hread]
      rfl

/-- Double quotes and a backslash in front of the closing quote survive. -/
example : Script.parse? (GitCommand.commit "say \"hi\" \\" true).commandLine =
    some [(.always,
      [{ words := (commitFront true).map plainWord ++ [quotedWord "say \"hi\" \\"] }])] := by
  decide +kernel

/-- A commit that has its shell run a command. -/
def commitOfSubstitution : Intent :=
  { name := "git.commit", payload := .obj [("message", .str "fix $(pwd)")] }

/-- The message of a commit that a run accepts is not what its shell hands to git. -/
theorem commit_runs_substitution :
    StepKind.parse commitOfSubstitution = .ok (.git (.commit "fix $(pwd)" false)) ∧
    (¬ ∃ word, Script.parse? (GitCommand.commit "fix $(pwd)" false).commandLine =
        some [(.always, [{ words := (commitFront false).map plainWord ++ [word] }])] ∧
      literal? word = some "fix $(pwd)") ∧
    ∃ words, Script.parse? (GitCommand.commit "fix $(pwd)" false).commandLine =
        some [(.always, [{ words }])] ∧
      expand (fun s text => runText 1 { s with out := [] } text)
          { tree := { entries := [], here := ["srv"] } } words =
        some ["git", "commit", "-m", "fix /srv"] := by
  have hread : Script.parse? (GitCommand.commit "fix $(pwd)" false).commandLine =
      some [(.always, [{ words := (commitFront false).map plainWord ++
        [.quote :: "fix ".toList.map (.char · true) ++ [.command "pwd" true]] }])] := by
    decide +kernel
  refine ⟨rfl, ?_, _, hread, by decide +kernel⟩
  rintro ⟨word, hparse, hliteral⟩
  rw [hread] at hparse
  obtain rfl : .quote :: "fix ".toList.map (.char · true) ++ [.command "pwd" true] = word := by
    simpa using hparse
  cases hliteral

end Workflow.Shell
