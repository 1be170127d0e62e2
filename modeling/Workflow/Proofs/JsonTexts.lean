import Mathlib.Data.List.Forall2
import Workflow.Json.Writer
import Workflow.Proofs.DecimalDigits
import Workflow.Proofs.JsonRecords

/- Compact texts of values are read as the values that they were written for (`parse?_render`).
   A text is written for tokens when it is cut into these, whatever stands behind it that ends a
   number (`Writes`); the tokens of a value (`written`) lead to its tree, and its tree to the
   value. Doubles are left out: the integers of 64 bits are the numbers whose text says all. -/
namespace Workflow.Json

/-! ## Strings -/

theorem scanString_letter {e c : Char} (hletter : e ≠ 'u') (he : unescape? e = some c)
    (rest : List Char) :
    scanString ('\\' :: e :: rest) =
      (scanString rest).map fun (ps, rest) => (.char c :: ps, rest) := by
  rw [scanString, he, Option.map_eq_bind]
  · rfl
  · exact fun _ _ _ _ _ hu _ => hletter hu

theorem scanString_plain {c : Char} (hquote : c ≠ '"') (hslash : c ≠ '\\') (hlow : 32 ≤ c.toNat)
    (rest : List Char) :
    scanString (c :: rest) = (scanString rest).map fun (ps, rest) => (.char c :: ps, rest) := by
  rw [scanString.eq_def]
  split
  case h_5 d later heq =>
    obtain ⟨rfl, rfl⟩ := List.cons.inj heq
    rw [if_neg]
    simp [hslash]
    omega
  all_goals simp_all

theorem hexValue?_hexDigit : ∀ n < 16, hexValue? (hexDigit n) = some n := by decide

theorem scanString_code {n : Nat} (h : n < 256) (rest : List Char) :
    scanString ('\\' :: 'u' :: '0' :: '0' :: hexDigit (n / 16) :: hexDigit (n % 16) :: rest) =
      (scanString rest).map fun (ps, rest) => (.unit n :: ps, rest) := by
  have hzero : hexValue? '0' = some 0 := by decide
  rw [scanString, hzero, hexValue?_hexDigit (n / 16) (by omega),
    hexValue?_hexDigit (n % 16) (by omega), Option.map_eq_bind]
  have hback : ((0 * 16 + 0) * 16 + n / 16) * 16 + n % 16 = n := by omega
  simp only [Option.bind_eq_bind, Option.bind_some, hback]
  rfl

/-- An escaped character is read as one piece, and that is its text. -/
theorem scanString_escape (c : Char) :
    ∃ p, (∀ rest, scanString (escape c ++ rest) =
        (scanString rest).map fun (ps, rest) => (p :: ps, rest)) ∧
      ∀ ps, textOf? (p :: ps) = (textOf? ps).map (c :: ·) := by
  unfold escape
  split
  case h_1 | h_2 | h_3 | h_4 | h_5 =>
    exact ⟨.char _, fun rest => scanString_letter (by decide) rfl rest, fun _ => rfl⟩
  case h_6 hquote hslash hfeed hreturn htab =>
  split
  case isTrue hback =>
    obtain rfl : c = Char.ofNat 8 := by rw [← hback, Char.ofNat_toNat]
    exact ⟨.char _, fun rest => scanString_letter (by decide) rfl rest, fun _ => rfl⟩
  case isFalse hback =>
  split
  case isTrue hform =>
    obtain rfl : c = Char.ofNat 12 := by rw [← hform, Char.ofNat_toNat]
    exact ⟨.char _, fun rest => scanString_letter (by decide) rfl rest, fun _ => rfl⟩
  case isFalse hform =>
  split
  case isTrue hlow =>
    refine ⟨.unit c.toNat, fun rest => scanString_code (by omega) rest, fun ps => ?_⟩
    -- a code unit this low is no half of a surrogate pair
    rw [textOf?.eq_def]
    dsimp only
    rw [if_neg (by simp; omega), if_neg (by simp; omega), Char.ofNat_toNat]
  case isFalse hlow =>
    exact ⟨.char c, fun rest => scanString_plain hquote hslash (by omega) rest, fun _ => rfl⟩

theorem scanString_escaped (cs rest : List Char) :
    ∃ ps, scanString (cs.flatMap escape ++ '"' :: rest) = some (ps, rest) ∧
      textOf? ps = some cs := by
  induction cs with
  | nil => exact ⟨[], rfl, rfl⟩
  | cons c cs ih =>
    obtain ⟨ps, hscan, htext⟩ := ih
    obtain ⟨p, hp, hfirst⟩ := scanString_escape c
    refine ⟨p :: ps, ?_, ?_⟩
    · rw [List.flatMap_cons, List.append_assoc, hp, hscan]
      rfl
    · rw [hfirst, htext]
      rfl

/-! ## Numbers -/

/-- Whether a text ends what stands in front of it: it is empty or goes on with a mark that may
stand behind a value. -/
def Ends (rest : List Char) : Prop :=
  ∀ c ∈ rest.head?, c = ',' ∨ c = ':' ∨ c = ']' ∨ c = '\x7d'

theorem scanNumeral_digits (negative : Bool) (n : Nat) {rest : List Char} (h : Ends rest) :
    scanNumeral negative (Number.digits n ++ rest) =
      some (⟨negative, Number.digits n, [], none⟩, rest) := by
  have hdigits : ∀ c ∈ Number.digits n, c.isDigit = true := fun c => Number.isDigit_of_mem_digits
  have hne := Number.digits_ne_nil n
  have hlead : ((Number.digits n).length != 1 && (Number.digits n).head? == some '0') = false := by
    cases n with
    | zero => rfl
    | succ n => simp [Number.head?_digits (Nat.succ_pos n)]
  have htaken : takeDigits (Number.digits n ++ rest) = (Number.digits n, rest) := by
    unfold takeDigits
    rw [List.takeWhile_append_of_pos hdigits, List.dropWhile_append_of_pos hdigits]
    cases rest with
    | nil => simp
    | cons c rest =>
      have hc : c.isDigit = false := by
        rcases h c rfl with rfl | rfl | rfl | rfl <;> rfl
      simp [hc]
  have hfraction : scanFraction rest = some ([], rest) := by
    cases rest with
    | nil => rfl
    | cons c rest => rcases h c rfl with rfl | rfl | rfl | rfl <;> rfl
  have hexponent : scanExponent rest = some (none, rest) := by
    cases rest with
    | nil => rfl
    | cons c rest => rcases h c rfl with rfl | rfl | rfl | rfl <;> rfl
  simp [scanNumeral, htaken, hne, hlead, hfraction, hexponent]

theorem le_natOfDigits (s : Nat) (ds : List Char) :
    s ≤ ds.foldl (fun n d => n * 10 + digitValue d) s := by
  induction ds generalizing s with
  | nil => exact Nat.le_refl s
  | cons d ds ih =>
    refine Nat.le_trans ?_ (ih (s * 10 + digitValue d))
    omega

/-- Digits of a number of 64 bits are all taken. -/
theorem extend_of_lt {ds : List Char} {s : Nat}
    (h : ds.foldl (fun n d => n * 10 + digitValue d) s < 0x10000000000000000) :
    extend s ds = (ds.foldl (fun n d => n * 10 + digitValue d) s, []) := by
  induction ds generalizing s with
  | nil => rfl
  | cons d ds ih =>
    have hnext := Nat.lt_of_le_of_lt (le_natOfDigits (s * 10 + digitValue d) ds) h
    rw [extend, if_pos hnext, ih h, List.foldl_cons]

theorem extend_digits {n : Nat} (h : n < 0x10000000000000000) :
    extend 0 (Number.digits n) = (n, []) := by
  have hvalue : (Number.digits n).foldl (fun n d => n * 10 + digitValue d) 0 = n :=
    Number.natOfDigits_digits n
  rw [extend_of_lt (by rwa [hvalue]), hvalue]

/-- Whether a number is an integer of 64 bits. -/
def Number.IsWhole : Number → Prop
  | .int z => -0x8000000000000000 ≤ z ∧ z < 0x10000000000000000
  | .real _ => False

theorem value?_of_digits {z : Int} (h : (Number.int z).IsWhole) :
    Numeral.value? ⟨decide (z < 0), Number.digits z.natAbs, [], none⟩ = some (.int z) := by
  obtain ⟨hlow, hhigh⟩ := h
  have hextend := extend_digits (show z.natAbs < 0x10000000000000000 by omega)
  unfold Numeral.value?
  simp only [hextend, List.isEmpty_nil, Option.isNone_none, Bool.and_self, ↓reduceIte]
  by_cases hneg : z < 0
  · have hsmall : (z.natAbs != 0 && decide (z.natAbs ≤ 0x8000000000000000)) = true := by
      simp
      omega
    have hback : -(z.natAbs : Int) = z := by omega
    simp only [hneg, hsmall, hback, decide_true, Bool.not_true, Bool.false_eq_true, ↓reduceIte]
  · have hback : (z.natAbs : Int) = z := by omega
    simp only [hneg, hback, decide_false, Bool.not_false, ↓reduceIte]

/-! ## Tokens -/

/-- Whether a character is the mark of a token. -/
inductive Mark : Char → Token → Prop where
  | openArray : Mark '[' .openArray
  | closeArray : Mark ']' .closeArray
  | openObject : Mark '\x7b' .openObject
  | closeObject : Mark '\x7d' .closeObject
  | comma : Mark ',' .comma
  | colon : Mark ':' .colon

/-- Whether a text is cut into tokens wherever something stands behind it that ends a number. -/
structure Writes (cs : List Char) (ts : List Token) : Prop where
  scanned : ∀ rest bound, Ends rest →
    tokensWithin (bound + ts.length) (cs ++ rest) = (tokensWithin bound rest).map (ts ++ ·)
  length : ts.length ≤ cs.length

section Writes

variable {c : Char} {t : Token} {cs later : List Char} {ts more : List Token}

theorem tokensWithin_cons (hc : isSpace c = false) {rest : List Char}
    (h : scanToken (c :: cs) = some (t, rest)) (bound : Nat) :
    tokensWithin (bound + 1) (c :: cs) = (tokensWithin bound rest).map (t :: ·) := by
  rw [tokensWithin, List.dropWhile_cons_of_neg (by simp [hc])]
  simp only [h, Option.map_eq_bind]
  rfl

theorem writes_nil : Writes [] [] where
  scanned rest bound _ := by simp
  length := Nat.le_refl 0

/-- A token whose text needs an end. -/
theorem writes_token (hc : isSpace c = false)
    (h : ∀ rest, Ends rest → scanToken (c :: (cs ++ rest)) = some (t, rest)) :
    Writes (c :: cs) [t] where
  scanned rest bound hrest := tokensWithin_cons hc (h rest hrest) bound
  length := Nat.succ_le_succ (Nat.zero_le _)

/-- A mark in front of a text. -/
theorem Mark.writes (hmark : Mark c t) (h : Writes cs ts) : Writes (c :: cs) (t :: ts) where
  scanned rest bound hrest := by
    have hc : isSpace c = false := by cases hmark <;> rfl
    have ht : scanToken (c :: (cs ++ rest)) = some (t, cs ++ rest) := by cases hmark <;> rfl
    rw [List.length_cons, ← Nat.add_assoc, List.cons_append, tokensWithin_cons hc ht,
      h.scanned rest bound hrest, Option.map_map]
    rfl
  length := Nat.succ_le_succ h.length

/-- A text behind another one that it ends. -/
theorem Writes.append (h : Writes cs ts) (hlater : Writes later more)
    (hends : ∀ rest, Ends rest → Ends (later ++ rest)) : Writes (cs ++ later) (ts ++ more) where
  scanned rest bound hrest := by
    rw [List.append_assoc, List.length_append, Nat.add_comm ts.length, ← Nat.add_assoc,
      h.scanned _ _ (hends rest hrest), hlater.scanned rest bound hrest, Option.map_map]
    exact congrArg (Option.map · _) (funext fun ts => (List.append_assoc ..).symm)
  length := by
    rw [List.length_append, List.length_append]
    exact Nat.add_le_add h.length hlater.length

/-- A text behind a mark that may stand behind a value. -/
theorem Writes.append_mark (h : Writes cs ts) (hmark : Mark c t)
    (hends : c = ',' ∨ c = ':' ∨ c = ']' ∨ c = '\x7d') (hlater : Writes later more) :
    Writes (cs ++ c :: later) (ts ++ t :: more) :=
  h.append (hmark.writes hlater) fun rest _ d hd => by
    obtain rfl : c = d := by simpa using hd
    exact hends

end Writes

/-! ## Texts of values -/

/-- The tokens one after the other, with commas between them. -/
def commaTokens : List (List Token) → List Token
  | [] => []
  | [ts] => ts
  | ts :: rest => ts ++ .comma :: commaTokens rest

mutual

/-- The tokens of a value. -/
def written : Json → List Token
  | .null => [.null]
  | .bool b => [.bool b]
  | .num n => [.num (some n)]
  | .str s => [.str (some s)]
  | .arr items => .openArray :: (commaTokens (itemTokens items) ++ [.closeArray])
  | .obj fields => .openObject :: (commaTokens (fieldTokens fields) ++ [.closeObject])

/-- The tokens of the items of an array. -/
def itemTokens : List Json → List (List Token)
  | [] => []
  | v :: rest => written v :: itemTokens rest

/-- The tokens of the fields of an object. -/
def fieldTokens : List (String × Json) → List (List Token)
  | [] => []
  | (name, v) :: rest => (.str (some name) :: .colon :: written v) :: fieldTokens rest

end

mutual

/-- Whether all numbers of a value are integers of 64 bits. -/
def Whole : Json → Prop
  | .null => True
  | .bool _ => True
  | .num n => n.IsWhole
  | .str _ => True
  | .arr items => WholeItems items
  | .obj fields => WholeFields fields

/-- Whether that is so in all items. -/
def WholeItems : List Json → Prop
  | [] => True
  | v :: rest => Whole v ∧ WholeItems rest

/-- Whether that is so in all fields. -/
def WholeFields : List (String × Json) → Prop
  | [] => True
  | (_, v) :: rest => Whole v ∧ WholeFields rest

end

section Texts

theorem writes_quote (s : String) : Writes (quote s) [.str (some s)] := by
  refine writes_token rfl fun rest _ => ?_
  obtain ⟨ps, hscan, htext⟩ := scanString_escaped s.toList rest
  have hstring : stringOf? ps = some s := by
    rw [stringOf?, htext, Option.map_some, String.ofList_toList]
  show scanToken ('"' :: (s.toList.flatMap escape ++ ['"'] ++ rest)) = _
  rw [List.append_assoc, List.singleton_append]
  simp only [scanToken, hscan, Option.map_some, hstring]

theorem scanToken_digits (n : Nat) {rest : List Char} (h : Ends rest) :
    scanToken (Number.digits n ++ rest) =
      some (.num (Numeral.value? ⟨false, Number.digits n, [], none⟩), rest) := by
  have hnumeral := scanNumeral_digits false n h
  obtain ⟨d, ds, hds⟩ := List.exists_cons_of_ne_nil (Number.digits_ne_nil n)
  have hdigit : d.isDigit = true :=
    Number.isDigit_of_mem_digits (hds ▸ List.mem_cons_self)
  rw [hds] at hnumeral ⊢
  rw [List.cons_append] at hnumeral ⊢
  rw [scanToken.eq_def]
  split
  case h_13 => rw [hnumeral, Option.map_some]
  case h_1 heq => cases heq
  -- no digit begins any other token
  all_goals
    rename_i heq
    obtain ⟨rfl, -⟩ := List.cons.inj heq
    cases hdigit

theorem writes_number {n : Number} (h : n.IsWhole) : Writes n.text [.num (some n)] := by
  cases n with
  | real x => exact h.elim
  | int z =>
    have hvalue := value?_of_digits h
    by_cases hneg : z < 0
    · have htext : (Number.int z).text = '-' :: Number.digits z.natAbs := by
        simp [Number.text, hneg]
      rw [htext]
      refine writes_token rfl fun rest hrest => ?_
      rw [decide_eq_true hneg] at hvalue
      simp only [scanToken, scanNumeral_digits true _ hrest, Option.map_some, hvalue]
    · have htext : (Number.int z).text = Number.digits z.natAbs := by
        simp [Number.text, hneg]
      have hscan : ∀ rest, Ends rest → scanToken (Number.digits z.natAbs ++ rest) =
          some (.num (Numeral.value? ⟨false, Number.digits z.natAbs, [], none⟩), rest) :=
        fun _ hrest => scanToken_digits z.natAbs hrest
      rw [decide_eq_false hneg] at hvalue
      rw [hvalue] at hscan
      rw [htext]
      obtain ⟨d, ds, hds⟩ := List.exists_cons_of_ne_nil (Number.digits_ne_nil z.natAbs)
      have hdigit : d.isDigit = true :=
        Number.isDigit_of_mem_digits (hds ▸ List.mem_cons_self)
      have hspace : isSpace d = false := by
        refine Bool.eq_false_iff.mpr fun hspace => ?_
        simp only [isSpace, Bool.or_eq_true, beq_iff_eq] at hspace
        rcases hspace with ((rfl | rfl) | rfl) | rfl <;> cases hdigit
      rw [hds] at hscan ⊢
      exact writes_token hspace hscan

/-- Texts with commas between them are cut into the tokens with commas between them. -/
theorem writes_commaSeparated {texts : List (List Char)} {tokens : List (List Token)}
    (h : List.Forall₂ Writes texts tokens) : Writes (commaSeparated texts) (commaTokens tokens) := by
  induction h with
  | nil => exact writes_nil
  | @cons text ts texts tokens hfirst hrest ih =>
    cases hrest with
    | nil => exact hfirst
    | cons => exact hfirst.append_mark .comma (.inl rfl) ih

theorem writes_field {text : List Char} {ts : List Token} (name : String) (h : Writes text ts) :
    Writes (quote name ++ ':' :: text) (.str (some name) :: .colon :: ts) :=
  (writes_quote name).append_mark .colon (.inr (.inl rfl)) h

mutual

/-- The text of a value is cut into its tokens. -/
theorem writes_chars (v : Json) (h : v.Whole) : Writes v.chars v.written := by
  cases v with
  | null => exact writes_token rfl fun _ _ => rfl
  | bool b => cases b <;> exact writes_token rfl fun _ _ => rfl
  | num n => exact writes_number h
  | str s => exact writes_quote s
  | arr items =>
    have hitems := writes_commaSeparated (writes_items items h)
    exact Mark.openArray.writes
      (hitems.append_mark .closeArray (.inr (.inr (.inl rfl))) writes_nil)
  | obj fields =>
    have hfields := writes_commaSeparated (writes_fields fields h)
    exact Mark.openObject.writes
      (hfields.append_mark .closeObject (.inr (.inr (.inr rfl))) writes_nil)

theorem writes_items (items : List Json) (h : WholeItems items) :
    List.Forall₂ Writes (itemTexts items) (itemTokens items) := by
  cases items with
  | nil => exact .nil
  | cons v rest => exact .cons (writes_chars v h.1) (writes_items rest h.2)

theorem writes_fields (fields : List (String × Json)) (h : WholeFields fields) :
    List.Forall₂ Writes (fieldTexts fields) (fieldTokens fields) := by
  cases fields with
  | nil => exact .nil
  | cons field rest =>
    exact .cons (writes_field field.1 (writes_chars field.2 h.1)) (writes_fields rest h.2)

end

theorem tokens_chars (v : Json) (h : v.Whole) : tokens v.chars = some v.written := by
  have hwrites := writes_chars v h
  obtain ⟨bound, hbound⟩ := Nat.exists_eq_add_of_le' hwrites.length
  have hscanned := hwrites.scanned [] bound (by simp [Ends])
  rw [List.append_nil] at hscanned
  rw [tokens, hbound, hscanned]
  cases bound <;> simp [tokensWithin]

end Texts

/-! ## Trees -/

theorem commaTokens_cons {tokens : List (List Token)} (hne : tokens ≠ []) (ts : List Token) :
    commaTokens (ts :: tokens) = ts ++ .comma :: commaTokens tokens := by
  cases tokens with
  | nil => exact absurd rfl hne
  | cons => rfl

theorem head?_commaTokens {ts : List Token} (hne : ts ≠ []) (tokens : List (List Token))
    (rest : List Token) : (commaTokens (ts :: tokens) ++ rest).head? = ts.head? := by
  obtain ⟨t, ts, rfl⟩ := List.exists_cons_of_ne_nil hne
  cases tokens <;> rfl

/-- No value begins with the end of an array. -/
theorem exists_head_written (v : Json) : ∃ t ts, v.written = t :: ts ∧ t ≠ .closeArray := by
  cases v <;> exact ⟨_, _, rfl, by simp⟩

theorem readTree_openArray {fuel : Nat} {ts : List Token} (h : ts.head? ≠ some .closeArray) :
    readTree (fuel + 1) (.openArray :: ts) =
      (readItems fuel ts).map fun (items, rest) => (.arr items, rest) := by
  rw [readTree]
  rintro rest rfl
  exact h rfl

theorem readTree_openObject {fuel : Nat} {ts : List Token} (h : ts.head? ≠ some .closeObject) :
    readTree (fuel + 1) (.openObject :: ts) =
      (readFields fuel ts).map fun (fields, rest) => (.obj fields, rest) := by
  rw [readTree]
  rintro rest rfl
  exact h rfl

mutual

/-- The tokens of a value are read as its tree. -/
theorem readTree_written (v : Json) (rest : List Token) (fuel : Nat)
    (h : 2 * v.written.length + 1 ≤ fuel) :
    readTree fuel (v.written ++ rest) = some (v.tree, rest) := by
  obtain ⟨fuel, rfl⟩ : ∃ n, fuel = n + 1 := ⟨fuel - 1, by omega⟩
  cases v with
  | null => rfl
  | bool b => rfl
  | num n => rfl
  | str s => rfl
  | arr items =>
    by_cases hne : items = []
    · subst hne
      rfl
    · simp only [written, List.length_cons, List.length_append, List.length_nil] at h
      have hitems := readItems_written items hne rest fuel (by omega)
      have hhead : (commaTokens (itemTokens items) ++ .closeArray :: rest).head? ≠
          some .closeArray := by
        obtain ⟨v, others, rfl⟩ := List.exists_cons_of_ne_nil hne
        obtain ⟨t, ts, hv, ht⟩ := exists_head_written v
        rw [itemTokens, head?_commaTokens (by simp [hv]), hv]
        simpa using ht
      show readTree (fuel + 1) (.openArray :: (commaTokens _ ++ [.closeArray] ++ rest)) = _
      rw [List.append_assoc, List.singleton_append, readTree_openArray hhead, hitems]
      rfl
  | obj fields =>
    by_cases hne : fields = []
    · subst hne
      rfl
    · simp only [written, List.length_cons, List.length_append, List.length_nil] at h
      have hfields := readFields_written fields hne rest fuel (by omega)
      show readTree (fuel + 1) (.openObject :: (commaTokens _ ++ [.closeObject] ++ rest)) = _
      have hhead : (commaTokens (fieldTokens fields) ++ .closeObject :: rest).head? ≠
          some .closeObject := by
        obtain ⟨p, others, rfl⟩ := List.exists_cons_of_ne_nil hne
        rw [fieldTokens, head?_commaTokens (by simp)]
        simp
      rw [List.append_assoc, List.singleton_append, readTree_openObject hhead, hfields]
      rfl

theorem readItems_written (items : List Json) (hne : items ≠ []) (rest : List Token) (fuel : Nat)
    (h : 2 * (commaTokens (itemTokens items)).length + 2 ≤ fuel) :
    readItems fuel (commaTokens (itemTokens items) ++ .closeArray :: rest) =
      some (treesOf items, rest) := by
  obtain ⟨fuel, rfl⟩ : ∃ n, fuel = n + 1 := ⟨fuel - 1, by omega⟩
  cases items with
  | nil => exact absurd rfl hne
  | cons v others =>
    by_cases hothers : others = []
    · subst hothers
      have hv := readTree_written v (.closeArray :: rest) fuel (by
        have h : 2 * v.written.length + 2 ≤ fuel + 1 := h
        omega)
      show readItems (fuel + 1) (v.written ++ _) = _
      rw [readItems, hv]
      rfl
    · have htokens : itemTokens others ≠ [] := by
        cases others with
        | nil => exact absurd rfl hothers
        | cons => simp [itemTokens]
      simp only [itemTokens, commaTokens_cons htokens, List.length_append, List.length_cons] at h
      have hv := readTree_written v
        (.comma :: (commaTokens (itemTokens others) ++ .closeArray :: rest)) fuel (by omega)
      have hrest := readItems_written others hothers rest fuel (by omega)
      rw [itemTokens, commaTokens_cons htokens, List.append_assoc, List.cons_append, readItems, hv]
      dsimp only
      rw [hrest]
      rfl

theorem readFields_written (fields : List (String × Json)) (hne : fields ≠ []) (rest : List Token)
    (fuel : Nat) (h : 2 * (commaTokens (fieldTokens fields)).length + 2 ≤ fuel) :
    readFields fuel (commaTokens (fieldTokens fields) ++ .closeObject :: rest) =
      some (fieldTrees fields, rest) := by
  obtain ⟨fuel, rfl⟩ : ∃ n, fuel = n + 1 := ⟨fuel - 1, by omega⟩
  cases fields with
  | nil => exact absurd rfl hne
  | cons field others =>
    obtain ⟨name, v⟩ := field
    by_cases hothers : others = []
    · subst hothers
      have hv := readTree_written v (.closeObject :: rest) fuel (by
        have h : 2 * (v.written.length + 1 + 1) + 2 ≤ fuel + 1 := h
        omega)
      show readFields (fuel + 1) (.str (some name) :: .colon :: (v.written ++ _)) = _
      rw [readFields, hv]
      rfl
    · have htokens : fieldTokens others ≠ [] := by
        cases others with
        | nil => exact absurd rfl hothers
        | cons => simp [fieldTokens]
      simp only [fieldTokens, commaTokens_cons htokens, List.length_append, List.length_cons] at h
      have hv := readTree_written v
        (.comma :: (commaTokens (fieldTokens others) ++ .closeObject :: rest)) fuel (by omega)
      have hrest := readFields_written others hothers rest fuel (by omega)
      rw [fieldTokens, commaTokens_cons htokens, List.append_assoc, List.cons_append,
        List.cons_append, List.cons_append, readFields, hv]
      dsimp only
      rw [hrest]
      rfl

end

/-- **Compact texts lead back to their values**: what is written in order and with integers of 64
bits for its only numbers is read as it was, unless it is nested too deeply. -/
theorem parse?_render (v : Json) (hwhole : v.Whole) (hcanonical : v.Canonical) :
    parse? v.render = if v.height ≤ depthLimit then some v else none := by
  have htree := readTree_written v [] (2 * v.written.length + 1) (Nat.le_refl _)
  rw [List.append_nil] at htree
  have htext : Tree.ofText? v.render = some v.tree := by
    unfold Tree.ofText? render
    rw [String.toList_ofList, tokens_chars v hwhole]
    dsimp only
    rw [htree]
  rw [parse?, htext, Option.bind_some, value?_tree v hcanonical]

end Workflow.Json
