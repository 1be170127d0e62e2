import Workflow.Text.Utf8

/- Texts and their octets. The octets of a text lead back to it (`decode?_encode`). A
   character below 128 has one octet, which is no part of any other character, so that
   wherever this octet stands the text is cut between two characters in front of it and
   behind it (`encodeChars_split`). -/
namespace Workflow.Text

theorem toNat_octet {n : Nat} (h : n < 256) : (UInt8.ofNat n).toNat = n := by
  simp [UInt8.toNat_ofNat', Nat.mod_eq_of_lt h]

/-! ## Octets of one character -/

theorem leadOf?_one {a : Nat} (h : a < 128) :
    leadOf? (UInt8.ofNat a) = some (0, a, 0, 0) := by
  simp [leadOf?, toNat_octet (show a < 256 by omega), h]

theorem leadOf?_two {a : Nat} (hle : 2 ≤ a) (hlt : a < 32) :
    leadOf? (UInt8.ofNat (a + 192)) = some (1, a, 0x80, 0xBF) := by
  simp only [leadOf?, toNat_octet (show a + 192 < 256 by omega)]
  rw [if_neg (by omega), if_pos (by simp; omega), Nat.add_sub_cancel]

theorem leadOf?_three {a : Nat} (hlt : a < 16) :
    leadOf? (UInt8.ofNat (a + 224)) =
      some (2, a, if a = 0 then 0xA0 else 0x80, if a = 13 then 0x9F else 0xBF) := by
  revert a
  decide

theorem leadOf?_four {a : Nat} (hlt : a < 5) :
    leadOf? (UInt8.ofNat (a + 240)) =
      some (3, a, if a = 0 then 0x90 else 0x80, if a = 4 then 0x8F else 0xBF) := by
  revert a
  decide

theorem follow_octet {a lo hi : Nat} (ha : a < 64) (hlo : lo ≤ a + 128) (hhi : a + 128 ≤ hi)
    (n bits : Nat) (rest : Octets) :
    follow (n + 1) bits lo hi (UInt8.ofNat (a + 128) :: rest) =
      follow n (bits * 64 + a) 0x80 0xBF rest := by
  have hval := toNat_octet (show a + 128 < 256 by omega)
  simp only [follow, hval, Nat.add_sub_cancel]
  rw [if_pos (by simp; omega)]

/-- The octets of a character are read as that character. -/
theorem scanWithin_encodeChar (c : Char) (n : Nat) (rest : Octets) :
    scanWithin (n + 1) (String.utf8EncodeChar c ++ rest) = some c :: scanWithin n rest := by
  have hvalid : c.toNat < 0xD800 ∨ 0xDFFF < c.toNat ∧ c.toNat < 0x110000 := c.valid
  have hback : Char.ofNat c.toNat = c := Char.ofNat_toNat c
  have hval : c.val.toNat = c.toNat := rfl
  simp only [String.utf8EncodeChar, hval]
  generalize c.toNat = v at hvalid hback
  have hshort : ∀ a, a % 64 < 64 := fun a => Nat.mod_lt a (by decide)
  split
  case isTrue hone =>
    have hlead := leadOf?_one (show v < 128 by omega)
    simp only [List.cons_append, List.nil_append, scanWithin, hlead, follow, hback]
  case isFalse hone =>
  split
  case isTrue htwo =>
    have hlead := leadOf?_two (show 2 ≤ v / 64 % 32 by omega) (by omega)
    simp only [List.cons_append, List.nil_append, scanWithin, hlead]
    rw [follow_octet (hshort v) (by omega) (by omega)]
    simp only [follow]
    rw [show v / 64 % 32 * 64 + v % 64 = v by omega, hback]
  case isFalse htwo =>
  split
  case isTrue hthree =>
    have hlead := leadOf?_three (show v / 4096 % 16 < 16 by omega)
    simp only [List.cons_append, List.nil_append, scanWithin, hlead]
    rw [follow_octet (hshort _) (by split <;> omega) (by split <;> omega),
      follow_octet (hshort v) (by omega) (by omega)]
    simp only [follow]
    rw [show (v / 4096 % 16 * 64 + v / 64 % 64) * 64 + v % 64 = v by omega, hback]
  case isFalse hthree =>
    have hlead := leadOf?_four (show v / 262144 % 8 < 5 by omega)
    simp only [List.cons_append, List.nil_append, scanWithin, hlead]
    rw [follow_octet (hshort _) (by split <;> omega) (by split <;> omega),
      follow_octet (hshort _) (by omega) (by omega), follow_octet (hshort v) (by omega) (by omega)]
    simp only [follow]
    rw [show ((v / 262144 % 8 * 64 + v / 4096 % 64) * 64 + v / 64 % 64) * 64 + v % 64 = v by omega,
      hback]

theorem encodeChar_ascii {c : Char} (h : c.toNat < 128) :
    String.utf8EncodeChar c = [UInt8.ofNat c.toNat] := by
  have hval : c.val.toNat ≤ 127 := Nat.le_of_lt_succ h
  simp only [String.utf8EncodeChar, if_pos hval]
  rfl

/-- The octets of a character of several octets are all beyond the characters of one. -/
theorem le_of_mem_encodeChar {c : Char} (h : 128 ≤ c.toNat) {b : UInt8}
    (hb : b ∈ String.utf8EncodeChar c) : 128 ≤ b.toNat := by
  have hval : ¬ c.val.toNat ≤ 127 := Nat.not_le_of_lt h
  have hlt : c.val.toNat < 0x110000 := by
    have hvalid : c.toNat < 0xD800 ∨ 0xDFFF < c.toNat ∧ c.toNat < 0x110000 := c.valid
    show c.toNat < _
    omega
  simp only [String.utf8EncodeChar, if_neg hval] at hb
  split at hb
  case isTrue htwo =>
    simp only [List.mem_cons, List.not_mem_nil, or_false] at hb
    rcases hb with rfl | rfl <;> rw [toNat_octet (by omega)] <;> omega
  case isFalse htwo =>
  split at hb
  case isTrue hthree =>
    simp only [List.mem_cons, List.not_mem_nil, or_false] at hb
    rcases hb with rfl | rfl | rfl <;> rw [toNat_octet (by omega)] <;> omega
  case isFalse hthree =>
    simp only [List.mem_cons, List.not_mem_nil, or_false] at hb
    rcases hb with rfl | rfl | rfl | rfl <;> rw [toNat_octet (by omega)] <;> omega

/-! ## Octets of a text -/

/-- The octets of characters. -/
def encodeChars (cs : List Char) : Octets := cs.flatMap String.utf8EncodeChar

theorem encodeChars_cons (c : Char) (cs : List Char) :
    encodeChars (c :: cs) = String.utf8EncodeChar c ++ encodeChars cs := rfl

theorem encodeChars_append (cs ds : List Char) :
    encodeChars (cs ++ ds) = encodeChars cs ++ encodeChars ds := List.flatMap_append ..

theorem length_encodeChars (cs : List Char) : cs.length ≤ (encodeChars cs).length := by
  induction cs with
  | nil => simp
  | cons c cs ih =>
    have hpos : 0 < (String.utf8EncodeChar c).length := by
      rw [String.length_utf8EncodeChar]
      exact c.utf8Size_pos
    rw [encodeChars_cons, List.length_append, List.length_cons]
    omega

theorem scanWithin_encodeChars {cs : List Char} {n : Nat} (h : cs.length ≤ n) :
    scanWithin n (encodeChars cs) = cs.map some := by
  induction cs generalizing n with
  | nil => cases n <;> rfl
  | cons c cs ih =>
    cases n with
    | zero => cases h
    | succ n =>
      rw [encodeChars_cons, scanWithin_encodeChar, ih (Nat.le_of_succ_le_succ h), List.map_cons]

theorem decode?_encodeChars (cs : List Char) : decode? (encodeChars cs) = some (String.ofList cs) := by
  have hall : ∀ cs : List Char, (cs.map some).mapM id = some cs := by
    intro cs
    induction cs with
    | nil => rfl
    | cons c cs ih => simp [ih]
  rw [decode?, scanWithin_encodeChars (length_encodeChars cs), hall, Option.map_some]

/-- **The octets of a text are those of no other**: read as UTF-8, they give the text back. -/
theorem decode?_encode (s : String) : decode? (encode s) = some s := by
  have h := decode?_encodeChars s.toList
  rwa [String.ofList_toList] at h

theorem encodeChars_ofAscii {octets : Octets} (h : ∀ b ∈ octets, b.toNat < 128) :
    encodeChars (octets.map fun b => Char.ofNat b.toNat) = octets := by
  induction octets with
  | nil => rfl
  | cons b octets ih =>
    obtain ⟨hb, hlater⟩ := List.forall_mem_cons.mp h
    have hvalid : b.toNat.isValidChar := .inl (Nat.lt_trans hb (by decide))
    have hchar : (Char.ofNat b.toNat).toNat = b.toNat := by
      rw [Char.ofNat, dif_pos hvalid]
      rfl
    rw [List.map_cons, encodeChars_cons, encodeChar_ascii (hchar.symm ▸ hb), hchar, ih hlater]
    simp

/-- Octets below 128 are those of the text that is read from them. -/
theorem encode_of_decode? {octets : Octets} {s : String} (h : ∀ b ∈ octets, b.toNat < 128)
    (hs : decode? octets = some s) : encode s = octets := by
  rw [← encodeChars_ofAscii h, decode?_encodeChars] at hs
  obtain rfl := Option.some.inj hs
  show encodeChars (String.ofList _).toList = octets
  rw [String.toList_ofList, encodeChars_ofAscii h]

/-- **An octet below 128 is a character of its own**, wherever it stands: a text is cut between
characters in front of it and behind it. -/
theorem encodeChars_split {cs : List Char} {before after : Octets} {c : Char}
    (hc : c.toNat < 128) (h : encodeChars cs = before ++ String.utf8EncodeChar c ++ after) :
    ∃ as bs, cs = as ++ c :: bs ∧ encodeChars as = before ∧ encodeChars bs = after := by
  rw [encodeChar_ascii hc, List.append_assoc, List.singleton_append] at h
  induction cs generalizing before with
  | nil => simp [encodeChars] at h
  | cons d ds ih =>
    rw [encodeChars_cons] at h
    by_cases hd : d.toNat < 128
    · rw [encodeChar_ascii hd, List.singleton_append] at h
      cases before with
      | nil =>
        obtain ⟨hoctet, hrest⟩ := List.cons.inj h
        have hsame : d = c := by
          apply Char.toNat_inj.mp
          rw [← toNat_octet (show d.toNat < 256 by omega), hoctet, toNat_octet (by omega)]
        exact ⟨[], ds, by rw [hsame]; rfl, rfl, hrest⟩
      | cons b before =>
        obtain ⟨rfl, hrest⟩ := List.cons.inj h
        obtain ⟨as, bs, rfl, has, hbs⟩ := ih hrest
        exact ⟨d :: as, bs, rfl, by rw [encodeChars_cons, encodeChar_ascii hd, has]; rfl, hbs⟩
    · rcases List.append_eq_append_iff.mp h with ⟨middle, hbefore, hrest⟩ | ⟨middle, hsplit, hrest⟩
      · obtain ⟨as, bs, rfl, has, hbs⟩ := ih hrest
        exact ⟨d :: as, bs, rfl, by rw [encodeChars_cons, has, hbefore], hbs⟩
      · cases middle with
        | nil =>
          have hstart : encodeChars ds = [] ++ UInt8.ofNat c.toNat :: after := hrest.symm
          obtain ⟨as, bs, rfl, has, hbs⟩ := ih hstart
          exact ⟨d :: as, bs, rfl, by rw [encodeChars_cons, has, hsplit]; simp, hbs⟩
        | cons b middle =>
          -- the octet would belong to a character of several
          obtain ⟨rfl, -⟩ := List.cons.inj hrest
          have hmem : UInt8.ofNat c.toNat ∈ String.utf8EncodeChar d := by
            rw [hsplit]
            exact List.mem_append_right before List.mem_cons_self
          have hle := le_of_mem_encodeChar (Nat.le_of_not_lt hd) hmem
          rw [toNat_octet (by omega)] at hle
          omega

/-- A text whose octets begin with those of characters below 128 begins with them. -/
theorem encodeChars_prefix {part cs : List Char} {after : Octets}
    (hpart : ∀ c ∈ part, c.toNat < 128) (h : encodeChars cs = encodeChars part ++ after) :
    ∃ bs, cs = part ++ bs ∧ encodeChars bs = after := by
  induction part generalizing cs with
  | nil => exact ⟨cs, rfl, h⟩
  | cons c part ih =>
    obtain ⟨hc, hlater⟩ := List.forall_mem_cons.mp hpart
    rw [encodeChars_cons, List.append_assoc] at h
    have hstart : encodeChars cs =
        [] ++ String.utf8EncodeChar c ++ (encodeChars part ++ after) := by simpa using h
    obtain ⟨as, bs, rfl, has, hbs⟩ := encodeChars_split hc hstart
    obtain ⟨rest, rfl, hrest⟩ := ih hlater hbs
    cases as with
    | nil => exact ⟨rest, rfl, hrest⟩
    | cons d as =>
      have hlong := length_encodeChars (d :: as)
      rw [has] at hlong
      cases hlong

/-- Where the octets of characters below 128 stand in those of a text, the characters stand in the
text. -/
theorem encodeChars_part {part cs : List Char} {before after : Octets} (hne : part ≠ [])
    (hpart : ∀ c ∈ part, c.toNat < 128) (h : encodeChars cs = before ++ encodeChars part ++ after) :
    ∃ as bs, cs = as ++ part ++ bs ∧ encodeChars as = before ∧ encodeChars bs = after := by
  cases part with
  | nil => exact absurd rfl hne
  | cons c part =>
    obtain ⟨hc, hlater⟩ := List.forall_mem_cons.mp hpart
    rw [encodeChars_cons, ← List.append_assoc, List.append_assoc] at h
    obtain ⟨as, ds, rfl, has, hds⟩ := encodeChars_split hc h
    obtain ⟨bs, rfl, hbs⟩ := encodeChars_prefix hlater hds
    exact ⟨as, bs, by simp, has, hbs⟩

end Workflow.Text
