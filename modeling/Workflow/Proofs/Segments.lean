import Workflow.Proofs.Octets
import Workflow.Proofs.Tokens

/- How a text is cut into plain text and tokens. What stands in front of the first opener that is
   closed is plain, the token goes on to the first closing brace, and what follows is cut in the
   same way (`Cut`); no value of a variable has a part in it, and the cuts are the only ones of
   that kind (`Cut.eq_split`). A search for the marks among the octets of the text finds the
   same places, and so never goes through a character (`fillSearching_of_cut`). For texts and for
   JSON values `segments_of_templates` puts it together. -/
namespace Workflow

namespace Template

/-! ## Cuts -/

/-- Plain text as pieces: no piece if there is no text. -/
def plainPieces : List Char → List Piece
  | [] => []
  | cs => [.literal cs]

/-- Whether no opener begins in a text, which is followed by another one. -/
def Clear (pre behind : List Char) : Prop :=
  ∀ a b, pre ++ behind = a ++ opener ++ b → pre.length ≤ a.length

/-- Whether pieces are those of a text, found from left to right. -/
inductive Cut : List Char → List Piece → Prop where
  /-- No opener is closed any more: all is plain. -/
  | rest {cs : List Char} (unclosed : ∀ a b, cs = a ++ opener ++ b → '\x7d' ∉ b) :
      Cut cs (plainPieces cs)
  /-- A token from the first opener to the first closing brace behind it. -/
  | token {cs pre inner later : List Char} {pieces : List Piece}
      (text : cs = pre ++ (opener ++ (inner ++ '\x7d' :: later)))
      (first : Clear pre (opener ++ (inner ++ '\x7d' :: later)))
      (closes : '\x7d' ∉ inner) (others : Cut later pieces) :
      Cut cs (plainPieces pre ++ .token inner :: pieces)

section Cuts

variable {c : Char} {cs pre behind inner later : List Char} {pieces : List Piece}

theorem Clear.tail (h : Clear (c :: pre) behind) : Clear pre behind := by
  intro a b heq
  have hle := h (c :: a) b (by simp [heq])
  simpa using hle

theorem Clear.tokenAt?_eq_none (h : Clear (c :: pre) behind) :
    tokenAt? (c :: (pre ++ behind)) = none := by
  rw [Option.eq_none_iff_forall_ne_some]
  rintro ⟨inner, after⟩ hsome
  have hle := h [] (inner ++ '\x7d' :: after) (by simpa using tokenAt?_eq hsome)
  cases hle

theorem not_mem_of_cut {mark : Char} {cs a b : List Char} (h : Text.cut mark cs = some (a, b)) :
    mark ∉ a := by
  induction cs generalizing a b with
  | nil => cases h
  | cons c cs ih =>
    by_cases hc : c = mark
    · simp only [Text.cut, hc, if_true, Option.some.injEq, Prod.mk.injEq] at h
      simp [← h.1]
    · simp only [Text.cut, hc, if_false, Option.map_eq_some_iff] at h
      obtain ⟨⟨a', b'⟩, h', e⟩ := h
      obtain ⟨rfl, -⟩ := Prod.mk.inj e
      simp [Ne.symm hc, ih h']

theorem not_mem_of_tokenAt? (h : tokenAt? cs = some (inner, later)) : '\x7d' ∉ inner := by
  obtain ⟨r, -, hcut⟩ := Option.bind_eq_some_iff.mp h
  exact not_mem_of_cut hcut

theorem split_of_token (h : tokenAt? cs = some (inner, later)) :
    split cs = .token inner :: split later := by
  rw [split]
  split
  case h_1 heq =>
    rw [h] at heq
    cases heq
    rfl
  case h_2 heq =>
    rw [h] at heq
    cases heq

theorem split_of_none (h : tokenAt? (c :: cs) = none) :
    split (c :: cs) = prepend c (split cs) := by
  rw [split]
  split
  case h_1 heq =>
    rw [h] at heq
    cases heq
  case h_2 => rfl

theorem split_nil : split [] = [] := by
  rw [split]
  rfl

theorem prepend_plainPieces (c : Char) (cs : List Char) :
    prepend c (plainPieces cs) = plainPieces (c :: cs) := by
  cases cs <;> rfl

theorem prepend_plainPieces_append (c : Char) (cs : List Char) (inner : List Char)
    (pieces : List Piece) :
    prepend c (plainPieces cs ++ .token inner :: pieces) =
      plainPieces (c :: cs) ++ .token inner :: pieces := by
  cases cs <;> rfl

/-- The cuts that are made are cuts. -/
theorem cut_split (cs : List Char) : Cut cs (split cs) := by
  fun_induction split cs with
  | case1 cs inner later htoken ih =>
    have htext := tokenAt?_eq htoken
    rw [List.append_assoc] at htext
    have hcut : Cut cs (plainPieces [] ++ .token inner :: split later) :=
      .token htext (fun _ _ _ => Nat.zero_le _) (not_mem_of_tokenAt? htoken) ih
    exact hcut
  | case2 => exact .rest (by simp [opener])
  | case3 c cs hnone ih =>
    -- an opener that begins here is not closed
    have hhere : ∀ b, c :: cs = opener ++ b → '\x7d' ∉ b := by
      intro b heq hmem
      obtain ⟨inner, later, hcut⟩ := cut_of_mem hmem
      rw [heq, tokenAt?_opener, hcut] at hnone
      cases hnone
    generalize split cs = pieces at ih
    cases ih with
    | rest unclosed =>
      rw [prepend_plainPieces]
      refine .rest fun a b heq => ?_
      cases a with
      | nil => exact hhere b heq
      | cons d a => exact unclosed a b (List.cons.inj heq).2
    | @token _ pre inner later pieces text first closes others =>
      rw [prepend_plainPieces_append]
      refine .token (by rw [text]; rfl) (fun a b heq => ?_) closes others
      cases a with
      | nil =>
        -- the token behind it would close it
        have heq' : c :: cs = opener ++ b := by rw [text]; exact heq
        have hmem : '\x7d' ∈ opener ++ b := by
          rw [← heq', text]
          simp
        exact absurd ((List.mem_append.mp hmem).resolve_left (by decide)) (hhere b heq')
      | cons d a => exact Nat.succ_le_succ (first a b (List.cons.inj heq).2)

theorem split_of_unclosed (h : ∀ a b, cs = a ++ opener ++ b → '\x7d' ∉ b) :
    split cs = plainPieces cs := by
  induction cs with
  | nil => exact split_nil
  | cons c cs ih =>
    have hnone : tokenAt? (c :: cs) = none := by
      rw [Option.eq_none_iff_forall_ne_some]
      rintro ⟨inner, later⟩ hsome
      exact h [] (inner ++ '\x7d' :: later) (by simpa using tokenAt?_eq hsome) (by simp)
    rw [split_of_none hnone, ih fun a b heq => h (c :: a) b (by rw [heq]; rfl), prepend_plainPieces]

theorem split_of_clear (h : Clear pre (opener ++ (inner ++ '\x7d' :: later)))
    (hinner : '\x7d' ∉ inner) :
    split (pre ++ (opener ++ (inner ++ '\x7d' :: later))) =
      plainPieces pre ++ .token inner :: split later := by
  induction pre with
  | nil =>
    have htoken := tokenAt?_source hinner later
    simp only [Piece.source, List.append_assoc, List.singleton_append] at htoken
    exact split_of_token htoken
  | cons c pre ih =>
    rw [List.cons_append, split_of_none h.tokenAt?_eq_none, ih h.tail, prepend_plainPieces_append]

/-- **There is one way to cut a text.** -/
theorem Cut.eq_split (h : Cut cs pieces) : pieces = split cs := by
  induction h with
  | rest unclosed => exact (split_of_unclosed unclosed).symm
  | token text first closes others ih => rw [text, split_of_clear first closes, ih]

end Cuts

/-! ## Search among octets -/

/-- The place at which a part begins for the first time. -/
def find? (part : Text.Octets) : Text.Octets → Option Nat
  | [] => none
  | b :: rest => if part.isPrefixOf (b :: rest) then some 0 else (find? part rest).map (· + 1)

section Search

variable {part before after octets : Text.Octets} {n : Nat}

theorem find?_eq_some (hpart : part ≠ [])
    (first : ∀ x y, before ++ part ++ after = x ++ part ++ y → before.length ≤ x.length) :
    find? part (before ++ part ++ after) = some before.length := by
  induction before with
  | nil =>
    cases part with
    | nil => exact absurd rfl hpart
    | cons b part => simp [find?]
  | cons b before ih =>
    have hnot : ¬ part.isPrefixOf (b :: (before ++ part ++ after)) = true := by
      intro hprefix
      obtain ⟨y, hy⟩ := List.isPrefixOf_iff_prefix.mp hprefix
      have hle := first [] y (by simpa using hy.symm)
      cases hle
    have hlater := ih fun x y heq => by
      have hle := first (b :: x) y (by simpa using heq)
      simpa using hle
    rw [List.cons_append, List.cons_append, find?, if_neg hnot, hlater, Option.map_some,
      List.length_cons]

theorem exists_of_find? (h : find? part octets = some n) :
    ∃ before after, octets = before ++ part ++ after ∧ before.length = n := by
  induction octets generalizing n with
  | nil => cases h
  | cons b rest ih =>
    rw [find?] at h
    split at h
    case isTrue hprefix =>
      obtain ⟨after, hafter⟩ := List.isPrefixOf_iff_prefix.mp hprefix
      cases h
      exact ⟨[], after, by simpa using hafter.symm, rfl⟩
    case isFalse =>
      obtain ⟨k, hk, rfl⟩ := Option.map_eq_some_iff.mp h
      obtain ⟨before, after, rfl, rfl⟩ := ih hk
      exact ⟨b :: before, after, rfl, rfl⟩

theorem pos_of_find? (h : find? part octets = some n) : 0 < octets.length := by
  cases octets with
  | nil => cases h
  | cons b rest => exact Nat.succ_pos _

end Search

/-- The octets of an opener. -/
def openerOctets : Text.Octets := Text.encodeChars opener

/-- The octet of a closing brace. -/
def closerOctets : Text.Octets := Text.encodeChars ['\x7d']

/-- The text of octets, filled: the marks are searched one behind the other, and the octets cut at
the places found. None if a cut goes through a character. -/
def fillSearching (vars : Variables) (octets : Text.Octets) : Option String :=
  match _h : find? openerOctets octets with
  | none => Text.decode? octets
  | some start =>
    let behind := octets.drop (start + openerOctets.length)
    match find? closerOctets behind with
    | none => Text.decode? octets
    | some stop => do
      let before ← Text.decode? (octets.take start)
      let name ← Text.decode? (behind.take stop)
      let token ← Text.decode? ((octets.drop start).take (openerOctets.length + stop + 1))
      let later ← fillSearching vars (behind.drop (stop + 1))
      some (before ++ (Table.get? vars (Text.trim name)).getD token ++ later)
termination_by octets.length
decreasing_by
  have hpos := pos_of_find? _h
  simp only [List.length_drop]
  omega

section Search

variable (vars : Variables) {cs pre inner behind later part : List Char}

/-- One turn of the search. -/
theorem fillSearching_turn {before name after : Text.Octets}
    (hstart : find? openerOctets (before ++ openerOctets ++ (name ++ closerOctets ++ after)) =
      some before.length)
    (hstop : find? closerOctets (name ++ closerOctets ++ after) = some name.length) :
    fillSearching vars (before ++ openerOctets ++ (name ++ closerOctets ++ after)) = (do
      let before ← Text.decode? before
      let asked ← Text.decode? name
      let token ← Text.decode? (openerOctets ++ name ++ closerOctets)
      let later ← fillSearching vars after
      some (before ++ (Table.get? vars (Text.trim asked)).getD token ++ later)) := by
  have hone : closerOctets.length = 1 := rfl
  rw [fillSearching]
  split
  case h_1 heq =>
    rw [hstart] at heq
    cases heq
  case h_2 start heq =>
    obtain rfl : before.length = start := Option.some.inj (hstart.symm.trans heq)
    have hbehind : (before ++ openerOctets ++ (name ++ closerOctets ++ after)).drop
        (before.length + openerOctets.length) = name ++ closerOctets ++ after := by
      rw [← List.length_append, List.drop_left]
    have hbefore : (before ++ openerOctets ++ (name ++ closerOctets ++ after)).take
        before.length = before := by
      rw [List.append_assoc, List.take_left]
    have htoken : ((before ++ openerOctets ++ (name ++ closerOctets ++ after)).drop
        before.length).take (openerOctets.length + name.length + 1) =
          openerOctets ++ name ++ closerOctets := by
      rw [List.append_assoc, List.drop_left, ← hone, ← List.length_append, ← List.length_append,
        ← List.append_assoc, ← List.append_assoc, List.take_left]
    have hname : (name ++ closerOctets ++ after).take name.length = name := by
      rw [List.append_assoc, List.take_left]
    have hafter : (name ++ closerOctets ++ after).drop (name.length + 1) = after := by
      rw [← hone, ← List.length_append, List.drop_left]
    simp only [hbehind, hstop, hbefore, htoken, hname, hafter]

/-- What is found first among the octets is found first among the characters. -/
theorem find?_encodeChars (hpart : part ≠ []) (hascii : ∀ c ∈ part, c.toNat < 128)
    (first : ∀ a b, pre ++ part ++ behind = a ++ part ++ b → pre.length ≤ a.length) :
    find? (Text.encodeChars part)
        (Text.encodeChars pre ++ Text.encodeChars part ++ Text.encodeChars behind) =
      some (Text.encodeChars pre).length := by
  have hne : Text.encodeChars part ≠ [] := by
    intro hnil
    have hlen := Text.length_encodeChars part
    rw [hnil] at hlen
    exact hpart (List.eq_nil_of_length_eq_zero (Nat.le_zero.mp hlen))
  refine find?_eq_some hne fun x y heq => ?_
  rw [← Text.encodeChars_append, ← Text.encodeChars_append] at heq
  obtain ⟨as, bs, htext, rfl, rfl⟩ := Text.encodeChars_part hpart hascii heq
  -- both places are in the same text, so what is before the earlier one begins what is before the
  -- later one
  have hle := first as bs htext
  rw [List.append_assoc, List.append_assoc] at htext
  obtain ⟨between, rfl⟩ : pre <+: as :=
    List.prefix_of_prefix_length_le ⟨_, htext⟩ (List.prefix_append as _) hle
  rw [Text.encodeChars_append, List.length_append]
  exact Nat.le_add_right ..

/-- A brace that stands in front of none is the first one. -/
theorem length_le_of_not_mem (h : '\x7d' ∉ inner) (a b : List Char)
    (heq : inner ++ ['\x7d'] ++ later = a ++ ['\x7d'] ++ b) : inner.length ≤ a.length := by
  apply Nat.le_of_not_lt
  intro hlt
  rw [List.append_assoc, List.append_assoc] at heq
  obtain ⟨between, rfl⟩ : a <+: inner :=
    List.prefix_of_prefix_length_le ⟨_, heq.symm⟩ (List.prefix_append inner _) (Nat.le_of_lt hlt)
  cases between with
  | nil => simp at hlt
  | cons c between =>
    simp only [List.append_assoc, List.append_cancel_left_eq, List.cons_append,
      List.cons.injEq] at heq
    exact h (by simp [heq.1])

theorem flatMap_plainPieces (cs : List Char) : (plainPieces cs).flatMap (Piece.fill vars) = cs := by
  cases cs with
  | nil => rfl
  | cons c cs => simp [plainPieces, Piece.fill]

theorem ofList_fill_token (inner : List Char) :
    String.ofList (Piece.fill vars (.token inner)) =
      (Table.get? vars (Text.trim (String.ofList inner))).getD
        (String.ofList (Piece.source (.token inner))) := by
  rw [Piece.fill, Text.trim, String.toList_ofList]
  cases Table.get? vars (String.ofList (Text.trimChars inner)) with
  | none => rfl
  | some value => exact String.ofList_toList

theorem ascii_opener : ∀ c ∈ opener, c.toNat < 128 := by simp [opener]

theorem ascii_closer : ∀ c ∈ ['\x7d'], c.toNat < 128 := by simp

/-- Where no opener is closed, the search ends. -/
theorem fillSearching_of_unclosed (h : ∀ a b, cs = a ++ opener ++ b → '\x7d' ∉ b) :
    fillSearching vars (Text.encodeChars cs) = some (String.ofList cs) := by
  rw [fillSearching]
  split
  case h_1 => exact Text.decode?_encodeChars cs
  case h_2 start hstart =>
    obtain ⟨before, after, htext, rfl⟩ := exists_of_find? hstart
    obtain ⟨as, bs, rfl, rfl, rfl⟩ := Text.encodeChars_part (by decide) ascii_opener htext
    have hnone : find? closerOctets (Text.encodeChars bs) = none := by
      rw [Option.eq_none_iff_forall_ne_some]
      intro stop hstop
      obtain ⟨x, y, hbs, -⟩ := exists_of_find? hstop
      obtain ⟨inner, later, rfl, -, -⟩ := Text.encodeChars_part (by decide) ascii_closer hbs
      exact h as (inner ++ ['\x7d'] ++ later) rfl (by simp)
    have hbehind : (Text.encodeChars (as ++ opener ++ bs)).drop
        ((Text.encodeChars as).length + openerOctets.length) = Text.encodeChars bs := by
      rw [htext, ← List.length_append, List.drop_left]
    simp only [hbehind, hnone]
    exact Text.decode?_encodeChars _

/-- The search finds the cuts. -/
theorem fillSearching_of_cut {pieces : List Piece} (h : Cut cs pieces) :
    fillSearching vars (Text.encodeChars cs) =
      some (String.ofList (pieces.flatMap (Piece.fill vars))) := by
  induction h with
  | rest unclosed => rw [fillSearching_of_unclosed vars unclosed, flatMap_plainPieces]
  | @token cs pre inner later pieces text first closes others ih =>
    have hbehind : inner ++ '\x7d' :: later = inner ++ ['\x7d'] ++ later := by simp
    rw [hbehind] at text first
    have hoctets : Text.encodeChars cs = Text.encodeChars pre ++ openerOctets ++
        (Text.encodeChars inner ++ closerOctets ++ Text.encodeChars later) := by
      simp [text, openerOctets, closerOctets, ← Text.encodeChars_append]
    have hclosed : ∀ a b, inner ++ ['\x7d'] ++ later = a ++ ['\x7d'] ++ b →
        inner.length ≤ a.length := length_le_of_not_mem closes
    have hstop := find?_encodeChars (by decide) ascii_closer hclosed
    have hstart := find?_encodeChars (by decide) ascii_opener
      fun a b heq => first a b (by rwa [List.append_assoc] at heq)
    simp only [Text.encodeChars_append (inner ++ _), Text.encodeChars_append inner] at hstart
    have htoken : openerOctets ++ Text.encodeChars inner ++ closerOctets =
        Text.encodeChars (Piece.source (.token inner)) := by
      simp [Piece.source, openerOctets, closerOctets, Text.encodeChars_append]
    rw [hoctets, fillSearching_turn vars hstart hstop, htoken]
    simp [Text.decode?_encodeChars, ih, ← ofList_fill_token, flatMap_plainPieces,
      String.append_assoc]

end Search

/-! ## Filled texts and values -/

/-- What a text is cut into, and what becomes of it. -/
structure Segmented (text : String) (pieces : List Piece) : Prop where
  /-- Whatever the variables are, the pieces are found from left to right. -/
  cut : Cut text.toList pieces
  unique : ∀ others, Cut text.toList others → others = pieces
  source : pieces.flatMap Piece.source = text.toList
  /-- Plain text is kept, and a token gives the value of its trimmed name, or itself. -/
  filled : ∀ vars, fill vars text = String.ofList (pieces.flatMap (Piece.fill vars))
  unfilled : fill [] text = text
  /-- A search among the octets comes to its end and goes through no character. -/
  searched : ∀ vars, fillSearching vars (Text.encode text) = some (fill vars text)

theorem segmented_split (text : String) : Segmented text (split text.toList) := by
  have hcut := cut_split text.toList
  constructor
  case cut => exact hcut
  case unique => exact fun others h => h.eq_split
  case source => exact source_split text.toList
  case filled => exact fun vars => rfl
  case unfilled => exact fill_nil text
  case searched => exact fun vars => fillSearching_of_cut vars hcut

/-- Whether a value is another one with every string in it filled, and nothing else changed. -/
structure FilledOut (vars : Variables) (v filled : Json) : Prop where
  texts : ∀ path text, v.at? path = some (.str text) →
    filled.at? path = some (.str (fill vars text))
  arrays : ∀ path items, v.at? path = some (.arr items) →
    ∃ others, filled.at? path = some (.arr others) ∧ others.length = items.length
  objects : ∀ path fields, v.at? path = some (.obj fields) →
    ∃ others, filled.at? path = some (.obj others) ∧ others.map (·.1) = fields.map (·.1)
  /-- What is neither a string nor has parts stays as it is. -/
  others : ∀ path part, v.at? path = some part → (∀ text, part ≠ .str text) →
    (∀ items, part ≠ .arr items) → (∀ fields, part ≠ .obj fields) → filled.at? path = some part
  nothing : ∀ path, v.at? path = none → filled.at? path = none

theorem fillFields_eq_map (vars : Variables) (fields : List (String × Json)) :
    fillFields vars fields = fields.map fun f => (f.1, fillJson vars f.2) := by
  induction fields with
  | nil => rfl
  | cons field rest ih => rw [fillFields, ih, List.map_cons]

theorem filledOut_fillJson (vars : Variables) (v : Json) : FilledOut vars v (fillJson vars v) := by
  constructor
  case texts =>
    intro path text h
    rw [at?_fillJson, h, Option.map_some, fillJson]
  case arrays =>
    intro path items h
    refine ⟨fillItems vars items, ?_, ?_⟩
    · rw [at?_fillJson, h, Option.map_some, fillJson]
    · rw [fillItems_eq_map, List.length_map]
  case objects =>
    intro path fields h
    refine ⟨fillFields vars fields, ?_, ?_⟩
    · rw [at?_fillJson, h, Option.map_some, fillJson]
    · rw [fillFields_eq_map, List.map_map]
      rfl
  case others =>
    intro path part h hstr harr hobj
    rw [at?_fillJson, h, Option.map_some]
    cases part with
    | str text => exact absurd rfl (hstr text)
    | arr items => exact absurd rfl (harr items)
    | obj fields => exact absurd rfl (hobj fields)
    | null | bool | num => rfl
  case nothing =>
    intro path h
    rw [at?_fillJson, h, Option.map_none]

/-- Every text has one segmentation, which all variables are put into, and a value is filled
string by string. -/
theorem segments_of_templates :
    (∀ text, ∃ pieces, Segmented text pieces) ∧
      ∀ vars v, FilledOut vars v (fillJson vars v) := by
  constructor
  · intro text
    exact ⟨_, segmented_split text⟩
  · intro vars v
    exact filledOut_fillJson vars v

/-- A token goes to the first brace, a second opener in it is a part of its name, and one that is
not closed is plain text. -/
example : split "a$\x7bvar:b$\x7bvar:c\x7dd\x7d$\x7bvar:e".toList =
    [.literal ['a'], .token "b$\x7bvar:c".toList, .literal "d\x7d$\x7bvar:e".toList] := by
  decide +kernel

end Template

end Workflow
