import Workflow.Template

/- Where the tokens of a text stand, and what is put in their places. A token is read from
   its opener to the first closing brace, so one that stands behind text whose own openers
   are all closed is a token of the whole text, and the texts on both sides of it are filled
   as if they stood alone (`fillChars_token`). A string in a value is reached by a path, and
   filling the value fills the string at the end of the path (`at?_fillJson`).

   Names are asked for without the blanks around them, so no token asks for a name that has
   such blanks (`trim_of_mem_names`). -/
namespace Workflow

/-! ## Trimmed texts -/

namespace Text

theorem mem_dropWhile {p : Char → Bool} {c : Char} {cs : List Char} (hc : c ∈ cs)
    (hp : p c = false) : c ∈ cs.dropWhile p := by
  induction cs with
  | nil => cases hc
  | cons d cs ih =>
    rw [List.dropWhile_cons]
    split
    case isFalse => exact hc
    case isTrue hd =>
      rcases List.mem_cons.mp hc with rfl | hc
      · exact absurd hd (by simp [hp])
      · exact ih hc

/-- What is not blank is not trimmed off. -/
theorem mem_trimChars {c : Char} {cs : List Char} (hc : c ∈ cs) (hblank : isBlank c = false) :
    c ∈ trimChars cs := by
  unfold trimChars trimEndChars
  rw [List.mem_reverse]
  exact mem_dropWhile (List.mem_reverse.mpr (mem_dropWhile hc hblank)) hblank

theorem dropWhile_dropWhile (p : Char → Bool) (cs : List Char) :
    (cs.dropWhile p).dropWhile p = cs.dropWhile p := by
  induction cs with
  | nil => rfl
  | cons c cs ih =>
    by_cases hc : p c = true
    · simp only [List.dropWhile_cons, hc, if_true, ih]
    · simp [hc]

/-- Blanks at the end of a text do not hide what it begins with. -/
theorem trimStartChars_trimEndChars {cs : List Char} (h : trimStartChars cs = cs) :
    trimStartChars (trimEndChars cs) = trimEndChars cs := by
  cases htrimmed : trimEndChars cs with
  | nil => rfl
  | cons c rest =>
    have hsuffix : cs.reverse.dropWhile isBlank <:+ cs.reverse := List.dropWhile_suffix _
    have hfirst : trimEndChars cs <+: cs := by
      simpa [trimEndChars] using List.reverse_prefix.mpr hsuffix
    rw [htrimmed] at hfirst
    obtain ⟨later, rfl⟩ := hfirst
    have hc : isBlank c = false := by
      cases hblank : isBlank c with
      | false => rfl
      | true =>
        have hshort := congrArg List.length h
        have hle := ((rest ++ later).dropWhile_suffix isBlank).length_le
        simp only [trimStartChars, List.cons_append, List.dropWhile_cons, hblank, if_true,
          List.length_cons] at hshort
        omega
    simp [trimStartChars, hc]

/-- A trimmed text stays as it is when it is trimmed again. -/
theorem trimChars_trimChars (cs : List Char) : trimChars (trimChars cs) = trimChars cs := by
  have hstart : trimStartChars (trimChars cs) = trimChars cs :=
    trimStartChars_trimEndChars (dropWhile_dropWhile isBlank cs)
  have hend : trimEndChars (trimChars cs) = trimChars cs := by
    simp only [trimChars, trimEndChars, List.reverse_reverse, dropWhile_dropWhile]
  rw [trimChars, hstart, hend]

end Text

/-! ## Tokens in a text -/

namespace Template

/-- Whether every opener in a text is closed in it, so that what follows stands in none of its
tokens. -/
def Closed (cs : List Char) : Prop := ∀ a b, cs = a ++ opener ++ b → '\x7d' ∈ b

theorem closed_of_not_mem {cs : List Char} (h : '$' ∉ cs) : Closed cs := by
  rintro a b rfl
  exact absurd (by simp [opener]) h

theorem Closed.of_append (cs : List Char) {rest : List Char} (h : Closed (cs ++ rest)) :
    Closed rest := by
  intro a b hsplit
  exact h (cs ++ a) b (by simp [hsplit])

theorem cut_append {mark : Char} {cs a b : List Char} (h : Text.cut mark cs = some (a, b))
    (rest : List Char) : Text.cut mark (cs ++ rest) = some (a, b ++ rest) := by
  induction cs generalizing a with
  | nil => cases h
  | cons c cs ih =>
    by_cases hc : c = mark
    · simp only [Text.cut, hc, if_true, Option.some.injEq, Prod.mk.injEq] at h
      obtain ⟨rfl, rfl⟩ := h
      simp [Text.cut, hc]
    · simp only [Text.cut, hc, if_false, Option.map_eq_some_iff] at h
      obtain ⟨⟨a', b'⟩, h', e⟩ := h
      obtain ⟨rfl, rfl⟩ := Prod.mk.inj e
      simp [Text.cut, hc, ih h']

theorem cut_of_not_mem {mark : Char} {cs : List Char} (h : mark ∉ cs) (rest : List Char) :
    Text.cut mark (cs ++ mark :: rest) = some (cs, rest) := by
  induction cs with
  | nil => simp [Text.cut]
  | cons c cs ih =>
    have hc : ¬ c = mark := fun heq => h (heq ▸ List.mem_cons_self)
    simp [Text.cut, hc, ih fun hmem => h (List.mem_cons_of_mem c hmem)]

theorem cut_of_mem {mark : Char} {cs : List Char} (h : mark ∈ cs) :
    ∃ a b, Text.cut mark cs = some (a, b) := by
  induction cs with
  | nil => cases h
  | cons c cs ih =>
    by_cases hc : c = mark
    · exact ⟨[], cs, by simp [Text.cut, hc]⟩
    · obtain ⟨a, b, hcut⟩ := ih ((List.mem_cons.mp h).resolve_left (Ne.symm hc))
      exact ⟨c :: a, b, by simp [Text.cut, hc, hcut]⟩

theorem tokenAt?_opener (cs : List Char) : tokenAt? (opener ++ cs) = Text.cut '\x7d' cs := by
  simp [tokenAt?, Text.dropStart?_eq_some_iff.mpr rfl]

theorem tokenAt?_append {cs inner after : List Char} (h : tokenAt? cs = some (inner, after))
    (rest : List Char) : tokenAt? (cs ++ rest) = some (inner, after ++ rest) := by
  obtain ⟨r, hr, hcut⟩ := Option.bind_eq_some_iff.mp h
  rw [Text.dropStart?_eq_some_iff.mp hr, List.append_assoc, tokenAt?_opener]
  exact cut_append hcut rest

/-- A token at the front of a text is read as it is written. -/
theorem tokenAt?_source {inner : List Char} (h : '\x7d' ∉ inner) (rest : List Char) :
    tokenAt? (Piece.source (.token inner) ++ rest) = some (inner, rest) := by
  have hwritten : Piece.source (.token inner) ++ rest = opener ++ (inner ++ '\x7d' :: rest) := by
    simp [Piece.source]
  rw [hwritten, tokenAt?_opener]
  exact cut_of_not_mem h rest

/-- An opener is read as a whole or not at all: where a text holds the first characters of one at
its end, what follows is not the rest of it, if it is an opener itself. -/
theorem tokenAt?_cons_append {c : Char} {cs : List Char} (h : Closed (c :: cs))
    (hnone : tokenAt? (c :: cs) = none) (rest : List Char) :
    tokenAt? (c :: cs ++ (opener ++ rest)) = none := by
  rw [tokenAt?, Option.bind_eq_none_iff]
  intro r hr
  have hstarts := Text.dropStart?_eq_some_iff.mp hr
  rcases List.append_eq_append_iff.mp hstarts with ⟨inner, hopener, hrest⟩ | ⟨inner, hcs, -⟩
  · exfalso
    -- the opener would begin anew inside itself
    cases inner with
    | nil =>
      rw [List.append_nil] at hopener
      have hclosed := h [] [] (by simp [hopener])
      cases hclosed
    | cons d inner =>
      have hd : d = '$' := by
        simp only [opener, List.cons_append, List.cons.injEq] at hrest
        exact hrest.1.symm
      have hmem : '$' ∈ opener.tail := by
        have htail := congrArg List.tail hopener
        simp only [List.cons_append, List.tail_cons] at htail
        rw [htail, hd]
        simp
      revert hmem
      decide
  · obtain ⟨a, b, hcut⟩ := cut_of_mem (h [] inner (by simpa using hcs))
    rw [hcs, tokenAt?_opener, hcut] at hnone
    cases hnone

variable (vars : Variables)

/-- The token of a name stands for the value of the trimmed name. -/
theorem fill_token_of_known {name value : String}
    (h : Table.get? vars (Text.trim name) = some value) :
    Piece.fill vars (.token name.toList) = value.toList := by
  unfold Text.trim at h
  rw [Piece.fill, h]

theorem fill_token_of_unknown {name : String} (h : Table.get? vars (Text.trim name) = none) :
    Piece.fill vars (.token name.toList) = Piece.source (.token name.toList) := by
  unfold Text.trim at h
  rw [Piece.fill, h]
  rfl

theorem fillChars_of_token {cs inner rest : List Char} (h : tokenAt? cs = some (inner, rest)) :
    fillChars vars cs = Piece.fill vars (.token inner) ++ fillChars vars rest := by
  unfold fillChars
  rw [split]
  split
  · rename_i heq
    rw [h] at heq
    cases heq
    rfl
  · rename_i heq
    rw [h] at heq
    cases heq

theorem fill_prepend (c : Char) (pieces : List Piece) :
    (prepend c pieces).flatMap (Piece.fill vars) = c :: pieces.flatMap (Piece.fill vars) := by
  cases pieces with
  | nil => rfl
  | cons piece rest => cases piece <;> rfl

theorem fillChars_cons {c : Char} {cs : List Char} (h : tokenAt? (c :: cs) = none) :
    fillChars vars (c :: cs) = c :: fillChars vars cs := by
  unfold fillChars
  rw [split]
  split
  · rename_i heq
    rw [h] at heq
    cases heq
  · exact fill_prepend vars c (split cs)

theorem fillChars_nil : fillChars vars [] = [] := by
  have hsplit : split [] = [] := by
    rw [split]
    rfl
  rw [fillChars, hsplit]
  rfl

/-- A closed text in front of an opener is filled as if it stood alone. -/
theorem fillChars_append {pre : List Char} (h : Closed pre) (rest : List Char) :
    fillChars vars (pre ++ (opener ++ rest)) =
      fillChars vars pre ++ fillChars vars (opener ++ rest) := by
  fun_induction split pre with
  | case1 pre inner after htoken ih =>
    have hafter : Closed after := by
      refine .of_append (opener ++ inner ++ ['\x7d']) ?_
      simpa [tokenAt?_eq htoken] using h
    rw [fillChars_of_token vars htoken, fillChars_of_token vars (tokenAt?_append htoken _),
      ih hafter, List.append_assoc]
  | case2 => rw [fillChars_nil, List.nil_append, List.nil_append]
  | case3 c cs hnone ih =>
    have hrest := ih (Closed.of_append [c] h)
    calc fillChars vars (c :: cs ++ (opener ++ rest))
      _ = c :: fillChars vars (cs ++ (opener ++ rest)) :=
        fillChars_cons vars (tokenAt?_cons_append h hnone rest)
      _ = c :: fillChars vars cs ++ fillChars vars (opener ++ rest) := by rw [hrest]; rfl
      _ = fillChars vars (c :: cs) ++ fillChars vars (opener ++ rest) := by
        rw [fillChars_cons vars hnone]

/-- **A token behind closed text** is filled by itself, and so are the texts on both sides. -/
theorem fillChars_token {pre inner : List Char} (h : Closed pre) (hinner : '\x7d' ∉ inner)
    (post : List Char) :
    fillChars vars (pre ++ Piece.source (.token inner) ++ post) =
      fillChars vars pre ++ Piece.fill vars (.token inner) ++ fillChars vars post := by
  have hwritten : Piece.source (.token inner) ++ post = opener ++ (inner ++ '\x7d' :: post) := by
    simp [Piece.source]
  rw [List.append_assoc, hwritten, fillChars_append vars h, ← hwritten,
    fillChars_of_token vars (tokenAt?_source hinner post), List.append_assoc]

/-- The names that tokens ask for have no blanks around them. -/
theorem trim_of_mem_names {name text : String} (h : name ∈ names text) : Text.trim name = name := by
  obtain ⟨piece, -, hpiece⟩ := List.mem_filterMap.mp h
  cases piece with
  | literal text => cases hpiece
  | token inner =>
    cases hpiece
    simp [Text.trim, Text.trimChars_trimChars]

end Template

/-! ## Strings in a value -/

namespace Json

/-- A step on the way to a part of a value. -/
inductive Key where
  | field (name : String)
  | item (index : Nat)
  deriving DecidableEq, Repr

/-- The part of a value that a step leads to. -/
def child? : Json → Key → Option Json
  | .obj fields, .field name => Table.get? fields name
  | .arr items, .item index => items[index]?
  | _, _ => none

/-- The part of a value at the end of a path. -/
def at? (v : Json) : List Key → Option Json
  | [] => some v
  | key :: path => (v.child? key).bind (·.at? path)

end Json

namespace Template

theorem fillItems_eq_map (vars : Variables) (items : List Json) :
    fillItems vars items = items.map (fillJson vars) := by
  induction items with
  | nil => rfl
  | cons v rest ih => rw [fillItems, ih, List.map_cons]

theorem child?_fillJson (vars : Variables) (v : Json) (key : Json.Key) :
    (fillJson vars v).child? key = (v.child? key).map (fillJson vars) := by
  cases v with
  | arr items =>
    cases key with
    | field name => rfl
    | item index =>
      rw [fillJson, fillItems_eq_map]
      exact List.getElem?_map ..
  | obj fields =>
    cases key with
    | field name => exact get?_fillFields vars fields name
    | item index => rfl
  | _ => rfl

/-- A part of a filled value is the part, filled. -/
theorem at?_fillJson (vars : Variables) (v : Json) (path : List Json.Key) :
    (fillJson vars v).at? path = (v.at? path).map (fillJson vars) := by
  induction path generalizing v with
  | nil => rfl
  | cons key path ih =>
    rw [Json.at?, Json.at?, child?_fillJson]
    cases v.child? key with
    | none => rfl
    | some part => exact ih part

end Template

end Workflow
