import Workflow.Json.Writer
import Workflow.Text.Blank
import Workflow.Text.Affix

/- Templates: text with tokens that stand for the values of variables. A token is
   an opener, a name and the first closing brace after it; an opener with no
   closing brace is plain text. The split of a text into pieces looks at no value,
   so a value that is put in is never looked at again.

   Statements: `source_split` — the pieces of a text, as written, are the text;
   `fill_eq_self` — a text stays as it is where nothing that its tokens ask for is known;
   `fillJson_nil` — where no variable is known, every value stays as it is. -/
namespace Workflow

/-- The values of the variables of a run. -/
abbrev Variables := Table String

namespace Template

/-- What a token begins with. -/
def opener : List Char := ['$', '\x7b', 'v', 'a', 'r', ':']

/-- A piece of a template: plain text, or a token with the text between its braces. -/
inductive Piece where
  | literal (text : List Char)
  | token (inner : List Char)
  deriving DecidableEq, Repr

/-- A piece as written. -/
def Piece.source : Piece → List Char
  | .literal text => text
  | .token inner => opener ++ inner ++ ['\x7d']

/-- The token at the front of a text, as the text between its braces, and what follows it. -/
def tokenAt? (cs : List Char) : Option (List Char × List Char) :=
  (Text.dropStart? opener cs).bind (Text.cut '\x7d')

theorem cut_eq {mark : Char} {cs a b : List Char} (h : Text.cut mark cs = some (a, b)) :
    cs = a ++ mark :: b := by
  induction cs generalizing a with
  | nil => simp [Text.cut] at h
  | cons c cs ih =>
    by_cases hc : c = mark
    · simp only [Text.cut, hc, if_true, Option.some.injEq, Prod.mk.injEq] at h
      obtain ⟨rfl, rfl⟩ := h
      simp [hc]
    · simp only [Text.cut, hc, if_false, Option.map_eq_some_iff] at h
      obtain ⟨⟨a', b'⟩, h', e⟩ := h
      simp only [Prod.mk.injEq] at e
      obtain ⟨rfl, rfl⟩ := e
      simp [ih h']

theorem tokenAt?_eq {cs inner rest : List Char} (h : tokenAt? cs = some (inner, rest)) :
    cs = opener ++ inner ++ '\x7d' :: rest := by
  simp only [tokenAt?, Option.bind_eq_some_iff] at h
  obtain ⟨r, hr, hc⟩ := h
  rw [Text.dropStart?_eq_some_iff.1 hr, cut_eq hc]
  simp

theorem tokenAt?_length {cs inner rest : List Char} (h : tokenAt? cs = some (inner, rest)) :
    rest.length < cs.length := by
  rw [tokenAt?_eq h]; simp; omega

/-- A character in front of pieces, as part of the plain text they begin with. -/
def prepend (c : Char) : List Piece → List Piece
  | .literal text :: rest => .literal (c :: text) :: rest
  | pieces => .literal [c] :: pieces

/-- The pieces of a text. -/
def split (cs : List Char) : List Piece :=
  match _h : tokenAt? cs with
  | some (inner, rest) => .token inner :: split rest
  | none =>
    match cs with
    | [] => []
    | c :: rest => prepend c (split rest)
termination_by cs.length
decreasing_by
  · exact tokenAt?_length _h
  · simp

/-- What a piece becomes: a token with a known name its value, any other piece itself. The name
is taken without the blanks around it. -/
def Piece.fill (vars : Variables) : Piece → List Char
  | .literal text => text
  | .token inner =>
    match Table.get? vars (String.ofList (Text.trimChars inner)) with
    | some value => value.toList
    | none => opener ++ inner ++ ['\x7d']

/-- The text of a template. -/
def fillChars (vars : Variables) (cs : List Char) : List Char :=
  (split cs).flatMap (Piece.fill vars)

/-- The text of a template. -/
def fill (vars : Variables) (text : String) : String :=
  String.ofList (fillChars vars text.toList)

theorem source_prepend (c : Char) (ps : List Piece) :
    (prepend c ps).flatMap Piece.source = c :: ps.flatMap Piece.source := by
  cases ps with
  | nil => rfl
  | cons p ps => cases p <;> simp [prepend, Piece.source]

theorem source_split (cs : List Char) : (split cs).flatMap Piece.source = cs := by
  fun_induction split cs with
  | case1 cs inner rest h ih =>
    have e := tokenAt?_eq h
    simp only [List.flatMap_cons, ih, Piece.source]
    simp [e]
  | case2 => rfl
  | case3 c rest h ih => rw [source_prepend, ih]

mutual

/-- The value with every string in it taken as a template. The names of fields are not. -/
def fillJson (vars : Variables) : Json → Json
  | .str s => .str (fill vars s)
  | .arr items => .arr (fillItems vars items)
  | .obj fields => .obj (fillFields vars fields)
  | v => v

/-- The items of an array, filled. -/
def fillItems (vars : Variables) : List Json → List Json
  | [] => []
  | v :: rest => fillJson vars v :: fillItems vars rest

/-- The fields of an object, filled. -/
def fillFields (vars : Variables) : List (String × Json) → List (String × Json)
  | [] => []
  | (name, v) :: rest => (name, fillJson vars v) :: fillFields vars rest

end

theorem get?_fillFields (vars : Variables) (fields : List (String × Json)) (name : String) :
    Table.get? (fillFields vars fields) name = (Table.get? fields name).map (fillJson vars) := by
  induction fields with
  | nil => rfl
  | cons field rest ih =>
    obtain ⟨n, v⟩ := field
    rw [fillFields, Table.get?_cons, Table.get?_cons, ih]
    split <;> rfl

/-- A field of a filled value is the field, filled. -/
theorem field?_fillJson (vars : Variables) (v : Json) (name : String) :
    (fillJson vars v).field? name = (v.field? name).map (fillJson vars) := by
  cases v with
  | obj fields => exact get?_fillFields vars fields name
  | _ => rfl

/-- The names that the tokens of a text ask for. -/
def names (text : String) : List String :=
  (split text.toList).filterMap fun
    | .literal _ => none
    | .token inner => some (String.ofList (Text.trimChars inner))

/-- A text stays as it is if nothing is known of what its tokens ask for. -/
theorem fill_eq_self {vars : Variables} {text : String}
    (h : ∀ name ∈ names text, Table.get? vars name = none) : fill vars text = text := by
  have hpieces : ∀ p ∈ split text.toList, Piece.fill vars p = Piece.source p := by
    intro p hp
    cases p with
    | literal text => rfl
    | token inner =>
      have hunknown := h _ (List.mem_filterMap.mpr ⟨_, hp, rfl⟩)
      rw [Piece.fill, hunknown]
      rfl
  unfold fill fillChars
  rw [List.flatMap_def, List.map_congr_left hpieces, ← List.flatMap_def, source_split,
    String.ofList_toList]

theorem fill_nil (text : String) : fill [] text = text := fill_eq_self fun _ _ => rfl

mutual

/-- Without variables a value is filled with nothing. -/
theorem fillJson_nil (v : Json) : fillJson [] v = v := by
  cases v with
  | str s => rw [fillJson, fill_nil]
  | arr items => rw [fillJson, fillItems_nil items]
  | obj fields => rw [fillJson, fillFields_nil fields]
  | _ => rfl

theorem fillItems_nil (items : List Json) : fillItems [] items = items := by
  cases items with
  | nil => rfl
  | cons v rest => rw [fillItems, fillJson_nil v, fillItems_nil rest]

theorem fillFields_nil (fields : List (String × Json)) : fillFields [] fields = fields := by
  cases fields with
  | nil => rfl
  | cons field rest =>
    obtain ⟨name, v⟩ := field
    rw [fillFields, fillJson_nil v, fillFields_nil rest]

end

end Template

end Workflow
