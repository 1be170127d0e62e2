/-
  Beginnings, ends and cuts of a text: what remains after a given beginning, and
  the two sides of the first occurrence of a given mark.

  Statements: `dropStart?_eq_some_iff` and `afterStart?_eq_some_iff` — the
  remainder is exactly what follows the beginning.
-/

namespace Workflow.Text

/-- What follows `start` in a text that begins with it. -/
def dropStart? : List Char → List Char → Option (List Char)
  | [], cs => some cs
  | _ :: _, [] => none
  | p :: ps, c :: cs => if p = c then dropStart? ps cs else none

theorem dropStart?_eq_some_iff {start cs rest : List Char} :
    dropStart? start cs = some rest ↔ cs = start ++ rest := by
  induction start generalizing cs with
  | nil => simp [dropStart?]
  | cons p ps ih =>
    cases cs with
    | nil => simp [dropStart?]
    | cons c cs =>
      by_cases h : p = c
      · simp [dropStart?, h, ih]
      · simp [dropStart?, h, Ne.symm h]

/-- What follows `start` in a text that begins with it. -/
def afterStart? (start s : String) : Option String :=
  (dropStart? start.toList s.toList).map String.ofList

theorem afterStart?_eq_some_iff {start s rest : String} :
    afterStart? start s = some rest ↔ s = start ++ rest := by
  unfold afterStart?
  rw [Option.map_eq_some_iff]
  constructor
  · rintro ⟨cs, hcs, rfl⟩
    rw [← String.toList_inj, dropStart?_eq_some_iff.mp hcs, String.toList_append,
      String.toList_ofList]
  · rintro rfl
    exact ⟨rest.toList, dropStart?_eq_some_iff.mpr String.toList_append, String.ofList_toList⟩

/-- Whether a text begins with `start`. -/
def beginsWith (start s : String) : Bool := (dropStart? start.toList s.toList).isSome

/-- Whether a text ends with `ending`. -/
def endsWith (ending s : String) : Bool :=
  (dropStart? ending.toList.reverse s.toList.reverse).isSome

/-- The text before the first `mark`, and the text after it. -/
def cut (mark : Char) : List Char → Option (List Char × List Char)
  | [] => none
  | c :: rest => if c = mark then some ([], rest) else (cut mark rest).map fun (a, b) => (c :: a, b)

/-- The pieces of a text between the occurrences of `mark`; one more than there are marks. -/
def pieces (mark : Char) : List Char → List (List Char)
  | [] => [[]]
  | c :: rest =>
    if c = mark then [] :: pieces mark rest
    else match pieces mark rest with
      | [] => [[c]]
      | p :: ps => (c :: p) :: ps

/-- The lines of a text; a line end after the last line opens no further one. -/
def lines (s : String) : List String :=
  let ps := (pieces '\n' s.toList).map String.ofList
  if ps.getLast? = some "" then ps.dropLast else ps

end Workflow.Text
