import Workflow.Json.Writer

/- The text of a JSON value over several lines: each item of an array and each field
   of an object has a line of its own, two blanks further in than the brackets.
   Empty arrays and objects stay on their line. -/
namespace Workflow.Json

/-- The beginning of a line at a depth. -/
def lineStart (depth : Nat) : List Char := '\n' :: List.replicate (2 * depth) ' '

/-- Texts one below the other, between brackets at a depth. -/
def bracketed (depth : Nat) (opening closing : Char) (texts : List (List Char)) : List Char :=
  if texts.isEmpty then [opening, closing]
  else opening :: commaSeparated (texts.map (lineStart (depth + 1) ++ ·)) ++ lineStart depth
    ++ [closing]

mutual

/-- The text of a value whose brackets stand at a depth. -/
def prettyChars (depth : Nat) : Json → List Char
  | .arr items => bracketed depth '[' ']' (prettyItems (depth + 1) items)
  | .obj fields => bracketed depth '\x7b' '\x7d' (prettyFields (depth + 1) fields)
  | v => v.chars

/-- The texts of the items of an array. -/
def prettyItems (depth : Nat) : List Json → List (List Char)
  | [] => []
  | v :: rest => prettyChars depth v :: prettyItems depth rest

/-- The texts of the fields of an object. -/
def prettyFields (depth : Nat) : List (String × Json) → List (List Char)
  | [] => []
  | (name, v) :: rest =>
    (quote name ++ ':' :: ' ' :: prettyChars depth v) :: prettyFields depth rest

end

/-- The text of a value over several lines. -/
def pretty (v : Json) : String := String.ofList (prettyChars 0 v)

end Workflow.Json
