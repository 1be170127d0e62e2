import Workflow.Json.Numeral
import Workflow.Json.Quoted

/- The compact text of a JSON value: no blanks, and the fields of an object in
   their order. -/

namespace Workflow.Json

/-- The texts one after the other, with commas between them. -/
def commaSeparated : List (List Char) → List Char
  | [] => []
  | [t] => t
  | t :: rest => t ++ ',' :: commaSeparated rest

mutual

/-- The compact text of a value. -/
def chars : Json → List Char
  | .null => "null".toList
  | .bool true => "true".toList
  | .bool false => "false".toList
  | .num n => n.text
  | .str s => quote s
  | .arr items => '[' :: commaSeparated (itemTexts items) ++ [']']
  | .obj fields => '\x7b' :: commaSeparated (fieldTexts fields) ++ ['\x7d']

/-- The compact texts of the items of an array. -/
def itemTexts : List Json → List (List Char)
  | [] => []
  | v :: rest => chars v :: itemTexts rest

/-- The compact texts of the fields of an object. -/
def fieldTexts : List (String × Json) → List (List Char)
  | [] => []
  | (name, v) :: rest => (quote name ++ ':' :: chars v) :: fieldTexts rest

end

/-- The compact text of a value. -/
def render (v : Json) : String := String.ofList v.chars

/-- The text a value stands for where plain text is needed: a string as it is, and the compact
text of any other value. -/
def plainText : Json → String
  | .str s => s
  | v => v.render

end Workflow.Json
