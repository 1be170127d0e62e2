import Workflow.Json.Numeral
import Workflow.Json.Quoted

/- The tokens of a JSON text. A number or a string that has a place in the grammar
   and no value is a token all the same: a document may hold one where nobody looks
   at it. -/
namespace Workflow.Json

/-- A token of a JSON text. -/
inductive Token where
  | openArray
  | closeArray
  | openObject
  | closeObject
  | comma
  | colon
  | null
  | bool (value : Bool)
  | num (value : Option Number)
  | str (text : Option String)
  deriving DecidableEq, Repr

/-- Whether a character may stand between tokens. -/
def isSpace (c : Char) : Bool := c == ' ' || c == '\n' || c == '\t' || c == '\r'

/-- The token at the front of a text that begins with none of the blanks. -/
def scanToken : List Char → Option (Token × List Char)
  | [] => none
  | '[' :: rest => some (.openArray, rest)
  | ']' :: rest => some (.closeArray, rest)
  | '\x7b' :: rest => some (.openObject, rest)
  | '\x7d' :: rest => some (.closeObject, rest)
  | ',' :: rest => some (.comma, rest)
  | ':' :: rest => some (.colon, rest)
  | 'n' :: 'u' :: 'l' :: 'l' :: rest => some (.null, rest)
  | 't' :: 'r' :: 'u' :: 'e' :: rest => some (.bool true, rest)
  | 'f' :: 'a' :: 'l' :: 's' :: 'e' :: rest => some (.bool false, rest)
  | '"' :: rest => (scanString rest).map fun (ps, rest) => (.str (stringOf? ps), rest)
  | '-' :: rest => (scanNumeral true rest).map fun (n, rest) => (.num n.value?, rest)
  | cs => (scanNumeral false cs).map fun (n, rest) => (.num n.value?, rest)

/-- The tokens of a text; the bound is on their number. -/
def tokensWithin : Nat → List Char → Option (List Token)
  | bound, cs =>
    match cs.dropWhile isSpace with
    | [] => some []
    | c :: rest =>
      match bound with
      | 0 => none
      | bound + 1 => do
        let (t, rest) ← scanToken (c :: rest)
        let ts ← tokensWithin bound rest
        some (t :: ts)

/-- The tokens of a text. -/
def tokens (cs : List Char) : Option (List Token) := tokensWithin cs.length cs

end Workflow.Json
