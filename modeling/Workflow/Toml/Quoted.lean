import Workflow.Text.Affix
import Workflow.Toml.Scalar

/- Strings of TOML: basic ones with escapes and literal ones without, on one line or
   on several between tripled quotes. A line end inside a string is read as a line
   feed. Written, a string is literal only where it has a backslash, and goes over
   several lines where it has a line feed. -/
namespace Workflow.Toml

/-- Whether a character other than a line end may stand in a string or a comment. -/
def plain (c : Char) : Bool := c == '\t' || (' ' ≤ c && c != '\x7f')

/-- A line end at the front of a text. -/
def lineEnd? : List Char → Option (List Char)
  | '\n' :: rest => some rest
  | '\r' :: '\n' :: rest => some rest
  | _ => none

/-- The character of so many hexadecimal digits. -/
def scanCode (count : Nat) (cs : List Char) : Option (Char × List Char) :=
  let ds := cs.take count
  let n := natOfBase 16 ds
  if ds.length == count && ds.all isHex && n.isValidChar then some (Char.ofNat n, cs.drop count)
  else none

/-- The character of an escape behind its backslash. -/
def scanEscape : List Char → Option (Char × List Char)
  | 'b' :: rest => some ('\x08', rest)
  | 'f' :: rest => some ('\x0c', rest)
  | 'n' :: rest => some ('\n', rest)
  | 'r' :: rest => some ('\r', rest)
  | 't' :: rest => some ('\t', rest)
  | '"' :: rest => some ('"', rest)
  | '\\' :: rest => some ('\\', rest)
  | 'u' :: rest => scanCode 4 rest
  | 'U' :: rest => scanCode 8 rest
  | _ => none

/-- A string on one line behind its opening quote. The fuel bounds the number of characters. -/
def scanLine (quote : Char) : Nat → List Char → Option (List Char × List Char)
  | 0, _ => none
  | _, [] => none
  | fuel + 1, c :: rest =>
    if c == quote then some ([], rest)
    else if c == '\\' && quote == '"' then do
      let (e, rest) ← scanEscape rest
      let (cs, rest) ← scanLine quote fuel rest
      some (e :: cs, rest)
    else if plain c then do
      let (cs, rest) ← scanLine quote fuel rest
      some (c :: cs, rest)
    else none

/-- What follows a line end that is escaped, blanks and further line ends being passed over. -/
def skipBreak (cs : List Char) : Option (List Char) :=
  (lineEnd? (cs.dropWhile fun c => c == ' ' || c == '\t')).map skipBlank
where
  /-- What follows blanks and line ends. -/
  skipBlank : List Char → List Char
    | '\r' :: '\n' :: rest => skipBlank rest
    | c :: rest => if c == ' ' || c == '\t' || c == '\n' then skipBlank rest else c :: rest
    | [] => []

/-- A string over several lines behind its opening quotes. Up to two quotes in a row are text, and
so are two in front of the three that close it. The fuel bounds the number of characters. -/
def scanLines (quote : Char) : Nat → List Char → Option (List Char × List Char)
  | 0, _ => none
  | _, [] => none
  | fuel + 1, c :: rest =>
    if c == quote then
      let quotes := 1 + (rest.takeWhile (· == quote)).length
      if quotes < 3 then do
        let (cs, left) ← scanLines quote fuel (rest.drop (quotes - 1))
        some (List.replicate quotes quote ++ cs, left)
      else
        let taken := min quotes 5
        some (List.replicate (taken - 3) quote, rest.drop (taken - 1))
    else if c == '\\' && quote == '"' then
      match skipBreak rest with
      | some rest => scanLines quote fuel rest
      | none => do
        let (e, rest) ← scanEscape rest
        let (cs, rest) ← scanLines quote fuel rest
        some (e :: cs, rest)
    else match lineEnd? (c :: rest) with
      | some rest => do
        let (cs, rest) ← scanLines quote fuel rest
        some ('\n' :: cs, rest)
      | none =>
        if plain c then do
          let (cs, rest) ← scanLines quote fuel rest
          some (c :: cs, rest)
        else none

/-- A string on one line. -/
def scanShort : List Char → Option (String × List Char)
  | c :: rest =>
    if c == '"' || c == '\x27' then
      (scanLine c (rest.length + 1) rest).map fun (cs, rest) => (String.ofList cs, rest)
    else none
  | [] => none

/-- A string. A line end right behind tripled quotes is no part of it. -/
def scanText (cs : List Char) : Option (String × List Char) :=
  match cs with
  | a :: b :: c :: rest =>
    if (a == '"' || a == '\x27') && b == a && c == a then
      let rest := (lineEnd? rest).getD rest
      (scanLines a (rest.length + 1) rest).map fun (cs, rest) => (String.ofList cs, rest)
    else scanShort cs
  | _ => scanShort cs

/-! ## Writing -/

/-- The hexadecimal digits of a number below 65536. -/
def fourHex (n : Nat) : List Char :=
  let digit (d : Nat) : Char := Char.ofNat (if d < 10 then 48 + d else 55 + d)
  [digit (n / 4096 % 16), digit (n / 256 % 16), digit (n / 16 % 16), digit (n % 16)]

/-- A character of a basic string as written; a line feed is written as it is on several lines. -/
def writtenChar (overLines : Bool) (c : Char) : List Char :=
  if c == '\x08' then ['\\', 'b']
  else if c == '\t' then ['\\', 't']
  else if c == '\n' then (if overLines then ['\n'] else ['\\', 'n'])
  else if c == '\x0c' then ['\\', 'f']
  else if c == '\r' then ['\\', 'r']
  else if c == '"' then ['\\', '"']
  else if c == '\\' then ['\\', '\\']
  else if c < ' ' || c == '\x7f' then '\\' :: 'u' :: fourHex c.toNat
  else [c]

/-- The greatest number of apostrophes in a row. -/
def longestQuotes (cs : List Char) : Nat :=
  (cs.foldl (fun ((best, here) : Nat × Nat) c =>
    if c == '\x27' then (max best (here + 1), here + 1) else (best, 0)) (0, 0)).1

/-- Whether a string is written as a literal one: it has a backslash, and nothing that a literal
string cannot hold. -/
def isLiteral (cs : List Char) : Bool :=
  cs.contains '\\' && cs.getLast? != some '\x27' && longestQuotes cs < 3
    && cs.all fun c => c == '\n' || plain c

/-- A string as written. -/
def quote (s : String) : List Char :=
  let cs := s.toList
  let overLines := cs.contains '\n'
  if isLiteral cs then
    if overLines then "\x27\x27\x27\n".toList ++ cs ++ "\x27\x27\x27".toList
    else if cs.contains '\x27' then "\x27\x27\x27".toList ++ cs ++ "\x27\x27\x27".toList
    else '\x27' :: cs ++ ['\x27']
  else if overLines then "\"\"\"\n".toList ++ cs.flatMap (writtenChar true) ++ "\"\"\"".toList
  else '"' :: cs.flatMap (writtenChar false) ++ ['"']

end Workflow.Toml
