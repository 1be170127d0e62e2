import Workflow.Text.Affix

/- Words of a shell command. In single quotes every character stands for itself. In
   double quotes a dollar sign and a grave accent begin a substitution, and a
   backslash takes the meaning from these two, from the double quote, from itself
   and from a line end, which it removes; in front of anything else it stays. -/
namespace Workflow.Shell

/-- A part of a word, and whether it stands in quotes. -/
inductive Part where
  | char (c : Char) (quoted : Bool)
  /-- An opening quote, which keeps a word that would be empty. -/
  | quote
  /-- The value of a variable, or another text when it has none or an empty one. -/
  | variable (name default : String) (quoted : Bool)
  /-- The output of a command. -/
  | command (script : String) (quoted : Bool)
  /-- A substitution that means nothing. -/
  | bad
  deriving DecidableEq, Repr, Inhabited

/-- A word. -/
abbrev Word := List Part

/-- What remains to be read. -/
abbrev Rest := List Char

/-- The characters up to a mark that is not nested, and what follows it. `depth` is the number of
openings that are still to be closed. -/
def takeNested (opening closing : Char) : Nat → List Char → Option (List Char × Rest)
  | _, [] => none
  | depth, c :: rest =>
    if c == closing then
      match depth with
      | 0 => some ([], rest)
      | d + 1 => (takeNested opening closing d rest).map fun (cs, r) => (c :: cs, r)
    else
      (takeNested opening closing (if c == opening then depth + 1 else depth) rest).map
        fun (cs, r) => (c :: cs, r)

/-- Whether a character may stand in the name of a variable. -/
def isNameChar (c : Char) : Bool := c.isAlphanum || c == '_'

/-- Whether a character may begin the name of a variable. -/
def beginsName (c : Char) : Bool := c.isAlpha || c == '_'

/-- Whether a character is the name of a variable that the shell keeps. -/
def isSpecialName (c : Char) : Bool := "?$#@*!-".toList.contains c || c.isDigit

/-- Whether characters are the name of a variable. -/
def isName (cs : List Char) : Bool :=
  match cs with
  | [] => false
  | [c] => beginsName c || isSpecialName c
  | c :: rest => beginsName c && rest.all isNameChar

/-- The variable that characters between braces ask for. -/
def bracedPart (quoted : Bool) (cs : List Char) : Part :=
  let name := cs.takeWhile isNameChar
  let name := if name.isEmpty then cs.take 1 else name
  if !isName name then .bad
  else match cs.drop name.length with
    | [] => .variable (String.ofList name) "" quoted
    | ':' :: '-' :: default => .variable (String.ofList name) (String.ofList default) quoted
    | _ => .bad

/-- The substitution that begins behind a dollar sign, and what follows it; none when the dollar
sign stands for itself. -/
def afterDollar? (quoted : Bool) : List Char → Option (Part × Rest)
  | '\x7b' :: rest =>
    match takeNested '\x7b' '\x7d' 0 rest with
    | some (cs, rest) => some (bracedPart quoted cs, rest)
    | none => some (.bad, [])
  | '(' :: rest =>
    match takeNested '(' ')' 0 rest with
    | some (cs, rest) => some (.command (String.ofList cs) quoted, rest)
    | none => some (.bad, [])
  | c :: rest =>
    if beginsName c then
      some (.variable (String.ofList (c :: rest.takeWhile isNameChar)) "" quoted,
        rest.dropWhile isNameChar)
    else if isSpecialName c then some (.variable (String.singleton c) "" quoted, rest)
    else none
  | [] => none

/-- Whether a backslash takes the meaning from a character in double quotes. -/
def escapable (c : Char) : Bool := c == '$' || c == '\x60' || c == '"' || c == '\\'

/-- The parts up to the closing double quote, and what follows it; none when it is missing. The
bound is on the number of parts. -/
def readDouble : Nat → List Char → Option (Word × Rest)
  | 0, _ => none
  | _, [] => none
  | _ + 1, '"' :: rest => some ([], rest)
  | n + 1, '\\' :: c :: rest =>
    if c == '\n' then readDouble n rest
    else if escapable c then (readDouble n rest).map fun (ps, r) => (.char c true :: ps, r)
    else (readDouble n (c :: rest)).map fun (ps, r) => (.char '\\' true :: ps, r)
  | n + 1, '\x60' :: rest =>
    match Text.cut '\x60' rest with
    | some (cs, rest) =>
      (readDouble n rest).map fun (ps, r) => (.command (String.ofList cs) true :: ps, r)
    | none => none
  | n + 1, '$' :: rest =>
    match afterDollar? true rest with
    | some (part, rest) => (readDouble n rest).map fun (ps, r) => (part :: ps, r)
    | none => (readDouble n rest).map fun (ps, r) => (.char '$' true :: ps, r)
  | n + 1, c :: rest => (readDouble n rest).map fun (ps, r) => (.char c true :: ps, r)

/-- Whether a character ends a word that it is not quoted in. -/
def endsWord (c : Char) : Bool := " \t\n;&|<>()".toList.contains c

/-- The parts of the word at the front of characters, and what follows it; none when a quote is
not closed. The bound is on the number of pieces. -/
def readWord : Nat → List Char → Option (Word × Rest)
  | 0, _ => none
  | _, [] => some ([], [])
  | n + 1, '\x27' :: rest =>
    match Text.cut '\x27' rest with
    | some (cs, rest) =>
      (readWord n rest).map fun (ps, r) => (.quote :: cs.map (Part.char · true) ++ ps, r)
    | none => none
  | n + 1, '"' :: rest =>
    match readDouble (rest.length + 1) rest with
    | some (inner, rest) => (readWord n rest).map fun (ps, r) => (.quote :: inner ++ ps, r)
    | none => none
  | n + 1, '\\' :: c :: rest =>
    if c == '\n' then readWord n rest
    else (readWord n rest).map fun (ps, r) => (.char c true :: ps, r)
  | n + 1, '\x60' :: rest =>
    match Text.cut '\x60' rest with
    | some (cs, rest) =>
      (readWord n rest).map fun (ps, r) => (.command (String.ofList cs) false :: ps, r)
    | none => none
  | n + 1, '$' :: rest =>
    match afterDollar? false rest with
    | some (part, rest) => (readWord n rest).map fun (ps, r) => (part :: ps, r)
    | none => (readWord n rest).map fun (ps, r) => (.char '$' false :: ps, r)
  | n + 1, c :: rest =>
    if endsWord c then some ([], c :: rest)
    else (readWord n rest).map fun (ps, r) => (.char c false :: ps, r)

/-- The characters of a part that is no substitution. -/
def Part.literal? : Part → Option (List Char)
  | .char c _ => some [c]
  | .quote => some []
  | _ => none

/-- The text of a word without substitutions. -/
def literal? (w : Word) : Option String :=
  (w.mapM Part.literal?).map fun cs => String.ofList cs.flatten

end Workflow.Shell
