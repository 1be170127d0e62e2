import Workflow.Glob.Pattern
import Workflow.Path

/- Whether a path is of a pattern. A search that has run out of text tells so, and
   ends the searches around it: a longer piece for an earlier wildcard would only
   leave still less text. -/
namespace Workflow.Glob

/-- What came of a search. -/
inductive Found where
  | yes
  /-- Not here, but another piece for an earlier wildcard may help. -/
  | notHere
  /-- The text ended before the pattern. -/
  | exhausted
  deriving DecidableEq, Repr, Inhabited

/-- Whether a character is of a token that stands for one character, none of which but the
character itself stands for a slash. -/
def Token.fits (t : Token) (c : Char) : Bool :=
  match t with
  | .char a => a == c
  | .anyChar => c != '/'
  | .anyOf ms => c != '/' && has ms c
  | .noneOf ms => c != '/' && !has ms c
  | .run => false
  | .parts => false

/-- The search behind a run of characters without a slash, tried from the shortest on. -/
def searchRun (behind : List Char → Found) : List Char → Found
  | [] => behind []
  | c :: rest =>
    match behind (c :: rest) with
    | .notHere => if c == '/' then .notHere else searchRun behind rest
    | found => found

/-- The search behind slashes, or at the end of the text. -/
def searchSlash (behind : List Char → Found) : List Char → Found
  | [] => behind []
  | c :: rest =>
    if c == '/' then
      match behind rest with
      | .notHere => searchSlash behind rest
      | found => found
    else searchSlash behind rest

/-- The search behind any number of path parts: here, then behind each slash. -/
def searchParts (behind : List Char → Found) (cs : List Char) : Found :=
  match behind cs with
  | .notHere => searchSlash behind cs
  | found => found

/-- The search of the whole of a text. -/
def search : List Token → List Char → Found
  | [], [] => .yes
  | [], _ :: _ => .notHere
  | .run :: ts, cs => searchRun (search ts) cs
  | .parts :: ts, cs => searchParts (search ts) cs
  | _ :: _, [] => .exhausted
  | t :: ts, c :: cs => if t.fits c then search ts cs else .notHere

/-- Whether a text is of a pattern. -/
def Pattern.matchesText (p : Pattern) (text : String) : Bool := search p.tokens text.toList == .yes

/-- Whether a path is of a pattern. A relative pattern looks at the path below a root, and at no
path elsewhere. -/
def Pattern.matchesPath (p : Pattern) (root path : String) : Bool :=
  if Path.isAbsolute p.text then p.matchesText path
  else (Path.below? root path).any p.matchesText

end Workflow.Glob
