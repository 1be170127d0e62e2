/- Glob patterns: text in which a question mark stands for a character, brackets for
   a character of a class, an asterisk for any characters of one path part, and two
   asterisks that fill a path part for any number of parts. -/
namespace Workflow.Glob

/-- A member of a class of characters. -/
inductive Member where
  | one (c : Char)
  | range (first last : Char)
  deriving DecidableEq, Repr, Inhabited

/-- Whether a class has a character. -/
def has (members : List Member) (c : Char) : Bool :=
  members.any fun m => match m with
    | .one a => a == c
    | .range a b => a ≤ c && c ≤ b

/-- A piece of a pattern. -/
inductive Token where
  | char (c : Char)
  | anyChar
  | anyOf (members : List Member)
  | noneOf (members : List Member)
  /-- Any characters that are no slash. -/
  | run
  /-- Any number of path parts. -/
  | parts
  deriving DecidableEq, Repr, Inhabited

/-- A pattern, with the text that it was written as. -/
structure Pattern where
  text : String
  tokens : List Token
  deriving DecidableEq, Repr, Inhabited

/-- What is wrong with a pattern. -/
inductive Fault where
  | tooManyStars
  | starsNotAlone
  | badClass
  deriving DecidableEq, Repr, Inhabited

/-- A fault and the index of the character at which it was found. -/
structure PatternError where
  position : Nat
  fault : Fault
  deriving DecidableEq, Repr, Inhabited

/-- The words for a fault. -/
def Fault.words : Fault → String
  | .tooManyStars => "wildcards are either regular \x60*\x60 or recursive \x60**\x60"
  | .starsNotAlone => "recursive wildcards must form a single path component"
  | .badClass => "invalid range pattern"

/-- The words for an error. -/
def PatternError.message (e : PatternError) : String :=
  s!"Pattern syntax error near position {e.position}: {e.fault.words}"

/-- The members that the text between brackets lists. -/
def members : List Char → List Member
  | a :: '-' :: b :: rest => .range a b :: members rest
  | a :: rest => .one a :: members rest
  | [] => []

/-- The text up to the first closing bracket behind the first character, and what follows it. A
bracket at the front is a member. -/
def cutClass : List Char → Option (List Char × List Char)
  | [] => none
  | c :: rest =>
    match rest.idxOf? ']' with
    | none => none
    | some n => some (c :: rest.take n, rest.drop (n + 1))

/-- The class behind an opening bracket, and what follows it. -/
def scanClass : List Char → Option (Token × List Char)
  | '!' :: rest => (cutClass rest).map fun (inner, rest) => (.noneOf (members inner), rest)
  | rest => (cutClass rest).map fun (inner, rest) => (.anyOf (members inner), rest)

/-- The tokens with one for any number of parts added, unless one of several ends in it. -/
def addParts (tokens : List Token) : List Token :=
  if 1 < tokens.length && tokens.getLast? == some .parts then tokens else tokens ++ [.parts]

/-- The tokens of a text behind the given tokens, the text beginning at a position behind the
given character. The fuel bounds the number of calls. -/
def scan : Nat → Nat → Option Char → List Token → List Char →
    Except PatternError (List Token)
  | 0, _, _, tokens, _ => .ok tokens
  | _ + 1, _, _, tokens, [] => .ok tokens
  | fuel + 1, pos, before, tokens, c :: rest =>
    match c with
    | '?' => scan fuel (pos + 1) (some c) (tokens ++ [.anyChar]) rest
    | '*' =>
      let more := (rest.takeWhile (· == '*')).length
      let rest := rest.drop more
      if 1 < more then .error ⟨pos + 2, .tooManyStars⟩
      else if more == 0 then scan fuel (pos + 1) (some c) (tokens ++ [.run]) rest
      else if pos != 0 && before != some '/' then .error ⟨pos - 1, .starsNotAlone⟩
      else match rest with
        | [] => .ok (addParts tokens)
        | '/' :: rest => scan fuel (pos + 3) (some '/') (addParts tokens) rest
        | _ => .error ⟨pos + 2, .starsNotAlone⟩
    | '[' =>
      match scanClass rest with
      | none => .error ⟨pos, .badClass⟩
      | some (token, left) =>
        scan fuel (pos + 1 + (rest.length - left.length)) (some ']') (tokens ++ [token]) left
    | c => scan fuel (pos + 1) (some c) (tokens ++ [.char c]) rest

/-- The pattern of a text. -/
def Pattern.parse (text : String) : Except PatternError Pattern :=
  (scan (text.toList.length + 1) 0 none [] text.toList).map fun tokens => ⟨text, tokens⟩

end Workflow.Glob
