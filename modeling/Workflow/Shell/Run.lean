import Workflow.Shell.Script
import Workflow.Shell.Utility

/- Running scripts. Words are expanded, redirections opened, and the commands of a
   pipe run one after the other, each with what the one before it wrote. A
   substitution that means nothing ends the session. -/
namespace Workflow.Shell

/-- A character of an expanded word, and whether it was quoted. -/
abbrev Mark := Char × Bool

/-- How a command inside a word is run: the session after it has what it wrote. -/
abbrev Substitute := Session → String → Session

/-- A part expanded; none when it means nothing. -/
def expandPart (sub : Substitute) (s : Session) : Part → Option (List Mark)
  | .char c quoted => some [(c, quoted)]
  | .quote => some []
  | .variable name default quoted =>
    let v := s.value name
    some ((if v.isEmpty then default else v).toList.map (·, quoted))
  | .command script quoted =>
    let out := (Text.decodeLossy (sub s script).out).toList
    some ((out.reverse.dropWhile (· == '\n')).reverse.map (·, quoted))
  | .bad => none

/-- Whether a part is split at blanks after it was expanded. -/
def Part.splits : Part → Bool
  | .variable _ _ quoted => !quoted
  | .command _ quoted => !quoted
  | _ => false

/-- The fields that marks add to those read so far, the last of which is open if there is one. -/
def addMarks (splits : Bool) (acc : List (List Mark) × Option (List Mark)) (m : Mark) :
    List (List Mark) × Option (List Mark) :=
  if splits && (m.1 == ' ' || m.1 == '\t' || m.1 == '\n') then
    match acc.2 with
    | some field => (acc.1 ++ [field], none)
    | none => acc
  else (acc.1, some (acc.2.getD [] ++ [m]))

/-- The fields of a word. -/
def fieldsFrom (sub : Substitute) (s : Session) :
    List (List Mark) × Option (List Mark) → Word → Option (List (List Mark))
  | acc, [] => some (acc.1 ++ acc.2.toList)
  | acc, p :: rest => do
    let marks ← expandPart sub s p
    let acc := if p = .quote then (acc.1, some (acc.2.getD [])) else acc
    let opens := match p with
      | .variable _ _ true => true
      | .command _ true => true
      | _ => false
    let acc := if opens then (acc.1, some (acc.2.getD [])) else acc
    fieldsFrom sub s (marks.foldl (addMarks p.splits) acc) rest

/-- Whether a name is of a pattern, in which an asterisk that is not quoted stands for any
characters and a question mark for one. -/
def nameMatches : List Mark → List Char → Bool
  | [], [] => true
  | ('*', false) :: ps, [] => nameMatches ps []
  | ('*', false) :: ps, c :: cs => nameMatches ps (c :: cs) || nameMatches (('*', false) :: ps) cs
  | ('?', false) :: ps, _ :: cs => nameMatches ps cs
  | (p, _) :: ps, c :: cs => p == c && nameMatches ps cs
  | _, _ => false
termination_by ps cs => (ps.length, cs.length)

/-- The texts that a field stands for: the names in the current directory that are of its pattern,
if there are any. -/
def namesOf (s : Session) (field : List Mark) : List String :=
  let text := String.ofList (field.map (·.1))
  if field.any (fun m => !m.2 && (m.1 == '*' || m.1 == '?')) && !field.any (·.1 == '/') then
    match (shownNames s.tree s.tree.here false).filter fun n => nameMatches field n.toList with
    | [] => [text]
    | names => names
  else [text]

/-- The texts of words. -/
def expand (sub : Substitute) (s : Session) (ws : List Word) : Option (List String) :=
  (ws.mapM fun w => (fieldsFrom sub s ([], none) w).map (·.flatMap (namesOf s))).map List.flatten

/-- Where a stream of a command goes. -/
inductive Outlet where
  | out
  | errors
  | file (path : String)
  | nowhere
  deriving DecidableEq, Repr, Inhabited

/-- The streams of a command. -/
structure Streams where
  input : Text.Octets
  out : Outlet := .out
  errors : Outlet := .errors
  deriving Repr, Inhabited

/-- The streams with one led elsewhere. -/
def Streams.lead (streams : Streams) (stream : Nat) (outlet : Outlet) : Streams :=
  if stream = 1 then { streams with out := outlet }
  else if stream = 2 then { streams with errors := outlet }
  else streams

/-- A file that a stream is led to, made empty unless it is to be added to; none when it cannot be
written. -/
def openFile (s : Session) (path : String) (keep : Bool) : Option (Session × Outlet) :=
  if path = "/dev/null" then some (s, .nowhere)
  else match if keep then s.tree.content? path else none with
    | some _ => some (s, .file path)
    | none => (s.tree.write? path []).map fun tree => ({ s with tree }, .file path)

/-- One redirection made; none when it cannot be. -/
def redirect (s : Session) (streams : Streams) (sign : Sign) (target : String) :
    Option (Session × Streams) :=
  match sign with
  | .input _ =>
    if target = "/dev/null" then some (s, { streams with input := [] })
    else (s.tree.content? target).map fun input => (s, { streams with input })
  | .output n => (openFile s target false).map fun (s, o) => (s, streams.lead n o)
  | .append n => (openFile s target true).map fun (s, o) => (s, streams.lead n o)
  | .duplicate n =>
    match target with
    | "1" => some (s, streams.lead n streams.out)
    | "2" => some (s, streams.lead n streams.errors)
    | _ => none
  | _ => none

/-- Redirections made one after the other. -/
def redirectAll (sub : Substitute) (s : Session) (streams : Streams) :
    List Redirection → Option (Session × Streams)
  | [] => some (s, streams)
  | r :: rest => do
    let target ← (expand sub s [r.target]).bind List.head?
    let (s, streams) ← redirect s streams r.sign target
    redirectAll sub s streams rest

/-- The session with what was written on a stream led to its outlet. -/
def deliver (s : Session) (written : Text.Octets) : Outlet → Session
  | .out => { s with out := s.out ++ written }
  | .errors => { s with errors := s.errors ++ written }
  | .nowhere => s
  | .file path =>
    match s.tree.write? path ((s.tree.content? path).getD [] ++ written) with
    | some tree => { s with tree }
    | none => s

/-- Whether a word assigns a variable: a name and an equals sign, none of them quoted. -/
def isAssignment (w : Word) : Bool :=
  let name := w.takeWhile fun p => match p with
    | .char c false => isNameChar c
    | _ => false
  match name.head?, w.drop name.length with
  | some (.char c _), .char '=' false :: _ => beginsName c
  | _, _ => false

/-- The text of a word that is not split. -/
def expandWhole (sub : Substitute) (s : Session) (w : Word) : Option String :=
  (w.mapM (expandPart sub s)).map fun marks => String.ofList (marks.flatten.map (·.1))

/-- The session after a command that reads some input. -/
def runCommand (sub : Substitute) (s : Session) (input : Text.Octets) (c : Command) : Session :=
  let assignments := c.words.takeWhile isAssignment
  match assignments.mapM (expandWhole sub s),
      expand sub s (c.words.drop assignments.length) with
  | some assigned, some words =>
    match redirectAll sub s { input } c.redirections with
    | none => s.complain "sh: 1: cannot open" 2
    | some (s, streams) =>
      match words with
      | [] => (assigned.foldl assign s).done 0
      | name :: args =>
        let ran := utility { s with out := [], errors := [] } streams.input name args
        deliver (deliver { ran with out := s.out, errors := s.errors } ran.out streams.out)
          ran.errors streams.errors
  | _, _ => (s.complain "sh: 1: Bad substitution" 2).leave 2

/-- The session after the commands of a pipe, of which each has a session of its own. -/
def runPipe (sub : Substitute) (s : Session) (input : Text.Octets) : Pipe → Session
  | [] => s
  | c :: rest =>
    let ran := runCommand sub { s with out := [] } input c
    let s := { s with
      tree := { ran.tree with here := s.tree.here }, errors := ran.errors, status := ran.code }
    if rest.isEmpty then { s with out := s.out ++ ran.out } else runPipe sub s ran.out rest

/-- Whether a pipe is run after a status. -/
def Junction.holds (j : Junction) (status : Nat) : Bool :=
  match j with
  | .always => true
  | .onSuccess => status = 0
  | .onFailure => status != 0

/-- A pipe without the exclamation mark in front of it, and whether there was one. -/
def stripNot : Pipe → Pipe × Bool
  | { words := [.char '!' false] :: words, redirections } :: rest =>
    ({ words, redirections } :: rest, true)
  | pipe => (pipe, false)

/-- The session after one pipe of a script. An exclamation mark turns its success into a failure
and a failure into success. -/
def runStep (sub : Substitute) (s : Session) (step : Junction × Pipe) : Session :=
  if s.ended.isSome || !step.1.holds s.status then s
  else
    let (pipe, negated) := stripNot step.2
    let s := match pipe with
      | [c] => runCommand sub s [] c
      | pipe => runPipe sub s [] pipe
    if negated then s.done (if s.status = 0 then 1 else 0) else s

/-- The session after the text of a script. Commands inside of words are run in sessions of their
own, one inside the other up to a depth. -/
def runText : Nat → Session → String → Session
  | 0, s, _ => s.leave 2
  | depth + 1, s, text =>
    match Script.parse? text with
    | none => (s.complain "sh: 1: Syntax error" 2).leave 2
    | some script =>
      script.foldl (runStep fun inner text => runText depth { inner with out := [] } text) s

/-- How deep commands may stand inside of words. -/
def nesting : Nat := 64

/-- A script run in a directory, if it is there. -/
def run? (tree : FileTree) (directory : String) (text : String) : Option Session :=
  (tree.enter? directory).map fun tree => runText nesting { tree } text

end Workflow.Shell
