import Workflow.Json.Numeral
import Workflow.Shell.Session

/- The commands that the shell knows. Each takes its arguments and its input, and
   leaves a session. -/
namespace Workflow.Shell

/-- Characters with the escapes of the echo command replaced, and whether the output goes on. -/
def echoEscapes : List Char → List Char × Bool
  | '\\' :: 'c' :: _ => ([], false)
  | '\\' :: 'n' :: rest => let (cs, more) := echoEscapes rest; ('\n' :: cs, more)
  | '\\' :: 't' :: rest => let (cs, more) := echoEscapes rest; ('\t' :: cs, more)
  | '\\' :: 'r' :: rest => let (cs, more) := echoEscapes rest; ('\r' :: cs, more)
  | '\\' :: 'a' :: rest => let (cs, more) := echoEscapes rest; ('\x07' :: cs, more)
  | '\\' :: 'b' :: rest => let (cs, more) := echoEscapes rest; ('\x08' :: cs, more)
  | '\\' :: 'f' :: rest => let (cs, more) := echoEscapes rest; ('\x0c' :: cs, more)
  | '\\' :: 'v' :: rest => let (cs, more) := echoEscapes rest; ('\x0b' :: cs, more)
  | '\\' :: '\\' :: rest => let (cs, more) := echoEscapes rest; ('\\' :: cs, more)
  | c :: rest => let (cs, more) := echoEscapes rest; (c :: cs, more)
  | [] => ([], true)

/-- What the echo command writes. -/
def echoText (args : List String) : String :=
  let (args, newline) := match args with
    | "-n" :: rest => (rest, false)
    | args => (args, true)
  let (cs, more) := echoEscapes (" ".intercalate args).toList
  String.ofList cs ++ if newline && more then "\n" else ""

/-- What one round through a format writes, and the arguments left. -/
def formatRound : List Char → List String → List Char × List String
  | '%' :: '%' :: rest, args => let (cs, left) := formatRound rest args; ('%' :: cs, left)
  | '%' :: 's' :: rest, args =>
    let (cs, left) := formatRound rest args.tail
    ((args.headD "").toList ++ cs, left)
  | '%' :: 'd' :: rest, args =>
    let (cs, left) := formatRound rest args.tail
    ((args.headD "0").toList ++ cs, left)
  | '\\' :: 'n' :: rest, args => let (cs, left) := formatRound rest args; ('\n' :: cs, left)
  | '\\' :: 't' :: rest, args => let (cs, left) := formatRound rest args; ('\t' :: cs, left)
  | '\\' :: '\\' :: rest, args => let (cs, left) := formatRound rest args; ('\\' :: cs, left)
  | c :: rest, args => let (cs, left) := formatRound rest args; (c :: cs, left)
  | [], args => ([], args)

/-- What the printf command writes. A format is gone through again as long as it uses up
arguments. -/
def formatText : Nat → List Char → List String → List Char
  | 0, _, _ => []
  | n + 1, format, args =>
    let (cs, left) := formatRound format args
    if left.isEmpty || left.length == args.length then cs else cs ++ formatText n format left

/-- The number that a text writes. -/
def number? (s : String) : Option Nat :=
  let cs := s.toList
  if !cs.isEmpty && cs.all Char.isDigit then some (Json.natOfDigits cs) else none

/-- The integer that a text writes. -/
def integer? (s : String) : Option Int :=
  match s.toList with
  | '-' :: rest => (number? (String.ofList rest)).map fun n => -(n : Int)
  | _ => (number? s).map Int.ofNat

/-- The truth of a test; none when it cannot be read. -/
def testOf (tree : FileTree) : List String → Option Bool
  | [] => some false
  | [s] => some (!s.isEmpty)
  | ["!", s] => some s.isEmpty
  | ["-n", s] => some (!s.isEmpty)
  | ["-z", s] => some s.isEmpty
  | ["-e", p] => some (tree.entry? p).isSome
  | ["-f", p] => some (tree.isFile p)
  | ["-d", p] => some (tree.isDirectory p)
  | ["-s", p] => some ((tree.content? p).any (!·.isEmpty))
  | [a, "=", b] => some (a == b)
  | [a, "!=", b] => some (a != b)
  | [a, op, b] => do
    let x ← integer? a
    let y ← integer? b
    match op with
    | "-eq" => some (x == y)
    | "-ne" => some (x != y)
    | "-lt" => some (decide (x < y))
    | "-le" => some (decide (x ≤ y))
    | "-gt" => some (decide (y < x))
    | "-ge" => some (decide (y ≤ x))
    | _ => none
  | "!" :: rest => (testOf tree rest).map (!·)
  | _ => none

/-- The session after a test. -/
def test (s : Session) (args : List String) : Session :=
  match testOf s.tree args with
  | some b => s.done (if b then 0 else 1)
  | none => s.complain "test: bad expression" 2

/-- The session after files were written out one after the other. -/
def catFiles (s : Session) (input : Text.Octets) : List String → Session
  | [] => s
  | "-" :: rest => catFiles { s with out := s.out ++ input } input rest
  | path :: rest =>
    match s.tree.content? path with
    | some content => catFiles { s with out := s.out ++ content } input rest
    | none => catFiles (s.complain s!"cat: {path}: No such file or directory" 1) input rest

/-- The names that the ls command shows of a directory. -/
def shownNames (tree : FileTree) (place : List String) (hidden : Bool) : List String :=
  (tree.namesIn place).filter fun n => hidden || n.toList.head? != some '.'

/-- The session after a listing of paths. -/
def listPaths (hidden : Bool) (s : Session) (path : String) : Session :=
  match s.tree.resolve path with
  | none => s.complain s!"ls: cannot access '{path}': No such file or directory" 2
  | some place =>
    match s.tree.at? place with
    | none => s.complain s!"ls: cannot access '{path}': No such file or directory" 2
    | some (.file _) => s.say (path ++ "\n")
    | some .directory => s.say (String.join ((shownNames s.tree place hidden).map (· ++ "\n")))

/-- The session after a file was touched. -/
def touch (s : Session) (path : String) : Session :=
  if (s.tree.entry? path).isSome then s
  else match s.tree.write? path [] with
    | some tree => { s with tree }
    | none => s.complain s!"touch: cannot touch '{path}': No such file or directory" 1

/-- The session after a directory was made. -/
def makeDirectory (parents : Bool) (s : Session) (path : String) : Session :=
  let fail := s.complain s!"mkdir: cannot create directory '{path}'" 1
  if (s.tree.entry? path).isSome then
    if parents && s.tree.isDirectory path then s else fail
  else if parents || s.tree.isDirectory (Path.join path "..")
      || ((Path.parent? path).map fun d => d.isEmpty || s.tree.isDirectory d) == some true then
    match s.tree.makeDirectories? path with
    | some tree => { s with tree }
    | none => fail
  else fail

/-- The session after a file, or with the flag a directory with all below it, was removed. -/
def remove (recursive force : Bool) (s : Session) (path : String) : Session :=
  let fail := s.complain s!"rm: cannot remove '{path}'" 1
  match s.tree.resolve path with
  | none => if force then s else fail
  | some place =>
    match s.tree.at? place with
    | some (.file _) =>
      match s.tree.removeFile? path with
      | some tree => { s with tree }
      | none => fail
    | some .directory =>
      if recursive then
        { s with tree := { s.tree with
            entries := s.tree.entries.filter fun e => !place.isPrefixOf e.1 } }
      else fail
    | none => if force then s else fail

/-- Arguments split into those in front that begin with a dash and the others. -/
def splitFlags (args : List String) : List String × List String :=
  args.partition fun a => a.toList.head? == some '-' && a.length > 1

/-- Whether a letter is among flags. -/
def hasFlag (flags : List String) (c : Char) : Bool := flags.any (·.toList.contains c)

/-- The session after a signal was sent. -/
def kill (s : Session) (args : List String) : Session :=
  match splitFlags args with
  | (flags, [target]) =>
    if target != Session.ownNumber then s.complain "kill: No such process" 1
    else if flags == ["-0"] then s.done 0
    else { s with ended := some .signal }
  | _ => s.complain "kill: bad arguments" 2

/-- The session after the exit command. -/
def exit (s : Session) (args : List String) : Session :=
  match args with
  | [] => s.leave s.status
  | a :: _ =>
    match number? a with
    | some n => s.leave (n % 256)
    | none => (s.complain s!"exit: Illegal number: {a}" 2).leave 2

/-- The session after variables were set by words of the form of an assignment. -/
def assign (s : Session) (text : String) : Session :=
  match Text.cut '=' text.toList with
  | some (name, value) =>
    { s with vars := Table.insert (String.ofList name) (String.ofList value) s.vars }
  | none => s

/-- The session after a command of the shell with its arguments and its input. -/
def utility (s : Session) (input : Text.Octets) (name : String) (args : List String) : Session :=
  match name with
  | ":" | "true" | "sleep" | "set" => s.done 0
  | "false" => s.done 1
  | "echo" => (s.say (echoText args)).done 0
  | "printf" =>
    match args with
    | [] => s.complain "printf: usage: printf format [arg ...]" 2
    | format :: args =>
      (s.say (String.ofList (formatText (args.length + 1) format.toList args))).done 0
  | "exit" => exit s args
  | "pwd" => (s.say (s.directory ++ "\n")).done 0
  | "cd" =>
    let path := args.headD "/"
    match s.tree.enter? path with
    | some tree => { s with tree }.done 0
    | none => s.complain s!"cd: can't cd to {path}" 2
  | "cat" => catFiles (s.done 0) input (if args.isEmpty then ["-"] else args)
  | "ls" =>
    let (flags, paths) := splitFlags args
    (if paths.isEmpty then ["."] else paths).foldl
      (listPaths (hasFlag flags 'a' || hasFlag flags 'A'))
      (s.done 0)
  | "touch" => args.foldl touch (s.done 0)
  | "mkdir" =>
    let (flags, paths) := splitFlags args
    paths.foldl (makeDirectory (hasFlag flags 'p')) (s.done 0)
  | "rm" =>
    let (flags, paths) := splitFlags args
    paths.foldl (remove (hasFlag flags 'r' || hasFlag flags 'R') (hasFlag flags 'f')) (s.done 0)
  | "test" => test s args
  | "[" =>
    if args.getLast? == some "]" then test s args.dropLast else s.complain "[: missing ]" 2
  | "kill" => kill s args
  | "export" => args.foldl assign (s.done 0)
  | _ => s.complain s!"sh: 1: {name}: not found" 127

end Workflow.Shell
