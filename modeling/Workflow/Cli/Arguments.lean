import Workflow.Cli.Options
import Workflow.Shell.Utility
import Workflow.Template

/- The arguments of the program: what holds for every command, and the command with
   its own. What holds for every command may be given in front of the command and
   behind it; behind it counts. -/
namespace Workflow.Cli

/-- What holds for every command. -/
structure Globals where
  verbose : Bool := false
  json : Bool := false
  configDir : Option String := none
  workspace : Option String := none
  deriving DecidableEq, Repr, Inhabited

/-- A command with its arguments. -/
inductive Command where
  | run (pipeline : String) (vars : List (String × String)) (fromStep : Option String)
    (dryRun : Bool)
  | check (pipeline : String)
  | triggers (showRejected : Bool)
  | serve (port : Option Nat) (dryRun : Bool)
  deriving DecidableEq, Repr, Inhabited

/-- The arguments of the program. -/
structure Arguments where
  globals : Globals := {}
  command : Command
  deriving DecidableEq, Repr, Inhabited

/-- The options that hold for every command. -/
def globalSpecs : List OptionSpec := [
  { long := "verbose", short := some 'v', valued := false },
  { long := "json", valued := false },
  { long := "config-dir" },
  { long := "workspace", short := some 'w' }]

/-- A path that an option or an argument gives; an empty one is none. -/
def pathValue (value : String) : Except Stop String :=
  if value.isEmpty then .error .usage else .ok value

/-- What is given of what holds for every command. -/
def readGlobals (m : Matches) : Except Stop Globals := do
  let configDir ← (m.value? "config-dir").mapM pathValue
  let workspace ← (m.value? "workspace").mapM pathValue
  .ok { verbose := m.has "verbose", json := m.has "json", configDir, workspace }

/-- What holds for every command, as given in front of the command and behind it. -/
def Globals.inner (outer inner : Globals) : Globals where
  verbose := outer.verbose || inner.verbose
  json := outer.json || inner.json
  configDir := inner.configDir <|> outer.configDir
  workspace := inner.workspace <|> outer.workspace

/-- The name and the value of a variable, on the two sides of the first equals sign. -/
def variableOf (text : String) : Except Stop (String × String) :=
  match Text.cut '=' text.toList with
  | some (name, value) =>
    let name := Text.trim (String.ofList name)
    if name.isEmpty then .error .usage else .ok (name, String.ofList value)
  | none => .error .usage

/-- The port that a text writes: a number of 16 bits, a plus sign being allowed in front. -/
def portOf (text : String) : Except Stop Nat :=
  let digits := match text.toList with
    | '+' :: rest => String.ofList rest
    | _ => text
  match Shell.number? digits with
  | some n => if n < 0x10000 then .ok n else .error .usage
  | none => .error .usage

/-- The only argument of a command that is no option. -/
def pipelineOf (m : Matches) : Except Stop String :=
  match m.positionals with
  | [p] => pathValue p
  | _ => .error .usage

/-- The names of the commands, help among them. -/
def commandNames : List String := ["run", "check", "triggers", "serve", "help"]

/-- The options and the other arguments of a command. -/
def readMatches (specs : List OptionSpec) (most : Nat) (args : List String) :
    Except Stop Matches :=
  readAll (globalSpecs ++ specs) most (args.length + 1) {} args

/-- A command of a name with its arguments, and what they say of what holds for every command. -/
def readCommand (name : String) (args : List String) : Except Stop (Globals × Command) :=
  match name with
  | "run" => do
    let m ← readMatches [
      { long := "var", repeated := true }, { long := "from" },
      { long := "dry-run", valued := false }] 1 args
    let vars ← (m.values "var").mapM variableOf
    .ok (← readGlobals m, .run (← pipelineOf m) vars (m.value? "from") (m.has "dry-run"))
  | "check" => do
    let m ← readMatches [] 1 args
    .ok (← readGlobals m, .check (← pipelineOf m))
  | "triggers" => do
    let m ← readMatches [{ long := "show-rejected", valued := false }] 0 args
    .ok (← readGlobals m, .triggers (m.has "show-rejected"))
  | "serve" => do
    let m ← readMatches [
      { long := "port", short := some 'p' }, { long := "dry-run", valued := false }] 0 args
    .ok (← readGlobals m, .serve (← (m.value? "port").mapM portOf) (m.has "dry-run"))
  | "help" =>
    match args with
    | [] => .error .help
    | [topic] => if commandNames.contains topic then .error .help else .error .usage
    | _ => .error .usage
  | _ => .error .usage

/-- The arguments that texts write. -/
def Arguments.parse (args : List String) : Except Stop Arguments := do
  let (m, rest, literal) ← readOptions globalSpecs (args.length + 1) {} args
  let outer ← readGlobals m
  match rest with
  | [] => .error .usage
  | name :: args =>
    if literal then .error .usage
    else
      let (inner, command) ← readCommand name args
      .ok { globals := outer.inner inner, command }

end Workflow.Cli
