import Workflow.Cli.Arguments
import Workflow.Cli.Listing
import Workflow.Cli.Playback
import Workflow.Cli.Service
import Workflow.Json.Pretty

/- The program: arguments are read, the configuration is loaded and the log opened
   before the configuration is looked at more closely, and then the command is done.
   All of it is a function of the environment and the arguments. -/
namespace Workflow.Cli

/-- How the program ends. -/
inductive Ending where
  | done
  | failed (failure : Failure)
  /-- The arguments name no command to be done. -/
  | stopped (stop : Stop)
  /-- The log cannot be written. -/
  | noLog
  deriving Inhabited

namespace Ending

/-- The exit code. -/
def code : Ending → Nat
  | .done => 0
  | .failed _ => 1
  | .stopped .usage => 2
  | .stopped .help => 0
  | .noLog => 101

/-- What is said of an ending. -/
def errors : Ending → String
  | .failed f => s!"Error: {f.message}\n"
  | .noLog => "the log cannot be written\n"
  | _ => ""

end Ending

/-- What the program leaves behind. -/
structure Report where
  bench : Bench
  ending : Ending
  deriving Inhabited

/-- The directory of the log, if it is written to a file. -/
def logDirectory? (logging : LoggingConfig) (configDir : Option String) : Option String :=
  if logging.file then
    some (logging.dir.getD ((configDir.map (Path.join · "logs")).getD "logs"))
  else none

/-- The name of a day's log. -/
def logName (now : Timestamp) : String := "flowline.log." ++ String.ofList now.dateText

/-- The tree with the log at a path, in a directory that is made if need be. -/
def openLog? (tree : FileTree) (directory path : String) : Option FileTree :=
  let tree := (tree.makeDirectories? directory).getD tree
  if tree.isFile path then some tree else tree.write? path []

/-- A record as a line of the log. -/
def logLine (r : LogRecord) : String :=
  (Json.ofPairs [("level", .str r.level.name), ("step", .str r.step),
    ("message", .str r.message)]).render ++ "\n"

/-- The bench with its records written to the log at a path. -/
def writeLog (path : String) (b : Bench) : Bench :=
  let lines := Text.encode (String.join (b.logs.map logLine))
  match b.tree.write? path ((b.tree.content? path).getD [] ++ lines) with
  | some tree => { b with tree }
  | none => b

/-- What a command does. -/
def Command.action (c : Context) : Command → Action
  | .run pipeline vars fromStep dryRun => c.run pipeline vars fromStep dryRun
  | .check pipeline => c.check pipeline
  | .triggers showRejected => c.triggers showRejected
  | .serve port dryRun => c.serve port dryRun

/-- The directory of the user's configuration: the one that is given, or the usual one. -/
def configDirectory? (env : Environment) (globals : Globals) : Option String :=
  globals.configDir <|> env.config.userDir?

/-- The directory that the project is in: the one that is given, or the current one. -/
def baseDirectory (env : Environment) (globals : Globals) : String :=
  globals.workspace.getD (FileTree.pathOf env.tree.here)

/-- The configuration of the user and of the project. -/
def configuration (env : Environment) (globals : Globals) : Config :=
  (LoadedConfig.load env.tree ((configDirectory? env globals).map (Path.join · "config.toml"))
    (baseDirectory env globals)).config

/-- The directory and the path of the log, if there is one. -/
def log? (env : Environment) (globals : Globals) : Option (String × String) :=
  (logDirectory? (configuration env globals).loggingOrDefault (configDirectory? env globals)).map
    fun directory => (directory, Path.join directory (logName env.now))

/-- The command done, unless something is wrong with the configuration. -/
def perform (env : Environment) (args : Arguments) : Report :=
  let config := configuration env args.globals
  let bench : Bench := { tree := env.tree, echo := !args.globals.json }
  match config.validate with
  | .error e => { bench, ending := .failed (.config e) }
  | .ok () =>
    let context : Context := {
      environment := env
      config
      base := baseDirectory env args.globals
      json := args.globals.json
      verbose := args.globals.verbose }
    match args.command.action context bench with
    | (bench, .ok ()) => { bench, ending := .done }
    | (bench, .error f) => { bench, ending := .failed f }

/-- The program with arguments that have been understood. -/
def runArguments (env : Environment) (args : Arguments) : Report :=
  match log? env args.globals with
  | none => perform env args
  | some (directory, path) =>
    match openLog? env.tree directory path with
    | none => { bench := { tree := env.tree }, ending := .noLog }
    | some tree =>
      let r := perform { env with tree } args
      { r with bench := writeLog path r.bench }

/-- The program with arguments. -/
def run (env : Environment) (args : List String) : Report :=
  match Arguments.parse args with
  | .error stop => { bench := { tree := env.tree }, ending := .stopped stop }
  | .ok args => runArguments env args

namespace Report

/-- The exit code. -/
def code (r : Report) : Nat := r.ending.code

/-- What is written to standard output. -/
def output (r : Report) : String :=
  String.join (r.bench.printed.map fun p => match p with
    | .text t => t
    | .json v => v.render ++ "\n"
    | .pretty v => v.pretty ++ "\n")

/-- What is written to standard error. -/
def errors (r : Report) : String := r.bench.errors ++ r.ending.errors

end Report

end Workflow.Cli
