import Workflow.Invocation
import Workflow.Json.Writer
import Workflow.Shell.Run
import Workflow.Step.Kind

/- The commands that come with the program: one runs a shell command, the other
   writes a message to the log. They work on a bench that holds the files and keeps
   what is printed and logged.

   Statement: `terminalRun_dry` — a dry run of a shell command changes nothing. -/
namespace Workflow

/-- How much a message matters. -/
inductive LogLevel where
  | error
  | warn
  | info
  | debug
  deriving DecidableEq, Repr, Inhabited

namespace LogLevel

/-- The name of a level as it is logged. -/
def name : LogLevel → String
  | .error => "ERROR"
  | .warn => "WARN"
  | .info => "INFO"
  | .debug => "DEBUG"

/-- The level that a payload names; any other name means the usual level. -/
def ofName : String → LogLevel
  | "error" => .error
  | "warn" => .warn
  | "debug" => .debug
  | _ => .info

end LogLevel

/-- A message in the log. -/
structure LogRecord where
  level : LogLevel
  /-- The label of the step. -/
  step : String
  message : String
  deriving DecidableEq, Repr, Inhabited

/-- What is printed: text as it is, or a JSON value in one line or in several. -/
inductive Printed where
  | text (text : String)
  | json (value : Json)
  | pretty (value : Json)
  deriving Repr, Inhabited

/-- What commands work on. -/
structure Bench where
  /-- The files, and the directory that the program runs in. -/
  tree : FileTree
  /-- Whether the output of shell commands is printed. -/
  echo : Bool := false
  printed : List Printed := []
  /-- What was written for errors. -/
  errors : String := ""
  logs : List LogRecord := []
  /-- The shell commands that were started, each with the directory it was started in. -/
  started : List (String × String) := []
  deriving Repr, Inhabited

namespace Bench

/-- The bench with something printed. -/
def print (b : Bench) (p : Printed) : Bench := { b with printed := b.printed ++ [p] }

/-- The bench with a line printed. -/
def line (b : Bench) (text : String) : Bench := b.print (.text (text ++ "\n"))

/-- The bench with the output of a shell command printed, if that is wanted. -/
def copy (b : Bench) (out errors : String) : Bench :=
  if b.echo then
    let b := if out.isEmpty then b else b.print (.text out)
    { b with errors := b.errors ++ errors }
  else b

end Bench

/-- What a command does when it is invoked. -/
abbrev Handler := Bench → Invocation → Bench × Outcome

namespace Builtin

/-- The command that logs a message. -/
def systemLogName : String := "system.log"

/-- The provider of these commands. -/
def provider : String := "builtin"

/-- The outcome of a shell command that ended with a status, having written an output. -/
def shellOutcome (command : String) (status : Shell.Session) : Outcome :=
  let code := match status.ended with
    | some .signal => "signal"
    | _ => toString status.code
  if code = "0" then
    { success := true
      vars := Table.ofPairs [
        ("terminal_output", Text.trim (Text.decodeLossy status.out)),
        ("terminal_exit_code", code)] }
  else .failure s!"'{command}' exited with {code}"

/-- The directory that a shell command is run in. -/
def shellDirectory (i : Invocation) : String :=
  ((i.payload.field? "cwd").bind Json.asString?).getD i.cwd

/-- A shell command run. A dry run only looks for the command. -/
def terminalRun : Handler := fun b i =>
  match (i.payload.field? "command").bind Json.asString? with
  | none => (b, .failure "terminal.run requires a command")
  | some command =>
    if i.dryRun then (b, { success := true })
    else match Shell.run? b.tree (shellDirectory i) command with
      | none => (b, .failure "failed to spawn")
      | some session =>
        ({ b with
            tree := { session.tree with here := b.tree.here }
            started := b.started ++ [(command, shellDirectory i)] }.copy
          (Text.decodeLossy session.out) (Text.decodeLossy session.errors),
          shellOutcome command session)

/-- The message of a payload: the text of its field, the JSON text of another value, or that of the
whole payload. -/
def logMessage (payload : Json) : String :=
  match payload.field? "message" with
  | some (.str s) => s
  | some v => v.render
  | none => payload.render

/-- A message logged. A dry run logs it as well. -/
def systemLog : Handler := fun b i =>
  let level := LogLevel.ofName (((i.payload.field? "level").bind Json.asString?).getD "info")
  ({ b with logs := b.logs ++ [⟨level, i.intent.label, logMessage i.payload⟩] },
    { success := true })

/-- What is registered for a command of the same name. -/
def registration (name : String) : Registration where
  provider
  offers := .names [name] (some name) none
  determinism := some .deterministic

/-- The registry of the commands that come with the program. -/
def registry : Registry :=
  (Registry.register [] (registration terminalRunName)).register (registration systemLogName)

/-- The handlers of the commands that come with the program. -/
def commands : CommandTable Handler :=
  Table.ofPairs [(terminalRunName, terminalRun), (systemLogName, systemLog)]

/-- A command invoked on the bench. -/
def dispatch (b : Bench) (i : Invocation) : Bench × Outcome :=
  match Table.get? commands i.command with
  | some handler => handler b i
  | none => (b, .unbound i.source i.command)

theorem terminalRun_dry {b : Bench} {i : Invocation} (h : i.dryRun = true) :
    (terminalRun b i).1 = b := by
  unfold terminalRun
  split
  · rfl
  · simp [h]

end Builtin

end Workflow
