import Workflow.Pipeline.Intent
import Workflow.Error
import Workflow.Json.Writer
import Workflow.Text.Affix

/- The kinds of steps. The name of an intent decides its kind; the kinds that the
   engine knows have fields taken from the payload, and one required field at most. -/
namespace Workflow

/-- A git command. -/
inductive GitCommand where
  | checkout (branch : String) (create : Bool)
  | commit (message : String) (amend : Bool)
  | pull
  | push
  | clone (url : String) (directory : Option String)
  deriving DecidableEq, Repr, Inhabited

/-- A docker command. -/
inductive DockerCommand where
  | build (tag : String) (path : Option String)
  | run (image : String) (detach : Bool)
  deriving DecidableEq, Repr, Inhabited

/-- The kind of a step. -/
inductive StepKind where
  | setCwd (path : String)
  | setVar (name value : String)
  | terminalRun (command cwd : Option String)
  | git (command : GitCommand)
  | docker (command : DockerCommand)
  /-- A step that declares a trigger; the text is what its intent's name ends in. -/
  | trigger (suffix : String)
  | other
  deriving DecidableEq, Repr, Inhabited

/-- The name of the intent that runs a shell command. -/
def terminalRunName : String := "terminal.run"

/-- What the names of the intents that declare triggers begin with. -/
def triggerStart : String := "system.trigger."

namespace StepKind

/-- The text of a required field: a string that is not empty, or a number. -/
def requiredText (intent : Intent) (field : String) : Except PipelineError String :=
  match intent.field? field with
  | some (.str s) => if s.isEmpty then .error (.missingField intent.name field) else .ok s
  | some (.num n) => .ok (String.ofList n.text)
  | _ => .error (.missingField intent.name field)

/-- The text of a field that is a string and not empty. -/
def optionalText (intent : Intent) (field : String) : Option String :=
  (intent.text? field).filter fun s => !s.isEmpty

/-- Whether a field is true. -/
def flag (intent : Intent) (field : String) : Bool :=
  ((intent.field? field).bind Json.asBool?).getD false

/-- The text of the value that a variable is set to; empty when none is given. -/
def assignedText (intent : Intent) : String :=
  match intent.field? "value" with
  | some v => v.plainText
  | none => ""

/-- The kind of an intent. -/
def parse (intent : Intent) : Except PipelineError StepKind :=
  match intent.name with
  | "system.setCwd" => (requiredText intent "path").map .setCwd
  | "system.setVar" =>
    (requiredText intent "name").map fun name => .setVar name (assignedText intent)
  | "terminal.run" => .ok (.terminalRun (optionalText intent "command") (optionalText intent "cwd"))
  | "git.checkout" =>
    (requiredText intent "branch").map fun b => .git (.checkout b (flag intent "create"))
  | "git.commit" =>
    (requiredText intent "message").map fun m => .git (.commit m (flag intent "amend"))
  | "git.pull" => .ok (.git .pull)
  | "git.push" => .ok (.git .push)
  | "git.clone" =>
    (requiredText intent "url").map fun u => .git (.clone u (optionalText intent "dir"))
  | "docker.build" =>
    (requiredText intent "tag").map fun t => .docker (.build t (optionalText intent "path"))
  | "docker.run" =>
    (requiredText intent "image").map fun i => .docker (.run i (flag intent "detach"))
  | name =>
    match Text.afterStart? triggerStart name with
    | some suffix => .ok (.trigger suffix)
    | none => .ok .other

/-- Whether the runner does the step itself and dispatches nothing. -/
def isControlFlow : StepKind → Bool
  | .setCwd _ | .setVar _ _ | .trigger _ => true
  | _ => false

end StepKind

end Workflow
