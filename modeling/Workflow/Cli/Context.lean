import Workflow.Builtin
import Workflow.Config.Layers
import Workflow.Pipeline.Format
import Workflow.Run
import Workflow.Time.Timestamp
import Workflow.Trigger.Settings

/- What the commands of the program work with, and the reasons for which they fail. -/
namespace Workflow.Cli

/-- What the program finds when it is started. -/
structure Environment where
  /-- The files, and the directory that the program is started in. -/
  tree : FileTree
  config : ConfigEnv := {}
  now : Timestamp
  /-- The id for a run. -/
  runId : String
  /-- The id that the steps of a run are traced by. -/
  traceId : String := ""
  /-- The port of a listener that may have any. -/
  freePort : Nat := 49152
  deriving Inhabited

/-- Why a command fails. -/
inductive Failure where
  | config (error : ConfigError)
  /-- A document is no pipeline. -/
  | cannotLoad (document : String)
  | pipeline (error : PipelineError)
  /-- A run had another end than success. -/
  | unfinished (pipeline : String) (status : RunStatus)
  /-- Some of the steps cannot be compiled. -/
  | notCompiled (failed total : Nat)
  deriving Inhabited

/-- The words for a failure. -/
def Failure.message : Failure → String
  | .config e => e.message
  | .cannotLoad document => s!"cannot load {document}"
  | .pipeline e => e.message
  | .unfinished name status => s!"pipeline '{name}' finished with status {status.name}"
  | .notCompiled failed total => s!"{failed} of {total} steps failed to compile"

/-- What the commands work with. -/
structure Context where
  environment : Environment
  config : Config
  /-- The directory in which the workspace is looked for. -/
  base : String
  /-- Whether JSON is printed. -/
  json : Bool
  verbose : Bool
  deriving Inhabited

namespace Context

/-- The root of the workspace. -/
def workspaceRoot (c : Context) : String := c.config.workspaceOrDefault.resolveRoot c.base

/-- The settings of triggers. -/
def settings (c : Context) : TriggerSettings := .ofConfig c.config c.base

/-- What the user has mapped capabilities to. -/
def mappings (c : Context) : List Route := c.config.mappings.map MappingConfig.route

/-- Whether runs are to be dry: by the flag of a command or by the configuration. -/
def runsDry (c : Context) (flag : Bool) : Bool := flag || c.config.runnerOrDefault.dryRun

/-- What commands are looked up in. -/
def around (c : Context) : Surroundings where
  registry := Builtin.registry
  mappings := c.mappings
  trace := c.environment.traceId

/-- The pipeline of a document, with what it is warned of. -/
def document (c : Context) (path : String) :
    Except Failure (Pipeline × List Pipeline.Warning) := do
  let pipeline ← (Pipeline.load c.environment.tree path).mapError fun _ => .cannotLoad path
  let warnings ← pipeline.validate.mapError .pipeline
  .ok (pipeline, warnings)

end Context

/-- What a command does: the bench after it, and how it fails, if it does. -/
abbrev Action := Bench → Bench × Except Failure Unit

/-- The action that only fails. -/
def Action.fail (f : Failure) : Action := fun b => (b, .error f)

/-- The line between a heading and what is below it. -/
def rule : String := String.ofList (List.replicate 40 '─')

end Workflow.Cli
