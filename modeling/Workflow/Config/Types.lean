import Workflow.Path
import Workflow.Registry
import Workflow.Text.Blank

/- Configuration: sections that may be left out, and capability mappings. Layers are
   merged section by section, the later layer winning, while mappings add up. -/
namespace Workflow

/-- Where pipelines run and where they are looked for. -/
structure WorkspaceConfig where
  root : Option String := none
  pipelinesDir : String := ".flowline"
  deriving DecidableEq, Repr, Inhabited

/-- How pipelines are run. -/
structure RunnerConfig where
  dryRun : Bool := false
  deriving DecidableEq, Repr, Inhabited

/-- How triggers are served; times are in milliseconds. -/
structure TriggersConfig where
  enabled : Bool := true
  webhookHost : String := "127.0.0.1"
  webhookPort : Nat := 7781
  secretHeader : String := "x-flowline-secret"
  maxChainDepth : Nat := 4
  defaultCooldown : Nat := 2500
  defaultDebounce : Nat := 500
  refreshDebounce : Nat := 300
  deriving DecidableEq, Repr, Inhabited

/-- What is logged, and where. -/
structure LoggingConfig where
  level : String := "info"
  file : Bool := true
  dir : Option String := none
  deriving DecidableEq, Repr, Inhabited

/-- A capability mapping of the user. -/
structure MappingConfig where
  capability : String
  command : String
  provider : Option String := none
  target : Option String := none
  kind : Option String := none
  deriving DecidableEq, Repr, Inhabited

/-- A configuration. -/
structure Config where
  workspace : Option WorkspaceConfig := none
  runner : Option RunnerConfig := none
  triggers : Option TriggersConfig := none
  logging : Option LoggingConfig := none
  mappings : List MappingConfig := []
  deriving DecidableEq, Repr, Inhabited

/-- Why a configuration cannot be read or written. -/
inductive ConfigError where
  | unreadable (path : String)
  | unwritable (path : String)
  | malformed
  /-- A number is beyond what the format can write. -/
  | notWritable
  | invalidValue (field reason : String)
  deriving DecidableEq, Repr, Inhabited

/-- The words for an error. -/
def ConfigError.message : ConfigError → String
  | .unreadable path => s!"failed to read config file '{path}'"
  | .unwritable path => s!"failed to write config file '{path}'"
  | .malformed => "failed to parse config"
  | .notWritable => "failed to serialize config"
  | .invalidValue field reason => s!"invalid value for '{field}': {reason}"

namespace WorkspaceConfig

/-- The root of the workspace; a relative one starts at a base directory. -/
def resolveRoot (w : WorkspaceConfig) (base : String) : String :=
  match w.root with
  | some root => Path.join base root
  | none => base

/-- The directory of the pipelines; a relative one starts at the root of the workspace. -/
def resolvePipelinesDir (w : WorkspaceConfig) (root : String) : String :=
  Path.join root w.pipelinesDir

end WorkspaceConfig

/-- The route of a mapping. Every type but the external one is internal. -/
def MappingConfig.route (m : MappingConfig) : Route where
  capability := m.capability
  command := m.command
  provider := m.provider
  target := m.target
  locality := if m.kind = some "external" then .external else .internal

namespace Config

/-- The workspace section, or its defaults. -/
def workspaceOrDefault (c : Config) : WorkspaceConfig := c.workspace.getD {}

/-- The runner section, or its defaults. -/
def runnerOrDefault (c : Config) : RunnerConfig := c.runner.getD {}

/-- The triggers section, or its defaults. -/
def triggersOrDefault (c : Config) : TriggersConfig := c.triggers.getD {}

/-- The logging section, or its defaults. -/
def loggingOrDefault (c : Config) : LoggingConfig := c.logging.getD {}

/-- A configuration with a later layer laid over it. -/
def merge (c later : Config) : Config where
  workspace := later.workspace <|> c.workspace
  runner := later.runner <|> c.runner
  triggers := later.triggers <|> c.triggers
  logging := later.logging <|> c.logging
  mappings := c.mappings ++ later.mappings

/-- Whether a mapping names a capability and a command. -/
def usable (m : MappingConfig) : Bool := !Text.blank m.capability && !Text.blank m.command

/-- What is wrong with a configuration: a blank header name, else the first mapping that is not
usable. -/
def fault? (c : Config) : Option ConfigError :=
  if c.triggers.any fun t => Text.blank t.secretHeader then
    some (.invalidValue "triggers.webhook_secret_header" "header name cannot be empty")
  else
    (c.mappings.findIdx? (!usable ·)).map fun i =>
      .invalidValue s!"mappings[{i}]" "capability and command are required"

/-- Whether a configuration may be used. -/
def validate (c : Config) : Except ConfigError Unit :=
  match c.fault? with
  | some e => .error e
  | none => .ok ()

end Config

end Workflow
