import Workflow.Config.Types
import Workflow.Json.Field
import Workflow.Pipeline.Format

/- Configurations in JSON. A section that is missing is null, and one that is there
   has all its fields. -/
namespace Workflow

/-- The JSON form of the workspace section. -/
def WorkspaceConfig.toJson (w : WorkspaceConfig) : Json :=
  .ofPairs [("root", .ofOption w.root), ("pipelines_dir", .str w.pipelinesDir)]

/-- The JSON form of the runner section. -/
def RunnerConfig.toJson (r : RunnerConfig) : Json := .ofPairs [("dry_run", .bool r.dryRun)]

/-- The JSON form of the triggers section. -/
def TriggersConfig.toJson (t : TriggersConfig) : Json :=
  .ofPairs [("enabled", .bool t.enabled), ("webhook_host", .str t.webhookHost),
    ("webhook_port", .ofNat t.webhookPort), ("webhook_secret_header", .str t.secretHeader),
    ("max_chain_depth", .ofNat t.maxChainDepth), ("default_cooldown_ms", .ofNat t.defaultCooldown),
    ("default_debounce_ms", .ofNat t.defaultDebounce),
    ("refresh_debounce_ms", .ofNat t.refreshDebounce)]

/-- The JSON form of the logging section. -/
def LoggingConfig.toJson (l : LoggingConfig) : Json :=
  .ofPairs [("level", .str l.level), ("file", .bool l.file), ("dir", .ofOption l.dir)]

/-- The JSON form of a mapping, without the fields that it lacks. -/
def MappingConfig.toJson (m : MappingConfig) : Json :=
  .ofPairs ([("capability", .str m.capability), ("command", .str m.command)]
    ++ presentText "provider" m.provider ++ presentText "target" m.target
    ++ presentText "type" m.kind)

namespace Config

/-- The JSON form of a configuration. -/
def toJson (c : Config) : Json :=
  .ofPairs ([
    ("workspace", .ofOptional WorkspaceConfig.toJson c.workspace),
    ("runner", .ofOptional RunnerConfig.toJson c.runner),
    ("triggers", .ofOptional TriggersConfig.toJson c.triggers),
    ("logging", .ofOptional LoggingConfig.toJson c.logging)]
    ++ if c.mappings.isEmpty then [] else [("mappings", .ofList MappingConfig.toJson c.mappings)])

/-- The JSON form of the sections as they hold, defaults standing in for the missing ones. -/
def effective (c : Config) : Json :=
  .ofPairs [("workspace", c.workspaceOrDefault.toJson), ("runner", c.runnerOrDefault.toJson),
    ("triggers", c.triggersOrDefault.toJson), ("logging", c.loggingOrDefault.toJson)]

end Config

end Workflow
