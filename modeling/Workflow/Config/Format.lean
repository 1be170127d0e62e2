import Workflow.Config.Types
import Workflow.Toml.Document

/- Configurations as TOML documents. A section is a table, or an array of its fields
   in their order; fields that it lacks have their defaults, and what it has beyond
   them is passed over. Written, every section that is there has all of its fields. -/
namespace Workflow

open Toml

namespace Config

/-- The fields of a section of the given names, by their places. A date has none of them. -/
def fieldsIn (names : List String) : Value → Option (List (Option Value))
  | .table fields => some (names.map fun n => fields.lookup n)
  | .array items => some ((List.range names.length).map fun i => items[i]?)
  | .moment _ => some (names.map fun _ => none)
  | _ => none

/-- The string of a value. -/
def text? : Value → Option String
  | .text s => some s
  | _ => none

/-- The truth of a value. -/
def truth? : Value → Option Bool
  | .truth b => some b
  | _ => none

/-- The natural number below a bound that a value is. -/
def natBelow? (bound : Nat) : Value → Option Nat
  | .integer z => if 0 ≤ z && z < bound then some z.toNat else none
  | _ => none

/-- The value of a field, or its default when it is left out. -/
def orDefault (default : α) (read : Value → Option α) : Option Value → Option α
  | some v => read v
  | none => some default

/-- The value of a field that may be left out. -/
def optional (read : Value → Option α) : Option Value → Option (Option α)
  | some v => (read v).map some
  | none => some none

/-- The workspace section of a value. -/
def readWorkspace (v : Value) : Option WorkspaceConfig :=
  match fieldsIn ["root", "pipelines_dir"] v with
  | some [root, dir] => do
    let root ← optional text? root
    let pipelinesDir ← orDefault ".flowline" text? dir
    some { root, pipelinesDir }
  | _ => none

/-- The runner section of a value. -/
def readRunner (v : Value) : Option RunnerConfig :=
  match fieldsIn ["dry_run"] v with
  | some [dryRun] => (orDefault false truth? dryRun).map fun dryRun => { dryRun }
  | _ => none

/-- The names of the fields of the triggers section. -/
def triggersFields : List String :=
  ["enabled", "webhook_host", "webhook_port", "webhook_secret_header", "max_chain_depth",
    "default_cooldown_ms", "default_debounce_ms", "refresh_debounce_ms"]

/-- The triggers section of a value. -/
def readTriggers (v : Value) : Option TriggersConfig :=
  let d : TriggersConfig := {}
  match fieldsIn triggersFields v with
  | some [enabled, host, port, header, depth, cooldown, debounce, refresh] => do
    let enabled ← orDefault d.enabled truth? enabled
    let webhookHost ← orDefault d.webhookHost text? host
    let webhookPort ← orDefault d.webhookPort (natBelow? 0x10000) port
    let secretHeader ← orDefault d.secretHeader text? header
    let maxChainDepth ← orDefault d.maxChainDepth (natBelow? 0x100000000) depth
    let defaultCooldown ← orDefault d.defaultCooldown (natBelow? 0x10000000000000000) cooldown
    let defaultDebounce ← orDefault d.defaultDebounce (natBelow? 0x10000000000000000) debounce
    let refreshDebounce ← orDefault d.refreshDebounce (natBelow? 0x10000000000000000) refresh
    some { enabled, webhookHost, webhookPort, secretHeader, maxChainDepth, defaultCooldown,
           defaultDebounce, refreshDebounce }
  | _ => none

/-- The logging section of a value. -/
def readLogging (v : Value) : Option LoggingConfig :=
  match fieldsIn ["level", "file", "dir"] v with
  | some [level, file, dir] => do
    let level ← orDefault "info" text? level
    let file ← orDefault true truth? file
    let dir ← optional text? dir
    some { level, file, dir }
  | _ => none

/-- The mapping of a value. -/
def readMapping (v : Value) : Option MappingConfig :=
  match fieldsIn ["capability", "command", "provider", "target", "type"] v with
  | some [capability, command, provider, target, kind] => do
    let capability ← capability.bind text?
    let command ← command.bind text?
    let provider ← optional text? provider
    let target ← optional text? target
    let kind ← optional text? kind
    some { capability, command, provider, target, kind }
  | _ => none

/-- The mappings of an array. -/
def readMappings : Value → Option (List MappingConfig)
  | .array items => items.mapM readMapping
  | _ => none

/-- The configuration of the fields of a document. -/
def ofFields? (fields : List (String × Value)) : Option Config := do
  let workspace ← optional readWorkspace (fields.lookup "workspace")
  let runner ← optional readRunner (fields.lookup "runner")
  let triggers ← optional readTriggers (fields.lookup "triggers")
  let logging ← optional readLogging (fields.lookup "logging")
  let mappings ← orDefault [] readMappings (fields.lookup "mappings")
  some { workspace, runner, triggers, logging, mappings }

/-- The configuration of a text, which has to be valid. -/
def parse (text : String) : Except ConfigError Config :=
  match (Toml.parse? text).bind ofFields? with
  | none => .error .malformed
  | some c => c.validate.map fun _ => c

/-! ## Writing -/

/-- The fields of the workspace section. -/
def workspacePairs (w : WorkspaceConfig) : List (String × Value) :=
  w.root.toList.map (fun r => ("root", .text r)) ++ [("pipelines_dir", .text w.pipelinesDir)]

/-- The fields of the runner section. -/
def runnerPairs (r : RunnerConfig) : List (String × Value) := [("dry_run", .truth r.dryRun)]

/-- The fields of the triggers section. -/
def triggersPairs (t : TriggersConfig) : List (String × Value) := [
  ("enabled", .truth t.enabled),
  ("webhook_host", .text t.webhookHost),
  ("webhook_port", .integer t.webhookPort),
  ("webhook_secret_header", .text t.secretHeader),
  ("max_chain_depth", .integer t.maxChainDepth),
  ("default_cooldown_ms", .integer t.defaultCooldown),
  ("default_debounce_ms", .integer t.defaultDebounce),
  ("refresh_debounce_ms", .integer t.refreshDebounce)]

/-- The fields of the logging section. -/
def loggingPairs (l : LoggingConfig) : List (String × Value) :=
  [("level", .text l.level), ("file", .truth l.file)]
    ++ l.dir.toList.map (fun d => ("dir", .text d))

/-- A field that is there. -/
def presentPair (name : String) (value : Option String) : List (String × Value) :=
  value.toList.map fun v => (name, .text v)

/-- The fields of a mapping. -/
def mappingPairs (m : MappingConfig) : List (String × Value) :=
  [("capability", .text m.capability), ("command", .text m.command)]
    ++ presentPair "provider" m.provider ++ presentPair "target" m.target
    ++ presentPair "type" m.kind

/-- The text of a value; none for a number that the format cannot hold, and for values that no
section has. -/
def valueText? : Value → Option (List Char)
  | .text s => some (Toml.quote s)
  | .truth b => some (if b then "true".toList else "false".toList)
  | .integer z =>
    if 0 ≤ z && z < 0x8000000000000000 then some (Number.digits z.toNat) else none
  | _ => none

/-- The lines of fields. -/
def pairLines? : List (String × Value) → Option (List Char)
  | [] => some []
  | (name, v) :: rest => do
    let value ← valueText? v
    let later ← pairLines? rest
    some (name.toList ++ " = ".toList ++ value ++ '\n' :: later)

/-- The headers and the fields of all tables of a configuration. -/
def blocks (c : Config) : List (String × List (String × Value)) :=
  c.workspace.toList.map (fun w => ("[workspace]", workspacePairs w))
    ++ c.runner.toList.map (fun r => ("[runner]", runnerPairs r))
    ++ c.triggers.toList.map (fun t => ("[triggers]", triggersPairs t))
    ++ c.logging.toList.map (fun l => ("[logging]", loggingPairs l))
    ++ c.mappings.map (fun m => ("[[mappings]]", mappingPairs m))

/-- The text of a table. -/
def blockText? (block : String × List (String × Value)) : Option (List Char) :=
  (pairLines? block.2).map fun lines => block.1.toList ++ '\n' :: lines

/-- The text of a configuration, with an empty line between its tables. -/
def toToml (c : Config) : Except ConfigError String :=
  match c.blocks.mapM blockText? with
  | some texts => .ok (String.ofList (List.intercalate ['\n'] texts))
  | none => .error .notWritable

end Config

end Workflow
