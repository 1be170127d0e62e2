import Workflow.Config.Types
import Workflow.Http.Token
import Workflow.Trigger.Scan

/- The settings of a trigger manager, taken from a configuration. -/
namespace Workflow

/-- The settings of a trigger manager; times are in milliseconds. -/
structure TriggerSettings where
  workspaceRoot : String
  /-- The directory whose pipelines declare triggers. -/
  triggerRoot : String
  enabled : Bool
  webhookHost : String
  webhookPort : Nat
  secretHeader : String
  maxChainDepth : Nat
  defaults : TriggerDefaults
  refreshDebounce : Nat
  deriving DecidableEq, Repr, Inhabited

namespace TriggerSettings

/-- The settings of a configuration whose relative root starts at a base directory. -/
def ofConfig (c : Config) (base : String) : TriggerSettings :=
  let root := c.workspaceOrDefault.resolveRoot base
  let t := c.triggersOrDefault
  { workspaceRoot := root
    triggerRoot := c.workspaceOrDefault.resolvePipelinesDir root
    enabled := t.enabled
    webhookHost := t.webhookHost
    webhookPort := t.webhookPort
    secretHeader := t.secretHeader
    maxChainDepth := t.maxChainDepth
    defaults := { cooldown := t.defaultCooldown, debounce := t.defaultDebounce }
    refreshDebounce := t.refreshDebounce }

/-- The name of the header that secrets are looked for in, in small letters. A name that no header
can have gives way to the default. -/
def headerName (s : TriggerSettings) : String :=
  let name := Text.asciiLower s.secretHeader
  if Http.isToken name then name else "x-flowline-secret"

end TriggerSettings

end Workflow
