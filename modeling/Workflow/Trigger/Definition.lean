import Workflow.Glob.Match
import Workflow.Pipeline.Document
import Workflow.Trigger.Schedule

/- Triggers: what a step of a pipeline declares to start that pipeline, and how a
   trigger is listed. -/
namespace Workflow

/-- The kinds of triggers. -/
inductive TriggerKind where
  | cron
  | watch
  | webhook
  deriving DecidableEq, Repr, Inhabited

/-- The name of a kind. -/
def TriggerKind.name : TriggerKind → String
  | .cron => "cron"
  | .watch => "watch"
  | .webhook => "webhook"

/-- The kind of a name. -/
def TriggerKind.ofName? : String → Option TriggerKind
  | "cron" => some .cron
  | "watch" => some .watch
  | "webhook" => some .webhook
  | _ => none

/-- What can happen to a file. -/
inductive ChangeKind where
  | create
  | change
  | delete
  deriving DecidableEq, Repr, Inhabited

/-- The name of a kind of change. -/
def ChangeKind.name : ChangeKind → String
  | .create => "create"
  | .change => "change"
  | .delete => "delete"

/-- The kind of change of a name, in letters of either case and with blanks around it. -/
def ChangeKind.parse? (s : String) : Option ChangeKind :=
  match Text.asciiLower (Text.trim s) with
  | "create" => some .create
  | "change" => some .change
  | "delete" => some .delete
  | _ => none

/-- What a file system reports of a file. -/
inductive FileReport where
  | created
  | modified
  | removed
  | accessed
  | unclear
  deriving DecidableEq, Repr, Inhabited

/-- The kind of change that a report tells of. -/
def FileReport.change? : FileReport → Option ChangeKind
  | .created => some .create
  | .modified => some .change
  | .removed => some .delete
  | .accessed => none
  | .unclear => none

/-- A watch on files. -/
structure WatchSpec where
  pattern : Glob.Pattern
  changes : List ChangeKind
  /-- Milliseconds. -/
  debounce : Nat
  deriving DecidableEq, Repr, Inhabited

/-- Whether a change of a file is watched. -/
def WatchSpec.covers (w : WatchSpec) (root path : String) (kind : ChangeKind) : Bool :=
  w.changes.contains kind && w.pattern.matchesPath root path

/-- A route of the webhook listener. -/
structure WebhookSpec where
  path : String
  method : String
  secret : Option String
  deriving DecidableEq, Repr, Inhabited

/-- What a trigger waits for. -/
inductive TriggerSpec where
  /-- The end of an interval of so many nanoseconds, again and again. -/
  | cron (interval : Nat)
  | watch (watch : WatchSpec)
  | webhook (hook : WebhookSpec)
  deriving DecidableEq, Repr, Inhabited

namespace TriggerSpec

/-- The kind of a trigger. -/
def kind : TriggerSpec → TriggerKind
  | .cron _ => .cron
  | .watch _ => .watch
  | .webhook _ => .webhook

/-- What a trigger waits for, in a few words. -/
def describe : TriggerSpec → String
  | .cron interval => "every " ++ Schedule.describe interval
  | .watch w => w.pattern.text ++ " [" ++ ",".intercalate (w.changes.map ChangeKind.name) ++ "]"
  | .webhook h => h.method ++ " " ++ h.path

end TriggerSpec

/-- A trigger that a step declares. -/
structure TriggerDefinition where
  /-- The file of the pipeline. -/
  pipeline : String
  stepIndex : Nat
  stepId : Option String
  spec : TriggerSpec
  /-- Milliseconds. -/
  cooldown : Nat
  /-- The pipeline to run after a success. -/
  onSuccess : Option String
  deriving DecidableEq, Repr, Inhabited

namespace TriggerDefinition

/-- The kind of a trigger. -/
def kind (d : TriggerDefinition) : TriggerKind := d.spec.kind

/-- What a trigger is called by: the name of its file, and the id or else the index of its
step. -/
def id (d : TriggerDefinition) : String :=
  (Path.fileName? d.pipeline).getD "" ++ "#" ++ d.stepId.getD (toString d.stepIndex)

/-- Where the pipeline is started. -/
def start (d : TriggerDefinition) : StartPoint :=
  match d.stepId with
  | some id => .step id
  | none => .index d.stepIndex

end TriggerDefinition

/-- A trigger as it is listed. -/
structure TriggerInfo where
  id : String
  kind : TriggerKind
  pipeline : String
  stepId : Option String
  detail : String
  cooldown : Nat
  deriving DecidableEq, Repr, Inhabited

/-- The listing of a trigger. -/
def TriggerDefinition.info (d : TriggerDefinition) : TriggerInfo :=
  { id := d.id, kind := d.kind, pipeline := d.pipeline, stepId := d.stepId
    detail := d.spec.describe, cooldown := d.cooldown }

end Workflow
