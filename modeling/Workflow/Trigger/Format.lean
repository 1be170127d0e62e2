import Workflow.Trigger.Chain

/- Triggers and the runs that they ask for, in JSON. -/
namespace Workflow

/-- The JSON form of a place to start at. -/
def StartPoint.toJson : StartPoint → Json
  | .beginning => .str "beginning"
  | .step id => .ofPairs [("step", .str id)]
  | .index i => .ofPairs [("index", .ofNat i)]

/-- The JSON form of a listed trigger. -/
def TriggerInfo.toJson (i : TriggerInfo) : Json :=
  .ofPairs [("id", .str i.id), ("kind", .str i.kind.name), ("pipeline", .str i.pipeline),
    ("step_id", .ofOption i.stepId), ("detail", .str i.detail), ("cooldown_ms", .ofNat i.cooldown)]

/-- The JSON form of what a trigger waits for. An interval is given in seconds and the nanoseconds
beyond them. -/
def TriggerSpec.toJson : TriggerSpec → Json
  | .cron interval =>
    .ofPairs [("secs", .ofNat (interval / Schedule.second)),
      ("nanos", .ofNat (interval % Schedule.second))]
  | .watch w =>
    .ofPairs [("pattern", .str w.pattern.text),
      ("events", .arr (w.changes.map fun c => .str c.name)), ("debounce_ms", .ofNat w.debounce)]
  | .webhook h =>
    .ofPairs [("path", .str h.path), ("method", .str h.method), ("secret", .ofOption h.secret)]

/-- The JSON form of a trigger. -/
def TriggerDefinition.toJson (d : TriggerDefinition) : Json :=
  .ofPairs [("info", d.info.toJson), ("kind", .str d.kind.name), ("step_index", .ofNat d.stepIndex),
    ("start", d.start.toJson), ("spec", d.spec.toJson), ("on_success", .ofOption d.onSuccess)]

/-- The JSON form of the values of variables. -/
def Variables.toJson (vars : Variables) : Json := .obj (vars.map fun (n, v) => (n, .str v))

/-- The fields of a run that is asked for. -/
def RunRequest.fields (r : RunRequest) : List (String × Json) :=
  [("pipeline", .str r.pipeline), ("start", r.start.toJson),
    ("variables", Variables.toJson r.vars)]

end Workflow
