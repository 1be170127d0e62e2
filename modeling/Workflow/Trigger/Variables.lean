import Workflow.Trigger.Definition
import Workflow.Template

/- The variables that a triggered run begins with. They are set one after the other,
   the three reserved ones last, so no field of an event can take their place. -/
namespace Workflow

/-- The pair for a field of an event that is a string, a number or a boolean. -/
def eventPair? (field : String × Json) : Option (String × String) :=
  match field.2 with
  | .str s => some ("trigger_" ++ field.1, s)
  | .num n => some ("trigger_" ++ field.1, String.ofList n.text)
  | .bool b => some ("trigger_" ++ field.1, if b then "true" else "false")
  | _ => none

/-- The fields of an event; an event that is no object has none. -/
def eventFields : Json → List (String × Json)
  | .obj fields => fields
  | _ => []

/-- The variables of a run that an event of a trigger starts. -/
def eventVariables (kind : TriggerKind) (stepId : Option String) (event : Json) : Variables :=
  Table.insertAll [] ((eventFields event).filterMap eventPair? ++ [
    ("trigger_source", kind.name),
    ("trigger_step_id", stepId.getD ""),
    ("trigger_event", event.render)])

end Workflow
