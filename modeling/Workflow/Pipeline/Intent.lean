import Workflow.Json.Basic

/- Intents: the steps of a pipeline. An intent names what is wanted, and carries a
   free-form payload, preferences among the providers that could do it, and the
   step to go to when it fails. -/
namespace Workflow

/-- What the runner notes on an intent that it dispatches. -/
structure Intent.Meta where
  dryRun : Option Bool := none
  traceId : Option String := none
  stepId : Option String := none
  runId : Option String := none
  deriving DecidableEq, Repr, Inhabited

/-- A step of a pipeline. -/
structure Intent where
  id : Option String := none
  name : String
  description : Option String := none
  capabilities : Option (List String) := none
  payload : Json := .null
  provider : Option String := none
  target : Option String := none
  /-- The id of the step to go to when this one fails. -/
  onFailure : Option String := none
  note : Option Intent.Meta := none
  deriving Repr, Inhabited

namespace Intent

/-- The name a step goes by in messages: its id, else the name of its intent. -/
def label (intent : Intent) : String := intent.id.getD intent.name

/-- The capabilities an intent asks for: the stated ones, else its own name. -/
def capabilityNames (intent : Intent) : List String :=
  match intent.capabilities with
  | some (c :: cs) => c :: cs
  | _ => [intent.name]

/-- A field of the payload. -/
def field? (intent : Intent) (name : String) : Option Json := intent.payload.field? name

/-- The text of a string field of the payload. -/
def text? (intent : Intent) (name : String) : Option String :=
  (intent.field? name).bind Json.asString?

end Intent

end Workflow
