import Workflow.Pipeline.Format
import Workflow.Trigger.Scan
import Workflow.Trigger.Settings
import Workflow.Trigger.Variables

/- Chains of runs. A trigger that fires asks for a run of its own pipeline, and each
   run that succeeds may be followed by one of another pipeline, up to a depth. The
   variables of the trigger go along with the whole chain; what a run assigns does
   not. -/
namespace Workflow

/-- A run that is asked for. -/
structure RunRequest where
  /-- The file of the pipeline. -/
  pipeline : String
  start : StartPoint
  vars : Variables
  deriving DecidableEq, Repr, Inhabited

/-- A chain: the run asked for last, and how many came before it. -/
structure Chain where
  depth : Nat
  request : RunRequest
  /-- The pipeline that the trigger names for after its own. -/
  onSuccess : Option String
  deriving DecidableEq, Repr, Inhabited

namespace Chain

/-- The chain that a trigger begins for an event. -/
def begin (d : TriggerDefinition) (event : Json) : Chain where
  depth := 0
  request := {
    pipeline := d.pipeline
    start := d.start
    vars := eventVariables d.kind d.stepId event }
  onSuccess := d.onSuccess

/-- The pipeline named for after the last run: by the trigger at first, later by the document that
was run, as it is on the disk now. -/
def target? (c : Chain) (tree : FileTree) : Option String :=
  if c.depth = 0 then c.onSuccess
  else match Pipeline.load tree c.request.pipeline with
    | .ok p => p.chainTarget?
    | .error _ => none

/-- The chain after a success of its last run; none when it ends there. -/
def next? (c : Chain) (settings : TriggerSettings) (tree : FileTree) : Option Chain := do
  let target ← c.target? tree
  if c.depth < settings.maxChainDepth then
    some { c with
      depth := c.depth + 1
      request := {
        pipeline := Path.join settings.workspaceRoot target
        start := .beginning
        vars := Table.insertAll c.request.vars [
          ("trigger_chain_from", c.request.pipeline),
          ("trigger_chain_depth", toString (c.depth + 1))] } }
  else none

/-- The chain after its last run has ended: only a success carries it on. -/
def after? (c : Chain) (settings : TriggerSettings) (tree : FileTree) (success : Bool) :
    Option Chain :=
  if success then c.next? settings tree else none

end Chain

end Workflow
