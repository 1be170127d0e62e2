import Workflow.Pipeline.Intent
import Workflow.Error
import Workflow.Path
import Workflow.Text.Blank

/- Pipelines: named lists of steps, the checks made before one is run, and the
   places a run may start at. -/
namespace Workflow

/-- A pipeline document. -/
structure Pipeline where
  name : String
  profile : Option String := none
  steps : List Intent := []
  deriving Repr, Inhabited

/-- Where in a pipeline a run starts. -/
inductive StartPoint where
  | beginning
  | step (id : String)
  | index (i : Nat)
  deriving DecidableEq, Repr, Inhabited

namespace Pipeline

/-- The ending of the name of a file that holds a pipeline. -/
def fileEnding : String := ".intent.json"

/-- Whether a path names a file that holds a pipeline. -/
def isDocumentPath (path : String) : Bool :=
  match Path.fileName? path with
  | some name => Text.endsWith fileEnding name
  | none => false

/-- The index of the first step of an id. -/
def stepIndex? (pipeline : Pipeline) (id : String) : Option Nat :=
  pipeline.steps.findIdx? (·.id == some id)

/-- The index at which a run starts. The index behind the last step is one. -/
def startIndex (pipeline : Pipeline) : StartPoint → Except PipelineError Nat
  | .beginning => .ok 0
  | .step id =>
    match pipeline.stepIndex? id with
    | some i => .ok i
    | none => .error (.noSuchStep id)
  | .index i => if i ≤ pipeline.steps.length then .ok i else .error (.noSuchIndex i)

/-- What a valid pipeline may be warned of. -/
inductive Warning where
  /-- The step has the id of an earlier one. -/
  | duplicateId (id : String) (step : Nat)
  /-- The step branches to an id that no step has. -/
  | unknownTarget (label target : String)
  deriving DecidableEq, Repr, Inhabited

/-- The words of a warning. -/
def Warning.message : Warning → String
  | .duplicateId id step => s!"Duplicate step id '{id}' at step {step}"
  | .unknownTarget label target => s!"Step '{label}' branches to unknown step '{target}'"

/-- The duplicate ids among steps that follow the given ids, the first of them having the given
index; an error at the first blank intent. -/
def checkSteps : Nat → List String → List Intent → Except PipelineError (List Warning)
  | _, _, [] => .ok []
  | i, seen, step :: rest =>
    if Text.blank step.name then .error (.blankIntent i)
    else match step.id with
      | none => checkSteps (i + 1) seen rest
      | some id => do
        let later ← checkSteps (i + 1) (id :: seen) rest
        .ok (if seen.contains id then .duplicateId id i :: later else later)

/-- The steps whose branch leads nowhere. -/
def checkBranches (pipeline : Pipeline) : List Warning :=
  pipeline.steps.filterMap fun step =>
    match step.onFailure with
    | some target =>
      if (pipeline.stepIndex? target).isNone then some (.unknownTarget step.label target) else none
    | none => none

/-- The warnings of a pipeline: duplicate ids, then branches that lead nowhere, each in the order
of the steps. A blank name or a blank intent makes the pipeline invalid. -/
def validate (pipeline : Pipeline) : Except PipelineError (List Warning) :=
  if Text.blank pipeline.name then .error .blankName
  else do
    let duplicates ← checkSteps 0 [] pipeline.steps
    .ok (duplicates ++ pipeline.checkBranches)

end Pipeline

end Workflow
