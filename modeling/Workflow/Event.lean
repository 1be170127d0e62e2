import Workflow.Pipeline.Document
import Workflow.Control

/- What happens in a run, as it is announced to those who listen. -/
namespace Workflow

/-- How a run ended. -/
inductive RunStatus where
  | success
  | failure
  | cancelled
  deriving DecidableEq, Repr, Inhabited

/-- The word for a status. -/
def RunStatus.name : RunStatus → String
  | .success => "success"
  | .failure => "failure"
  | .cancelled => "cancelled"

/-- Whether a status is the good one. -/
def RunStatus.isSuccess (s : RunStatus) : Bool := s == .success

/-- What happened. -/
inductive Happening where
  | pipelineStart (pipeline : Pipeline)
  | pipelineEnd (success : Bool) (status : RunStatus)
  | stepStart (index : Nat) (stepId : Option String) (intent : String)
  | stepEnd (index : Nat) (stepId : Option String) (success : Bool)
  | pipelinePause
  | pipelineResume
  deriving Repr, Inhabited

/-- The name of what happened. -/
def Happening.name : Happening → String
  | .pipelineStart _ => "pipelineStart"
  | .pipelineEnd _ _ => "pipelineEnd"
  | .stepStart _ _ _ => "stepStart"
  | .stepEnd _ _ _ => "stepEnd"
  | .pipelinePause => "pipelinePause"
  | .pipelineResume => "pipelineResume"

/-- The index of the step that it happened to. -/
def Happening.index? : Happening → Option Nat
  | .stepStart i _ _ => some i
  | .stepEnd i _ _ => some i
  | _ => none

/-- The end of a run, as it happens. -/
def Happening.ended (status : RunStatus) : Happening := .pipelineEnd status.isSuccess status

/-- What an action that changed the flags of a run is announced as. Cancelling is not announced:
the run tells of it when it ends. -/
def ControlAction.happening? : ControlAction → Option Happening
  | .pause => some .pipelinePause
  | .resume => some .pipelineResume
  | .cancel => none

/-- What happened in a run. -/
structure Event where
  runId : String
  happening : Happening
  deriving Repr, Inhabited

end Workflow
