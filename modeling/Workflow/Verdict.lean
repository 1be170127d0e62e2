import Workflow.Run
import Workflow.Trigger.Scan

/- What can be said of a step before any step of its pipeline has run: the commands
   that it would be routed to, the trigger that it declares, or the reason why it
   cannot be compiled. Nothing is known of variables, and the directory is the root
   of the workspace. -/
namespace Workflow

/-- What a step comes to. -/
inductive Verdict where
  | trigger (spec : TriggerSpec)
  | disabledTrigger
  /-- The run does the step itself. -/
  | control
  | routed (resolutions : List Resolution)
  deriving Inhabited

/-- Why a step comes to nothing. -/
inductive Objection where
  | step (error : PipelineError)
  | trigger (error : TriggerError)
  deriving DecidableEq, Repr, Inhabited

/-- The words for an objection. -/
def Objection.message : Objection → String
  | .step e => e.message
  | .trigger e => e.message

/-- A command with a note if nobody has registered what it serves. -/
def Resolution.describe (r : Resolution) : String :=
  match r.source with
  | .fallback => r.command ++ " (unregistered)"
  | _ => r.command

/-- The words for a verdict. -/
def Verdict.describe : Verdict → String
  | .trigger spec => "trigger: " ++ spec.describe
  | .disabledTrigger => "trigger (disabled)"
  | .control => "control flow"
  | .routed rs => "→ " ++ ", ".intercalate (rs.map Resolution.describe)

/-- The scope in front of the first step of a run that was given no variables. -/
def Scope.initial (root : String) : Scope := { vars := [], cwd := root, dryRun := false }

/-- What steps are looked at with. -/
structure Examiner where
  around : Surroundings
  workspaceRoot : String
  defaults : TriggerDefaults
  /-- The file of the pipeline. -/
  document : String
  deriving Inhabited

namespace Examiner

/-- The verdict on a step that declares a trigger. -/
def triggerVerdict (x : Examiner) (index : Nat) (step : Intent) : Except Objection Verdict :=
  match TriggerDefinition.ofStep x.document index step x.defaults with
  | .ok (some d) => .ok (.trigger d.spec)
  | .ok none => .ok .disabledTrigger
  | .error e => .error (.trigger e)

/-- The verdict on a step that is to be dispatched. -/
def routeVerdict (x : Examiner) (step : Intent) : Except Objection Verdict :=
  let scope := Scope.initial x.workspaceRoot
  match (scope.defaulted step).compile scope.vars scope.cwd with
  | .ok compiled => .ok (.routed (x.around.registry.resolve x.around.mappings compiled))
  | .error e => .error (.step e)

/-- The verdict on a step. -/
def verdict (x : Examiner) (index : Nat) (step : Intent) : Except Objection Verdict :=
  match StepKind.parse step with
  | .error e => .error (.step e)
  | .ok (.trigger _) => x.triggerVerdict index step
  | .ok kind => if kind.isControlFlow then .ok .control else x.routeVerdict step

/-- The verdicts on the steps of a pipeline, each with the index and the step. -/
def verdicts (x : Examiner) (p : Pipeline) : List (Nat × Intent × Except Objection Verdict) :=
  p.steps.zipIdx.map fun (step, i) => (i, step, x.verdict i step)

end Examiner

end Workflow
