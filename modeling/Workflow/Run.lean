import Workflow.Event
import Workflow.Invocation
import Workflow.Step.Compile

/- A run of a pipeline, as a machine that moves from one announcement or invocation
   to the next. Between two moves the run may be paused, resumed and cancelled; it
   looks at its flags only in front of a step. A step is either done by the run
   itself or dispatched to the commands that it resolves to once it has been
   announced, and a failed step leads to the step that it branches to or ends the
   run. -/
namespace Workflow

/-- The options of a run. -/
structure RunOptions where
  start : StartPoint := .beginning
  vars : Variables := []
  dryRun : Bool := false
  /-- The directory to begin in, when it is not the root of the workspace. -/
  cwd : Option String := none
  deriving Repr, Inhabited

/-- What the steps of a run see. -/
structure Scope where
  vars : Variables
  cwd : String
  dryRun : Bool
  deriving DecidableEq, Repr, Inhabited

/-- A step made ready. -/
inductive ReadyStep where
  /-- The run does the step itself. -/
  | control (kind : StepKind)
  /-- The intent is to be dispatched. -/
  | dispatch (intent : Intent)
  deriving Repr, Inhabited

namespace Scope

/-- The scope after a step that the run does itself. -/
def after (scope : Scope) : StepKind → Scope
  | .setCwd path => { scope with cwd := Path.join scope.cwd path }
  | .setVar name value => { scope with vars := Table.insert name value scope.vars }
  | _ => scope

/-- The step with its directory defaulted: only a shell command has one. -/
def defaulted (scope : Scope) (step : Intent) : Intent :=
  if step.name = terminalRunName then
    { step with payload := applyDefaultCwd step.payload scope.cwd }
  else step

/-- The step made ready. Its kind is decided after its templates are filled. -/
def ready (scope : Scope) (step : Intent) : Except PipelineError ReadyStep := do
  let kind ← StepKind.parse (step.resolve scope.vars)
  if kind.isControlFlow then .ok (.control kind)
  else
    let compiled ← (scope.defaulted step).compile scope.vars scope.cwd
    .ok (.dispatch compiled)

end Scope

/-- Whether an intent's own note asks for a dry run. -/
def Intent.asksDryRun (i : Intent) : Bool := (i.note.bind (·.dryRun)) == some true

/-- The intent with the note that it is dispatched with. -/
def Intent.stamped (i : Intent) (dryRun : Bool) (traceId runId : String) : Intent :=
  { i with note := some {
      dryRun := some (dryRun || i.asksDryRun)
      traceId := some traceId
      stepId := i.id
      runId := some runId } }

/-- Where a run is. -/
inductive Phase where
  /-- In front of a step. -/
  | head (index : Nat)
  /-- In a step that has been announced, with commands left to invoke; none are known until the
  first of them is to be invoked. -/
  | dispatching (index : Nat) (intent : Intent) (left : Option (List Resolution))
  /-- In a step whose last invoked command has not answered. -/
  | awaiting (index : Nat) (intent : Intent) (left : List Resolution)
  /-- Behind a step whose end has not been announced. -/
  | closing (index : Nat) (success : Bool)
  /-- Behind the last step, the end of the run not being announced. -/
  | ending (status : RunStatus)
  | finished (result : Except PipelineError RunStatus)
  deriving Inhabited

/-- A run of a pipeline. -/
structure Run where
  id : String
  pipeline : Pipeline
  scope : Scope
  state : RunState := {}
  /-- How many steps have ended. -/
  executed : Nat := 0
  phase : Phase
  deriving Inhabited

/-- What a move of a run shows. -/
inductive Signal where
  | event (event : Event)
  | invoke (invocation : Invocation)
  deriving Inhabited

/-- What commands are looked up in, and the trace id for the next dispatched step. -/
structure Surroundings where
  registry : Registry
  mappings : List Route := []
  trace : String := ""
  deriving Inhabited

/-- The resolutions of an intent. -/
def Surroundings.resolve (around : Surroundings) (intent : Intent) : List Resolution :=
  around.registry.resolve around.mappings intent

namespace Run

/-- Whether the run has ended. -/
def isOver (run : Run) : Bool :=
  match run.phase with
  | .finished _ => true
  | _ => false

/-- Whether the run stands in front of a step and is held back by its flags. -/
def isHeld (run : Run) : Bool :=
  match run.phase with
  | .head i => i < run.pipeline.steps.length && run.state.blocks
  | _ => false

/-- The event that announces what happened in the run. -/
def announce (run : Run) (h : Happening) : Signal := .event ⟨run.id, h⟩

/-- The id of the step at an index. -/
def stepId (run : Run) (index : Nat) : Option String := (run.pipeline.steps[index]?).bind (·.id)

/-- Where the run goes from a step that has ended. -/
def next (pipeline : Pipeline) (index : Nat) (success : Bool) : Phase :=
  if success then .head (index + 1)
  else match (pipeline.steps[index]?).bind (·.onFailure) with
    | none => .ending .failure
    | some target =>
      match pipeline.stepIndex? target with
      | some i => .head i
      | none => .ending .failure

/-- The run ended, and the announcement of it. -/
def finish (run : Run) (result : Except PipelineError RunStatus) : Run × Signal :=
  let status := match result with
    | .ok status => status
    | .error _ => .failure
  ({ run with phase := .finished result }, run.announce (.ended status))

/-- The end of a step announced. -/
def close (run : Run) (index : Nat) (success : Bool) : Run × Signal :=
  ({ run with executed := run.executed + 1, phase := next run.pipeline index success },
    run.announce (.stepEnd index (run.stepId index) success))

/-- A step begun. A step that cannot be compiled ends the run and is not announced. -/
def enter (around : Surroundings) (run : Run) (index : Nat) (step : Intent) : Run × Signal :=
  match run.scope.ready step with
  | .error e => run.finish (.error e)
  | .ok (.control kind) =>
    ({ run with scope := run.scope.after kind, phase := .closing index true },
      run.announce (.stepStart index step.id step.name))
  | .ok (.dispatch compiled) =>
    let intent := compiled.stamped run.scope.dryRun around.trace run.id
    ({ run with phase := .dispatching index intent none },
      run.announce (.stepStart index step.id intent.name))

/-- The invocation of a resolution for a compiled intent. -/
def invocation (run : Run) (intent : Intent) (r : Resolution) : Invocation where
  runId := run.id
  intent := intent
  command := r.command
  payload := r.payload intent
  source := r.source
  cwd := run.scope.cwd
  dryRun := intent.asksDryRun

/-- The next command of a step invoked; if none is left, the end of the step announced. -/
def serve (run : Run) (index : Nat) (intent : Intent) : List Resolution → Run × Signal
  | [] => run.close index true
  | r :: left =>
    ({ run with phase := .awaiting index intent left }, .invoke (run.invocation intent r))

/-- The next move of the run; none while it is held back, while a command has not answered, and
when it is over. -/
def advance? (around : Surroundings) (run : Run) : Option (Run × Signal) :=
  match run.phase with
  | .head i =>
    match run.pipeline.steps[i]? with
    | none => some (run.finish (.ok .success))
    | some step =>
      if run.state.blocks then none
      else if run.state.cancelled then some (run.finish (.ok .cancelled))
      else some (run.enter around i step)
  | .dispatching i intent left =>
    some (run.serve i intent (left.getD (around.resolve intent)))
  | .awaiting _ _ _ => none
  | .closing i success => some (run.close i success)
  | .ending status => some (run.finish (.ok status))
  | .finished _ => none

/-- The run after the answer to the invocation that it waits for. The variables of a failed
outcome are dropped, and so are the commands left. -/
def answer (run : Run) (outcome : Outcome) : Run :=
  match run.phase with
  | .awaiting i intent left =>
    if outcome.success then
      { run with
        scope := { run.scope with
          vars := Table.insertAll run.scope.vars outcome.vars }
        phase := if left.isEmpty then .closing i true else .dispatching i intent (some left) }
    else { run with phase := .closing i false }
  | _ => run

end Run

end Workflow
