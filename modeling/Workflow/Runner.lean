import Workflow.Run

/- A runner: the runs that have begun, those of them that have not ended, and the
   one that controls without a run are meant for. Runs share the registry and
   nothing else. -/
namespace Workflow

/-- A runner. Handles on runs outlive them, so the runs that are over are kept. -/
structure Runner where
  registry : Registry := []
  mappings : List Route := []
  workspaceRoot : String
  runs : Table Run := []
  /-- The ids of the runs that have not ended. -/
  active : List String := []
  /-- The run begun last, unless it has ended. -/
  current : Option String := none
  deriving Inhabited

namespace Runner

/-- The runner with a run begun under an id that no run has, and the announcement of it. A start
point that the pipeline lacks begins nothing. -/
def begin (r : Runner) (id : String) (pipeline : Pipeline) (options : RunOptions) :
    Except PipelineError (Runner × Event) := do
  let start ← pipeline.startIndex options.start
  let run : Run := {
    id, pipeline
    scope := {
      vars := options.vars
      cwd := options.cwd.getD r.workspaceRoot
      dryRun := options.dryRun }
    phase := .head start }
  .ok ({ r with
      runs := Table.insert id run r.runs
      active := id :: r.active
      current := some id },
    ⟨id, .pipelineStart pipeline⟩)

/-- The runner without an ended run among those in progress. -/
def release (r : Runner) (id : String) : Runner :=
  { r with
    active := r.active.filter (· != id)
    current := if r.current = some id then none else r.current }

/-- The next move of a run. A run is released before its end is announced. -/
def advance? (r : Runner) (id trace : String) : Option (Runner × Signal) := do
  let run ← Table.get? r.runs id
  let (run, signal) ← run.advance? ⟨r.registry, r.mappings, trace⟩
  let r := { r with runs := Table.insert id run r.runs }
  some (if run.isOver then r.release id else r, signal)

/-- The runner after the answer to the invocation that a run waits for. -/
def answer (r : Runner) (id : String) (outcome : Outcome) : Runner :=
  match Table.get? r.runs id with
  | some run => { r with runs := Table.insert id (run.answer outcome) r.runs }
  | none => r

/-- An action on a run, by a handle on it: whether it changed the run's flags, and what is
announced then. -/
def control (r : Runner) (id : String) (action : ControlAction) : Runner × Bool × Option Event :=
  match Table.get? r.runs id with
  | none => (r, false, none)
  | some run =>
    match run.state.act? action with
    | none => (r, false, none)
    | some state =>
      ({ r with runs := Table.insert id { run with state } r.runs }, true,
        action.happening?.map (⟨id, ·⟩))

/-- An action on the current run; nothing happens when there is none. -/
def controlCurrent (r : Runner) (action : ControlAction) : Runner × Bool × Option Event :=
  match r.current with
  | some id => r.control id action
  | none => (r, false, none)

/-- Whether a handle on a run can be had. -/
def hasHandle (r : Runner) (id : String) : Bool := r.active.contains id

/-- The ids of the runs in progress, in order. -/
def activeRuns (r : Runner) : List String := r.active.mergeSort (fun a b => a ≤ b)

/-- How a run ended. -/
def result? (r : Runner) (id : String) : Option (Except PipelineError RunStatus) :=
  match (Table.get? r.runs id).map Run.phase with
  | some (.finished result) => some result
  | _ => none

end Runner

end Workflow
