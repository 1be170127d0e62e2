import Workflow.Rehearsal.Stage

/- A whole rehearsal: runs started and actions taken at given times, in one order.
   At the end the clock runs on for a while, and a run that still waits is stuck. -/
namespace Workflow.Rehearsal

/-- A run to be started. -/
structure PlannedRun where
  time : Nat := 0
  pipeline : Except PipelineError Pipeline
  options : RunOptions := {}
  deriving Inhabited

/-- What is done to the runner, or to the run of a number. -/
inductive Request where
  | control (action : ControlAction) (run : Option Nat)
  | listActive
  deriving Repr, Inhabited

/-- What happens at a time: a run is started, or something is asked. -/
inductive Step where
  | start (number : Nat) (run : PlannedRun)
  | ask (request : Request)
  deriving Inhabited

/-- How a planned run came out. -/
inductive Result where
  | refused (cause : PipelineError)
  | begun (id : String)
  deriving Inhabited

/-- A rehearsal in which nobody but the timeline asks for runs. -/
abbrev PlainPlay := Play Unit Empty

/-- A rehearsal with the results of the runs planned so far. -/
structure Progress where
  play : PlainPlay
  results : List (Nat × Result) := []

namespace Progress

/-- One step done at its time, and all that follows from it at that time. -/
def perform (p : Progress) (time : Nat) (step : Step) : Progress :=
  let play := Play.advanceTo .none p.play time
  match step with
  | .start number planned =>
    match planned.pipeline.bind fun pipeline => play.memory.begin pipeline planned.options with
    | .error cause => { play, results := p.results ++ [(number, .refused cause)] }
    | .ok (stage, id, actions) =>
      { play := Play.settled .none ({ play with memory := stage }.ahead actions)
        results := p.results ++ [(number, .begun id)] }
  | .ask .listActive =>
    { p with play := { play with
        memory := play.memory.note (.listed play.memory.runner.activeRuns) } }
  | .ask (.control action run) =>
    { p with play := Play.settled .none (play.ahead [.work (.control run action)]) }

end Progress

/-- The steps of a rehearsal in the order of their times; at one time runs come first. -/
def timeline (runs : List PlannedRun) (requests : List (Nat × Request)) : List (Nat × Step) :=
  let starts := runs.zipIdx.map fun (run, i) => (run.time, Step.start i run)
  let asks := requests.map fun (time, request) => (time, Step.ask request)
  (starts ++ asks).mergeSort fun a b => a.1 ≤ b.1

/-- How long the clock runs on after the last step. -/
def patience : Nat := 100000

/-- A rehearsal from its beginning to its end. -/
def rehearse (stage : Stage Unit Empty) (runs : List PlannedRun)
    (requests : List (Nat × Request)) : Progress :=
  let steps := timeline runs requests
  let p := steps.foldl (fun (p : Progress) (time, step) => p.perform time step)
    { play := Play.ofStage stage }
  let last := (steps.map (·.1)).getLast?.getD 0
  { p with play := Play.advanceTo .none p.play (last + patience) }

end Workflow.Rehearsal
