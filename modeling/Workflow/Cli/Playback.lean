import Workflow.Cli.Context
import Workflow.Event.Format
import Workflow.Runner

/- A pipeline run to its end: each event is printed as it happens, commands work on
   the bench, and a summary closes the whole. -/
namespace Workflow.Cli

/-- The line that tells a reader of an event; most events are passed over. -/
def eventLine? (e : Event) : Option String :=
  match e.happening with
  | .pipelineStart p => some (p.name ++ " " ++ e.runId)
  | .stepStart i id intent =>
    let shown := id.getD "-"
    some s!"  [{i}] {shown} {intent}"
  | .stepEnd i _ false => some s!"  [{i}] failed"
  | .pipelinePause => some "  paused"
  | .pipelineResume => some "  resumed"
  | _ => none

namespace Context

/-- The bench with an event printed. -/
def printEvent (c : Context) (b : Bench) (e : Event) : Bench :=
  if c.json then b.print (.json (StampedEvent.toJson ⟨e, c.environment.now⟩))
  else match eventLine? e with
    | some text => b.line text
    | none => b

/-- A run carried on for so many moves, or to its end. -/
def play (c : Context) : Nat → Runner → Bench → Runner × Bench
  | 0, r, b => (r, b)
  | n + 1, r, b =>
    match r.advance? c.environment.runId c.environment.traceId with
    | none => (r, b)
    | some (r, .event e) => c.play n r (c.printEvent b e)
    | some (r, .invoke i) =>
      let (b, outcome) := Builtin.dispatch b i
      c.play n (r.answer i.runId outcome) b

/-- How many moves a run may have. Only one that goes round in circles comes to as many. -/
def moves : Nat := 1000000

/-- The summary of a run. -/
def printSummary (c : Context) (b : Bench) (pipeline : Pipeline) (status : RunStatus)
    (executed : Nat) : Bench :=
  if c.json then
    b.print (.json (.ofPairs [("run_id", .str c.environment.runId),
      ("pipeline", .str pipeline.name), ("status", .str status.name),
      ("steps_executed", .ofNat executed)]))
  else (b.line "").line s!"  ● {status.name} ({executed} steps)"

/-- The runner of the program, with the commands that come with it. -/
def runner (c : Context) : Runner :=
  { registry := Builtin.registry, mappings := c.mappings, workspaceRoot := c.workspaceRoot }

/-- A pipeline run with options. -/
def runPipeline (c : Context) (pipeline : Pipeline) (options : RunOptions) : Action := fun b =>
  let id := c.environment.runId
  match c.runner.begin id pipeline options with
  | .error e => (b, .error (.pipeline e))
  | .ok (runner, started) =>
    let (runner, b) := c.play moves runner (c.printEvent b started)
    match runner.result? id with
    | some (.error e) => (b, .error (.pipeline e))
    | result? =>
      let status := match result? with
        | some (.ok status) => status
        | _ => .failure
      let executed := ((Table.get? runner.runs id).map (·.executed)).getD 0
      let b := c.printSummary b pipeline status executed
      (b, if status.isSuccess then .ok () else .error (.unfinished pipeline.name status))

/-- The pipeline of a document run, with variables, from a step on if one is named. -/
def run (c : Context) (path : String) (vars : List (String × String))
    (fromStep : Option String) (dryRun : Bool) : Action :=
  match c.document path with
  | .error f => .fail f
  | .ok (pipeline, _) => c.runPipeline pipeline {
      start := match fromStep with
        | some id => .step id
        | none => .beginning
      vars := Table.ofPairs vars
      dryRun := c.runsDry dryRun }

end Context

end Workflow.Cli
