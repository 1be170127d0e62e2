import Workflow.Cli.Context
import Workflow.Json.Field
import Workflow.Trigger.Discovery
import Workflow.Trigger.Format
import Workflow.Verdict

/- What the program tells without running anything: the verdicts on the steps of a
   pipeline, and the triggers below a directory. -/
namespace Workflow.Cli

/-! ## Steps -/

/-- What is reported of a step. -/
structure StepReport where
  index : Nat
  step : Intent
  verdict : Except Objection Verdict
  deriving Inhabited

namespace StepReport

/-- Whether the step can be compiled. -/
def passed (r : StepReport) : Bool :=
  match r.verdict with
  | .ok _ => true
  | .error _ => false

/-- The words for the verdict. -/
def detail (r : StepReport) : String :=
  match r.verdict with
  | .ok v => v.describe
  | .error e => e.message

/-- The JSON form of a report. -/
def toJson (r : StepReport) : Json :=
  .ofPairs [("index", .ofNat r.index), ("id", .ofOption r.step.id), ("intent", .str r.step.name),
    ("ok", .bool r.passed), ("detail", .str r.detail)]

/-- The line of a report. -/
def line (r : StepReport) : String :=
  let mark := if r.passed then "✓" else "✗"
  let name := r.step.id.getD r.step.name
  s!"  {mark} [{r.index}] {name} {r.detail}"

end StepReport

/-- The texts as lines on the bench. -/
def lines (b : Bench) (texts : List String) : Bench := texts.foldl Bench.line b

namespace Context

/-- The reports of the steps of a pipeline. -/
def stepReports (c : Context) (path : String) (p : Pipeline) : List StepReport :=
  let x : Examiner := {
    around := c.around
    workspaceRoot := c.workspaceRoot
    defaults := c.settings.defaults
    document := path }
  (x.verdicts p).map fun (i, step, v) => ⟨i, step, v⟩

/-- The reports of a pipeline's steps printed, with its warnings. -/
def printReports (c : Context) (b : Bench) (p : Pipeline) (warnings : List Pipeline.Warning)
    (reports : List StepReport) : Bench :=
  if c.json then
    b.print (.pretty (.ofPairs [("pipeline", .str p.name),
      ("warnings", .ofList (fun w => .str w.message) warnings),
      ("steps", .ofList StepReport.toJson reports)]))
  else
    lines b (["", p.name, rule] ++ reports.map StepReport.line
      ++ warnings.map (fun w => "  ! " ++ w.message) ++ [""])

/-- The pipeline of a document checked. -/
def check (c : Context) (path : String) : Action :=
  match c.document path with
  | .error f => .fail f
  | .ok (pipeline, warnings) => fun b =>
    let reports := c.stepReports path pipeline
    let failed := (reports.filter (!·.passed)).length
    (c.printReports b pipeline warnings reports,
      if failed = 0 then .ok () else .error (.notCompiled failed reports.length))

/-! ## Triggers -/

/-- The triggers of the documents below the directory of triggers, and what is said of the steps
that give none. Documents that cannot be read are passed over. -/
def foundTriggers (c : Context) : List TriggerInfo × List String :=
  let s := c.settings
  let scanned := (c.environment.tree.pipelinesBelow s.triggerRoot).filterMap fun path =>
    match Pipeline.load c.environment.tree path with
    | .ok p => some (path, p.triggers path s.defaults)
    | .error _ => none
  (scanned.flatMap fun (_, found, _) => found.map (·.info),
   scanned.flatMap fun (path, _, rejected) => rejected.map fun e => s!"{path}: {e.message}")

end Context

/-- A text with blanks behind it up to a width. -/
def padEnd (width : Nat) (s : String) : String :=
  s ++ String.ofList (List.replicate (width - s.length) ' ')

/-- The line of a trigger. -/
def triggerLine (i : TriggerInfo) : String := s!"  {i.kind.name} {padEnd 32 i.id} {i.detail}"

/-- The lines that tell of rejected steps, or how many they are. -/
def rejectedLines (all : Bool) (rejected : List String) : List String :=
  if all then rejected.map ("  ✗ " ++ ·)
  else if rejected.isEmpty then []
  else [s!"  {rejected.length} rejected (use --show-rejected)"]

namespace Context

/-- The triggers listed. -/
def triggers (c : Context) (showRejected : Bool) : Action := fun b =>
  let (found, rejected) := c.foundTriggers
  if c.json then (b.print (.pretty (.ofList TriggerInfo.toJson found)), .ok ())
  else
    (lines b (["", "Triggers " ++ c.settings.triggerRoot, rule]
      ++ (if found.isEmpty then ["  none"] else found.map triggerLine)
      ++ rejectedLines (showRejected || c.verbose) rejected ++ [""]), .ok ())

end Context

end Workflow.Cli
