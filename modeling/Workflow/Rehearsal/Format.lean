import Workflow.Event.Format
import Workflow.Json.Field
import Workflow.Rehearsal.Timeline
import Workflow.Rehearsal.Triggered
import Workflow.Trigger.Format

/- Rehearsals in JSON: what handlers, listeners and the timeline do is read, and what
   happened is written. What is missing in a description has its default. -/
namespace Workflow.Rehearsal

open Json

/-! ## Descriptions -/

/-- The cue that a record describes. -/
def Cue.ofJson (x : Json) : Cue where
  actions := (x.textsAt "actions").filterMap ControlAction.ofName?
  delay := x.natAt "delay_ms" 0
  fail := x.textAt? "fail"
  require := x.textAt? "require"
  vars := x.textFieldsAt "variables"
  fromPayload := x.textFieldsAt "export"

/-- The scripts of commands. -/
def scriptsOfJson (x : Json) : Table Script :=
  Table.ofPairs (x.fields.map fun (n, v) => (n, v.items.map Cue.ofJson))

/-- The start point that a record describes. -/
def startOfJson (x : Json) : StartPoint :=
  match x.textAt? "step", x.natAt? "index" with
  | some id, _ => .step id
  | none, some i => .index i
  | none, none => .beginning

/-- The pipeline that a record holds, as a text or as a value. -/
def documentOf (x : Json) : Except PipelineError Pipeline :=
  match x.textAt? "text" with
  | some t => Pipeline.parse t
  | none => Pipeline.parse ((x.field? "pipeline").getD .null).render

/-- The run that a record plans. -/
def PlannedRun.ofJson (x : Json) : PlannedRun where
  time := x.natAt "at" 0
  pipeline := documentOf x
  options := {
    start := startOfJson ((x.field? "start").getD .null)
    vars := Table.ofPairs (x.textFieldsAt "variables")
    dryRun := x.flagAt "dry_run"
    cwd := x.textAt? "cwd" }

/-- The request that a record describes, with its time. -/
def Request.ofJson? (x : Json) : Option (Nat × Request) :=
  match x.textAt "action" "" with
  | "active" => some (x.natAt "at" 0, .listActive)
  | word => (ControlAction.ofName? word).map fun a => (x.natAt "at" 0, .control a (x.natAt? "run"))

/-- The rule that a record describes. -/
def Rule.ofJson? (x : Json) : Option Rule :=
  (ControlAction.ofName? (x.textAt "action" "")).map fun a => {
    event := x.textAt "event" ""
    index := x.natAt? "index"
    run := x.natAt? "run"
    action := a
    target := x.natAt? "target" }

/-- The outcome of a run that a word names; none for a run that cannot begin. -/
def statusOfWord : Json → Option RunStatus
  | .str "error" => none
  | .str s => some ((RunStatus.ofName? s).getD .success)
  | _ => some .success

/-- How runs come about, as a record describes it. -/
def Invoker.ofJson (x : Json) : Invoker :=
  if x.textAt "kind" "" = "runner" then .runner (x.flagAt "dry_run")
  else .scripted
    (Table.ofPairs ((x.fieldsAt "results").map fun (n, v) => (n, v.items.map statusOfWord)))
    (x.natAt "delay_ms" 0)

/-! ## Reports -/

/-- The report of an outcome. -/
def outcomeReport (o : Outcome) : Json :=
  ofPairs [("success", .bool o.success), ("variables", Variables.toJson o.vars),
    ("message", .ofOption o.message)]

/-- The report of an invocation. -/
def invocationReport (i : Invocation) : Json :=
  ofPairs [("run", .str i.runId), ("command", .str i.command), ("payload", i.payload),
    ("source", .str i.source.name), ("cwd", .str i.cwd), ("dry_run", .bool i.dryRun),
    ("intent", i.intent.toJson)]

/-- The report of an entry of the log, beside its time. -/
def Entry.report : Entry → List (String × Json)
  | .heard _ e => [("event", e.toJson)]
  | .invoked i => [("invoke", invocationReport i)]
  | .answered id o => [("outcome", outcomeReport o), ("run", .str id)]
  | .controlled a run result =>
    [("control", .str a.name), ("run", .ofOptional .ofNat run),
      ("result", match result with
        | some b => .bool b
        | none => .str "no such run")]
  | .listed names => [("active", .ofList .str names)]

/-- The report of a log, the latest entry of which is its first. -/
def logReport (log : List (Nat × Entry)) : Json :=
  .ofList (fun (t, e) => ofPairs (("t", .ofNat t) :: e.report)) log.reverse

/-- The report of how a run ended. -/
def statusReport (runner : Runner) (id : String) (status : RunStatus) : Json :=
  ofPairs [("run", .str id), ("status", .str status.name), ("success", .bool status.isSuccess),
    ("steps_executed", .ofNat (((Table.get? runner.runs id).map Run.executed).getD 0))]

/-- Whether a run that was asked for comes before another in a report: by time, then by the id of
the trigger's step. -/
def requestBefore (a b : Nat × RunRequest) : Bool :=
  let step (r : RunRequest) := (Table.get? r.vars "trigger_step_id").getD ""
  a.1 < b.1 || (a.1 == b.1 && !(step b.2 < step a.2))

/-- The report of the runs that were asked for, the latest of which is the first. -/
def requestReport (requests : List (Nat × RunRequest)) : Json :=
  .ofList (fun (t, r) => ofPairs (("t", .ofNat t) :: r.fields))
    (requests.reverse.mergeSort requestBefore)

end Workflow.Rehearsal
