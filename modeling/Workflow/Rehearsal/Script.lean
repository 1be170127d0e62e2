import Workflow.Invocation
import Workflow.Event
import Workflow.Json.Writer

/- Scripts for the handlers of a rehearsal: what a handler does in each of its
   calls, and what a listener does when it hears of something. -/
namespace Workflow.Rehearsal

/-- What a handler does in one call: actions on the runner, then a wait, then its outcome. -/
structure Cue where
  actions : List ControlAction := []
  delay : Nat := 0
  /-- The message that the call fails with. -/
  fail : Option String := none
  /-- The field of the payload without which the call fails. -/
  require : Option String := none
  vars : List (String × String) := []
  /-- Variables that take the text of a field of the payload, if it has the field. -/
  fromPayload : List (String × String) := []
  deriving Repr, Inhabited

/-- What a handler does in its calls. The last cue serves for all later ones. -/
abbrev Script := List Cue

/-- The cue of a call, the first call having the number zero. -/
def Script.cue (script : Script) (call : Nat) : Cue :=
  match script[call]? with
  | some cue => cue
  | none => script.getLast?.getD {}

/-- What comes of a call. The variables are handed on with a failure too. -/
def Cue.outcome (cue : Cue) (payload : Json) : Outcome :=
  let message := match cue.fail, cue.require with
    | some m, _ => some m
    | none, some field =>
      if (payload.field? field).isNone then some ("missing " ++ field) else none
    | none, none => none
  let taken := cue.fromPayload.filterMap fun (name, field) =>
    (payload.field? field).map fun v => (name, v.plainText)
  { success := message.isNone
    vars := Table.ofPairs (cue.vars ++ taken)
    message }

/-- The id of the run of a number. -/
def runName (number : Nat) : String := "run-" ++ toString number

/-- An action on the runner, or on the run of a number, at the first event of a description. -/
structure Rule where
  event : String
  index : Option Nat := none
  run : Option Nat := none
  action : ControlAction
  target : Option Nat := none
  deriving Repr, Inhabited

/-- Whether an event is of the description. -/
def Rule.applies (rule : Rule) (e : Event) : Bool :=
  rule.event == e.happening.name
    && rule.index.all (e.happening.index? == some ·)
    && rule.run.all (e.runId == runName ·)

end Workflow.Rehearsal
