import Workflow.Registry

/- Invocations of commands, what comes of them, and the table of the handlers that
   commands are bound to. -/
namespace Workflow

/-- A command called for a step of a run. -/
structure Invocation where
  runId : String
  /-- The compiled intent of the step. -/
  intent : Intent
  command : String
  payload : Json
  source : Source
  cwd : String
  dryRun : Bool
  deriving Repr, Inhabited

/-- What came of an invocation. -/
structure Outcome where
  success : Bool
  /-- The values of variables that the handler hands on. -/
  vars : Table String := []
  message : Option String := none
  deriving DecidableEq, Repr, Inhabited

namespace Outcome

/-- The outcome of an invocation that failed for a reason. -/
def failure (message : String) : Outcome := { success := false, message := some message }

/-- The outcome of a command that no handler is bound to. -/
def unbound (source : Source) (command : String) : Outcome :=
  match source with
  | .fallback => failure ("Capability not found: " ++ command)
  | _ => failure ("Command not found: " ++ command)

end Outcome

/-- What is bound to commands, by their names. -/
abbrev CommandTable (η : Type u) := Table η

/-- The outcome of an invocation whose handlers answer at once. -/
def CommandTable.dispatch (commands : CommandTable (Invocation → Outcome)) (i : Invocation) :
    Outcome :=
  match Table.get? commands i.command with
  | some handler => handler i
  | none => .unbound i.source i.command

end Workflow
