import Workflow.Cli.Listing
import Workflow.Cli.Playback
import Workflow.Rehearsal.Triggered

/- The manager of triggers set to work. The runs that it asks for are made by a runner of
   the program, all of them dry or all as they are, and its first state is told. -/
namespace Workflow.Cli.Context

/-- What is set to work for triggers, the manager having been started, with a port for the listener
if one is given. -/
def service (c : Context) (port : Option Nat) (dryRun : Bool) : Rehearsal.WatchStage :=
  let s := c.settings
  let s := { s with webhookPort := port.getD s.webhookPort }
  let stage : Rehearsal.WatchStage := {
    runner := c.runner
    world := {
      manager := .new s
      tree := c.environment.tree
      invoker := .runner (c.runsDry dryRun)
      timestamp := c.environment.now.text }
    trace := c.environment.traceId }
  stage.refreshed .start

/-- The address of the manager's listener. -/
def listenerAddress? (c : Context) (m : Manager) : Option String := do
  let port ← m.listener
  let address ← Http.localAddress? m.settings.webhookHost
  let port := if port = 0 then c.environment.freePort else port
  some s!"{address}:{port}"

/-- The manager of triggers set to work, and its state told. -/
def serve (c : Context) (port : Option Nat) (dryRun : Bool) : Action := fun b =>
  let m := (c.service port dryRun).world.manager
  let address? := c.listenerAddress? m
  if c.json then
    (b.print (.json (.ofPairs [("triggers", .ofList TriggerInfo.toJson m.list),
      ("webhookAddr", .ofOption address?)])), .ok ())
  else
    (lines b (["", "Flowline trigger manager", rule,
      "  Workspace: " ++ m.settings.workspaceRoot, s!"  Triggers: {m.list.length}"]
      ++ address?.toList.map ("  Webhooks: http://" ++ ·)
      ++ ["", "  Press Ctrl-C to stop", ""]), .ok ())

end Workflow.Cli.Context
