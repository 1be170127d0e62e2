import Workflow.Manager.Alarm
import Workflow.Trigger.Discovery

/- Refreshes: every trigger is disposed of, the documents are read anew, and the
   listener is started, stopped or moved to another port as needed. Refreshes do not
   overlap: one asked for while another is under way is made up for by one more pass.
   A pass goes on at once until it has to wait for a listener. -/
namespace Workflow.Manager

/-- A trigger with an end put to it, if its number is among the given ones. -/
def disposeOf (gone : List Nat) (live : LiveTrigger × Nat) : LiveTrigger :=
  if gone.contains live.2 then { live.1 with disposed := true } else live.1

/-- The manager without registered triggers, their routes and their alarms. -/
def clear (m : Manager) : Manager :=
  { m with
    triggers := m.triggers.zipIdx.map (disposeOf m.table)
    table := []
    routes := []
    alarms := m.alarms.cancel fun key => key.trigger?.any m.table.contains }

/-- The routes with a trigger put behind those of its path, if it is a webhook. -/
def addRoute (routes : Table (List Nat)) (d : TriggerDefinition × Nat) : Table (List Nat) :=
  match d.1.spec with
  | .webhook hook =>
    Table.insert hook.path (((Table.get? routes hook.path).getD []) ++ [d.2]) routes
  | _ => routes

/-- The manager with the first tick of a trigger set, if it is a timer: one interval from now. -/
def startTimer (now : Nat) (m : Manager) (d : TriggerDefinition × Nat) : Manager :=
  match d.1.spec with
  | .cron interval => m.setTick d.2 (now * Schedule.milli + interval)
  | _ => m

/-- The manager with triggers registered. -/
def install (m : Manager) (now : Nat) (found : List TriggerDefinition) : Manager :=
  let numbered := found.zipIdx m.triggers.length
  let m := { m with
    triggers := m.triggers ++ found.map .ofDefinition
    table := m.table ++ numbered.map (·.2)
    routes := numbered.foldl addRoute m.routes }
  numbered.foldl (startTimer now) m

/-- The triggers that the documents declare, if triggers are enabled. -/
def declared (m : Manager) (tree : FileTree) : List TriggerDefinition :=
  if m.settings.enabled then tree.triggersBelow m.settings.triggerRoot m.settings.defaults else []

/-- What is to be done about the listener: it is kept if it was asked for on the port that is
wanted, and taken away if it is to stop or move. -/
def syncListener (m : Manager) : Manager × RefreshPass :=
  match !m.routes.isEmpty, m.listener with
  | false, none => (m, .passed)
  | false, some _ => ({ m with listener := none }, .stopping none)
  | true, none => (m, .binding m.port)
  | true, some port =>
    if port = m.port then (m, .passed)
    else ({ m with listener := none }, .stopping (some m.port))

/-- One pass over the documents, up to the listener. A manager that has been shut down only
disposes of its triggers. -/
def pass (m : Manager) (now : Nat) (tree : FileTree) : Manager × RefreshPass :=
  let m := m.clear
  if m.stopped then (m, .passed)
  else (m.install now (m.declared tree)).syncListener

/-- The account of a pass: another one if it was asked for meanwhile. -/
def endPass (m : Manager) : Manager × Option RefreshPass :=
  if m.pending then ({ m with pending := false }, some .ready)
  else ({ m with refreshing := false }, none)

/-- A refresh carried on by one move, and where it is then, if it goes on. A listener can be bound
or not. -/
def proceed (m : Manager) (now : Nat) (tree : FileTree) (bindable : Bool) :
    RefreshPass → Manager × Option RefreshPass
  | .ready =>
    let (m, next) := m.pass now tree
    (m, some next)
  | .stopping none => (m, some .passed)
  | .stopping (some port) => (m, some (.binding port))
  | .binding port => (if bindable then { m with listener := some port } else m, some .passed)
  | .passed => m.endPass

/-- A refresh asked for: it begins, unless one is under way. -/
def requestRefresh (m : Manager) : Manager :=
  if m.refreshing then { m with pending := true }
  else { m with refreshing := true, passes := m.passes ++ [.ready] }

/-- The refresh at a place among those under way carried on by one move. -/
def proceedAt (m : Manager) (now : Nat) (tree : FileTree) (bindable : Bool) (place : Nat) :
    Manager :=
  match m.passes[place]? with
  | none => m
  | some current =>
    let (m, next) := m.proceed now tree bindable current
    { m with passes := match next with
      | some p => m.passes.set place p
      | none => m.passes.eraseIdx place }

/-- The refreshes carried on until none is under way, for at most as many moves as the fuel. -/
def settleWithin (now : Nat) (tree : FileTree) (bindable : Bool) : Nat → Manager → Manager
  | 0, m => m
  | fuel + 1, m =>
    if m.passes.isEmpty then m
    else settleWithin now tree bindable fuel (m.proceedAt now tree bindable 0)

/-- A pass has at most four moves, and at most two passes come of what has been asked for. -/
def refreshMoves : Nat := 10

/-- The refreshes carried on until none is under way. -/
def settleRefresh (m : Manager) (now : Nat) (tree : FileTree) (bindable : Bool) : Manager :=
  settleWithin now tree bindable refreshMoves m

/-- A refresh asked for and carried out. -/
def refresh (m : Manager) (now : Nat) (tree : FileTree) (bindable : Bool) : Manager :=
  m.requestRefresh.settleRefresh now tree bindable

/-- The manager started, and its first refresh asked for. -/
def start (m : Manager) : Manager := { m with stopped := false }.requestRefresh

/-- The manager with a port set for the next refresh. -/
def setPort (m : Manager) (port : Nat) : Manager := { m with port }

/-- The manager shut down. A refresh that is under way goes on. -/
def shutdown (m : Manager) : Manager :=
  { { m with
        stopped := true
        alarms := m.alarms.cancel (· == AlarmKey.refresh) }.clear with
    listener := none }

end Workflow.Manager
