import Workflow.Manager.Basic
import Workflow.Pipeline.Document

/- What sets the alarms of a manager, and what comes of one that rings: the ticks of
   timers, changes of files that have come to rest, and refreshes after changes of
   documents. -/
namespace Workflow

/-- The millisecond at which an instant given in nanoseconds is over. -/
def Schedule.ceilMillis (instant : Nat) : Nat := (instant + (milli - 1)) / milli

/-- How late a tick is handled at most for being on time, in nanoseconds. -/
def Schedule.leeway : Nat := 5 * milli

/-- When the tick behind one is due that is handled at a time, in milliseconds: an interval behind
the one that is handled, and an interval from now if that one is late. -/
def Schedule.nextTick (now deadline interval : Nat) : Nat :=
  if deadline + leeway < now * milli then now * milli + interval else deadline + interval

/-- The event of a timer that goes off at a time of day. -/
def tickEvent (interval : Nat) (timestamp : String) : Json :=
  .ofPairs [("source", .str "cron"), ("intervalMs", .ofNat (interval / Schedule.milli)),
    ("timestamp", .str timestamp)]

/-- The event of a change of a file. -/
def changeEvent (path : String) (kind : ChangeKind) (watch : WatchSpec) : Json :=
  .ofPairs [("source", .str "watch"), ("path", .str path), ("kind", .str kind.name),
    ("pattern", .str watch.pattern.text)]

namespace Manager

/-- The manager with the next tick of a timer set. -/
def setTick (m : Manager) (trigger deadline : Nat) : Manager :=
  { m with alarms :=
      m.alarms.set (.tick trigger) (Schedule.ceilMillis deadline) (.tick trigger deadline) }

/-- The watch of a trigger in the table that covers a change. -/
def watchOf? (m : Manager) (path : String) (kind : ChangeKind) (trigger : Nat) : Option WatchSpec :=
  match (m.definition? trigger).map TriggerDefinition.spec with
  | some (.watch w) => if w.covers m.settings.workspaceRoot path kind then some w else none
  | _ => none

/-- Whether a refresh follows a change of a file. -/
def concerns (m : Manager) (path : String) : Bool :=
  Pipeline.isDocumentPath path && Path.startsWith path m.settings.triggerRoot

/-- The manager with a refresh set for the time when the documents have come to rest. -/
def scheduleRefresh (m : Manager) (now : Nat) : Manager :=
  { m with alarms := m.alarms.set .refresh (now + m.settings.refreshDebounce) .refresh }

/-- The manager with an attempt of a watch set for the time when the file has come to rest. -/
def scheduleChange (m : Manager) (now : Nat) (path : String) (kind : ChangeKind) (trigger : Nat) :
    Manager :=
  match m.watchOf? path kind trigger with
  | some w =>
    let task := AlarmTask.change trigger (changeEvent path kind w)
    { m with alarms :=
        m.alarms.set (.change trigger (Path.parts path) kind) (now + w.debounce) task }
  | none => m

/-- The manager after a change of a file. -/
def change (m : Manager) (now : Nat) (path : String) (kind : ChangeKind) : Manager :=
  let m := if m.concerns path then m.scheduleRefresh now else m
  m.table.foldl (fun m trigger => m.scheduleChange now path kind trigger) m

/-- What an alarm gives rise to. -/
inductive Ring where
  | nothing
  | firing (firing : Firing)
  /-- A refresh is asked for. -/
  | refresh
  deriving Repr, Inhabited

/-- What an attempt gives rise to. -/
def Ring.ofFiring? : Option Firing → Ring
  | some f => .firing f
  | none => .nothing

/-- The manager after an alarm has rung at a time of day. A timer has its next tick set. -/
def ring (m : Manager) (now : Nat) (timestamp : String) (number : Nat) : Manager × Ring :=
  match m.alarms.find? number with
  | none => (m, .nothing)
  | some alarm =>
    let m := { m with alarms := m.alarms.drop number }
    match alarm.item with
    | .refresh => (m, .refresh)
    | .change trigger event =>
      let (m, firing) := m.attempt now trigger event
      (m, .ofFiring? firing)
    | .tick trigger deadline =>
      match (m.definition? trigger).map TriggerDefinition.spec with
      | some (.cron interval) =>
        let (m, firing) := m.attempt now trigger (tickEvent interval timestamp)
        (m.setTick trigger (Schedule.nextTick now deadline interval), .ofFiring? firing)
      | _ => (m, .nothing)

end Manager

end Workflow
