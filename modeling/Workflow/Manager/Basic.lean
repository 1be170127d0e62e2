import Workflow.Trigger.Alarms
import Workflow.Trigger.Chain
import Workflow.Trigger.Cooldown

/- The manager of triggers: the triggers that it has registered, the routes and the
   alarms by which they fire, and the listener for webhooks. A trigger that is
   disposed of stays known by its number, so that what still refers to it finds it
   disposed of. Each firing has to pass the cooldown of its trigger. -/
namespace Workflow

/-- A trigger that was registered. -/
structure LiveTrigger where
  definition : TriggerDefinition
  cooldown : Cooldown
  disposed : Bool := false
  deriving DecidableEq, Repr, Inhabited

/-- A trigger that is registered now and has not fired. -/
def LiveTrigger.ofDefinition (d : TriggerDefinition) : LiveTrigger :=
  { definition := d, cooldown := { window := d.cooldown } }

/-- What an alarm of the manager stands under. Triggers are given by their numbers. -/
inductive AlarmKey where
  | tick (trigger : Nat)
  /-- A change of a file that is watched. -/
  | change (trigger : Nat) (path : List Path.Part) (kind : ChangeKind)
  | refresh
  deriving DecidableEq, Repr, Inhabited

/-- The trigger that an alarm belongs to. -/
def AlarmKey.trigger? : AlarmKey → Option Nat
  | .tick t => some t
  | .change t _ _ => some t
  | .refresh => none

/-- What an alarm of the manager rings for. -/
inductive AlarmTask where
  /-- The end of an interval, given in nanoseconds. -/
  | tick (trigger deadline : Nat)
  | change (trigger : Nat) (event : Json)
  | refresh
  deriving Repr, Inhabited

/-- Where a refresh is that has been begun. -/
inductive RefreshPass where
  /-- In front of a pass over the documents. -/
  | ready
  /-- Waiting for a listener to stop; then another one is bound to the port, if one is given. -/
  | stopping (port : Option Nat)
  /-- Waiting for a listener to be bound to a port. -/
  | binding (port : Nat)
  /-- Behind a pass that has not been accounted for. -/
  | passed
  deriving DecidableEq, Repr, Inhabited

/-- A manager. Times are in milliseconds. -/
structure Manager where
  settings : TriggerSettings
  /-- The port that the next listener is bound to; any free one if it is zero. -/
  port : Nat
  /-- Every trigger that was ever registered. A trigger's number is its place. -/
  triggers : List LiveTrigger := []
  /-- The numbers of the triggers registered now, in order. -/
  table : List Nat := []
  /-- The numbers of the webhooks registered now, by their paths. -/
  routes : Table (List Nat) := []
  /-- The port that the listener was asked for, if there is one. -/
  listener : Option Nat := none
  /-- Whether a refresh is under way. -/
  refreshing : Bool := false
  /-- Whether another pass was asked for during it. -/
  pending : Bool := false
  /-- The refreshes under way. -/
  passes : List RefreshPass := []
  alarms : Alarms AlarmKey AlarmTask := {}
  stopped : Bool := false
  deriving Inhabited

/-- A firing that passed all checks: a run is to be asked for. -/
structure Firing where
  /-- The number of the trigger. -/
  trigger : Nat
  definition : TriggerDefinition
  event : Json
  deriving Repr, Inhabited

namespace Manager

/-- A new manager. -/
def new (settings : TriggerSettings) : Manager := { settings, port := settings.webhookPort }

/-- The definitions of the triggers registered now. -/
def definitions (m : Manager) : List TriggerDefinition :=
  m.table.filterMap fun t => (m.triggers[t]?).map (·.definition)

/-- The triggers as they are listed. -/
def list (m : Manager) : List TriggerInfo := m.definitions.map (·.info)

/-- The definition of a trigger that is registered now. -/
def definition? (m : Manager) (trigger : Nat) : Option TriggerDefinition :=
  if m.table.contains trigger then (m.triggers[trigger]?).map (·.definition) else none

/-- A trigger's attempt to fire. One that is disposed of or cooling down does not. -/
def attempt (m : Manager) (now trigger : Nat) (event : Json) : Manager × Option Firing :=
  match m.triggers[trigger]? with
  | none => (m, none)
  | some live =>
    if live.disposed then (m, none)
    else
      let (cooldown, accepted) := live.cooldown.acquire now
      if accepted then
        ({ m with triggers := m.triggers.set trigger { live with cooldown } },
          some ⟨trigger, live.definition, event⟩)
      else (m, none)

/-- The first trigger in the table with an id fired by hand. -/
def fire (m : Manager) (now : Nat) (id : String) (event : Json) : Manager × Option Firing :=
  match m.table.find? fun t => ((m.triggers[t]?).map (·.definition.id)) == some id with
  | some t => m.attempt now t event
  | none => (m, none)

end Manager

end Workflow
