import Workflow.Trigger.Alarms

/- Debouncing in virtual time. An action scheduled under a key begins after a delay
   and takes the place of the action of that key that has not ended, whether that one
   has begun or not. -/
namespace Workflow

/-- An action: its name, and how long it goes on after it has begun. -/
structure DebounceAction where
  name : Nat
  busy : Nat := 0
  begun : Bool := false
  deriving DecidableEq, Repr, Inhabited

/-- What an action did: it began, or it ended after having gone on for a while. -/
structure DebounceRecord where
  time : Nat
  key : String
  name : Nat
  ended : Bool
  deriving DecidableEq, Repr, Inhabited

/-- A debouncer and its clock. -/
structure Debouncer where
  delay : Nat
  now : Nat := 0
  actions : Alarms String DebounceAction := {}
  deriving DecidableEq, Repr, Inhabited

namespace Debouncer

/-- The debouncer after an action that is due has gone on: one that begins and is busy stays. -/
def ring (d : Debouncer) (a : Alarm String DebounceAction) : Debouncer × DebounceRecord :=
  let d := { d with now := a.due, actions := d.actions.drop a.number }
  let record : DebounceRecord := ⟨a.due, a.key, a.item.name, a.item.begun⟩
  if a.item.begun || a.item.busy == 0 then (d, record)
  else
    ({ d with actions := d.actions.set a.key (a.due + a.item.busy) { a.item with begun := true } },
      record)

/-- The debouncer at a later time, and what its actions did until then. The fuel bounds the
number of beginnings and ends. -/
def advanceWithin : Nat → Nat → Debouncer → Debouncer × List DebounceRecord
  | 0, time, d => ({ d with now := time }, [])
  | fuel + 1, time, d =>
    match d.actions.first? time with
    | none => ({ d with now := time }, [])
    | some a =>
      let (d, record) := d.ring a
      let (d, records) := advanceWithin fuel time d
      (d, record :: records)

/-- The debouncer some milliseconds later, and what its actions did until then. Each action
begins once and ends once. -/
def advance (d : Debouncer) (ms : Nat) : Debouncer × List DebounceRecord :=
  advanceWithin (2 * d.actions.live.length) (d.now + ms) d

/-- The debouncer with an action scheduled. -/
def schedule (d : Debouncer) (key : String) (action : DebounceAction) : Debouncer :=
  { d with actions := d.actions.set key (d.now + d.delay) action }

/-- The debouncer without its actions. -/
def cancel (d : Debouncer) : Debouncer := { d with actions := d.actions.cancel fun _ => true }

/-- A new debouncer in place of this one, whose actions are dropped. -/
def renew (d : Debouncer) (delay : Nat) : Debouncer := { d.cancel with delay }

/-- The number of keys whose action has not ended. -/
def pending (d : Debouncer) : Nat := d.actions.live.length

end Debouncer

end Workflow
