import Workflow.Bus

/- The work that is done around a bus, in the order in which nested calls do it: a
   subscriber who is called may emit, subscribe, unsubscribe and do other work, and
   all of that is over before the next subscriber is called. The calls still to be
   made and the work still to be done form an agenda whose front is the innermost
   call. -/
namespace Workflow

/-- Something to be done around a bus: of subscribers `σ`, events `ε` and other work `α`. -/
inductive BusAction (σ : Type u) (ε : Type v) (α : Type w) where
  | subscribe (subscriber : σ)
  | unsubscribe (id : Nat)
  | emit (event : ε)
  | work (task : α)

/-- An entry of an agenda. -/
inductive BusTask (σ : Type u) (ε : Type v) (α : Type w) where
  /-- A subscriber is to be called for an event, as part of the emission of a number. -/
  | call (emission id : Nat) (subscriber : σ) (event : ε)
  | act (action : BusAction σ ε α)

/-- What subscribers do when they are called, and what other work does. Both may change the
memory `μ` and ask for actions that come next. -/
structure BusRules (σ ε α μ : Type) where
  hear : μ → Nat → σ → ε → μ × List (BusAction σ ε α)
  work : μ → α → μ × List (BusAction σ ε α)

/-- A bus, the memory of those around it, and the agenda. -/
structure Exchange (σ ε α μ : Type) where
  bus : Bus σ
  memory : μ
  agenda : List (BusTask σ ε α) := []
  /-- How many emissions have begun. -/
  emissions : Nat := 0

namespace Exchange

variable {σ ε α μ : Type}

/-- The exchange with actions put in front of its agenda. -/
def ahead (x : Exchange σ ε α μ) (actions : List (BusAction σ ε α)) : Exchange σ ε α μ :=
  { x with agenda := actions.map .act ++ x.agenda }

/-- The first entry of the agenda done. -/
def step (rules : BusRules σ ε α μ) (x : Exchange σ ε α μ) : Exchange σ ε α μ :=
  match x.agenda with
  | [] => x
  | .call _ id subscriber event :: rest =>
    let (memory, actions) := rules.hear x.memory id subscriber event
    { x with memory, agenda := actions.map .act ++ rest }
  | .act (.subscribe subscriber) :: rest =>
    { x with bus := x.bus.subscribe subscriber, agenda := rest }
  | .act (.unsubscribe id) :: rest => { x with bus := x.bus.unsubscribe id, agenda := rest }
  | .act (.emit event) :: rest =>
    { x with
      agenda := x.bus.subscribers.map (fun (id, s) => .call x.emissions id s event) ++ rest
      emissions := x.emissions + 1 }
  | .act (.work task) :: rest =>
    let (memory, actions) := rules.work x.memory task
    { x with memory, agenda := actions.map .act ++ rest }

/-- The agenda worked through, for at most as many steps as the fuel. -/
def settle (rules : BusRules σ ε α μ) : Nat → Exchange σ ε α μ → Exchange σ ε α μ
  | 0, x => x
  | fuel + 1, x => if x.agenda.isEmpty then x else settle rules fuel (x.step rules)

end Exchange

end Workflow
