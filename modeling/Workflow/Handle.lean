import Workflow.Event

/- A handle on one run, and those who wait at it until the run is not held back.
   Waiters look at the flags only when pending work is run, so a pause that is over
   before then is not noticed by them, nor is a break in a pause. -/
namespace Workflow

/-- A handle on a run. Clones of it share the flags and the waiters, so they are one handle. -/
structure Handle where
  runId : String
  state : RunState := {}
  /-- Whether each waiter has been released, the earliest first. -/
  waiters : List Bool := []
  deriving DecidableEq, Repr, Inhabited

/-- What is done through a handle. -/
inductive HandleOp where
  | act (action : ControlAction)
  | wait
  /-- Pending work is run. -/
  | settle
  deriving DecidableEq, Repr, Inhabited

namespace Handle

/-- The handle after an operation, whether it changed the flags, and what is announced. -/
def apply (h : Handle) : HandleOp → Handle × Bool × Option Event
  | .act action =>
    match h.state.act? action with
    | none => (h, false, none)
    | some state => ({ h with state }, true, action.happening?.map (⟨h.runId, ·⟩))
  | .wait => ({ h with waiters := h.waiters ++ [false] }, false, none)
  | .settle =>
    (if h.state.blocks then h else { h with waiters := h.waiters.map fun _ => true }, false, none)

end Handle

end Workflow
