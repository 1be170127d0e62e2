/- The control of a run: two flags and the actions that set them. An action that
   would change nothing has no effect and is announced to nobody.

   Statement: `cancelled_act` — no action takes a cancellation back. -/
namespace Workflow

/-- The flags of a run. -/
structure RunState where
  paused : Bool := false
  cancelled : Bool := false
  deriving DecidableEq, Repr, Inhabited

/-- What can be asked of a run. -/
inductive ControlAction where
  | pause
  | resume
  | cancel
  deriving DecidableEq, Repr, Inhabited

namespace ControlAction

/-- The name of an action. -/
def name : ControlAction → String
  | .pause => "pause"
  | .resume => "resume"
  | .cancel => "cancel"

/-- The action of a name. -/
def ofName? : String → Option ControlAction
  | "pause" => some .pause
  | "resume" => some .resume
  | "cancel" => some .cancel
  | _ => none

end ControlAction

namespace RunState

/-- The flags after an action that changes them; nothing for one that does not. A cancelled run
is not paused any more, but one paused before can still be resumed. -/
def act? (s : RunState) : ControlAction → Option RunState
  | .pause => if s.paused || s.cancelled then none else some { s with paused := true }
  | .resume => if s.paused then some { s with paused := false } else none
  | .cancel => if s.cancelled then none else some { s with cancelled := true }

/-- The flags after an action. -/
def act (s : RunState) (a : ControlAction) : RunState := (s.act? a).getD s

/-- Whether the flags hold a run back from its next step. -/
def blocks (s : RunState) : Bool := s.paused && !s.cancelled

theorem cancelled_act {s : RunState} (h : s.cancelled = true) (a : ControlAction) :
    (s.act a).cancelled = true := by
  cases a <;> simp only [act, act?] <;> split <;> simp [h]

end RunState

end Workflow
