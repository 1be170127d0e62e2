/- Cooldowns: a firing is accepted unless an accepted one lies less than a window
   back. Refused firings leave no trace.

   Statement: `acquire_refused` — a refused firing changes nothing. -/
namespace Workflow

/-- A window in milliseconds, and the time of the last accepted firing. -/
structure Cooldown where
  window : Nat
  last : Option Nat := none
  deriving DecidableEq, Repr, Inhabited

namespace Cooldown

/-- Whether a firing now is accepted. -/
def accepts (c : Cooldown) (now : Nat) : Bool := c.last.all fun last => c.window ≤ now - last

/-- The cooldown after a firing now, and whether it was accepted. -/
def acquire (c : Cooldown) (now : Nat) : Cooldown × Bool :=
  if c.accepts now then ({ c with last := some now }, true) else (c, false)

theorem acquire_refused {c : Cooldown} {now : Nat} (h : (c.acquire now).2 = false) :
    (c.acquire now).1 = c := by
  unfold acquire at h ⊢
  split at h <;> simp_all

end Cooldown

end Workflow
