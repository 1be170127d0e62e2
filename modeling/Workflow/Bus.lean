/- A bus that carries events to its subscribers. An emission goes to those who are
   subscribed when it begins, in the order in which they subscribed, so one of them
   may subscribe or unsubscribe meanwhile. Numbers of subscriptions are never given
   twice. -/
namespace Workflow

/-- The subscribers of a bus, with their numbers. -/
structure Bus (σ : Type u) where
  subscribers : List (Nat × σ) := []
  /-- The number of the next subscription. -/
  next : Nat := 0
  deriving Repr, Inhabited

namespace Bus

/-- The bus with one more subscriber, who has the number `bus.next`. -/
def subscribe (bus : Bus σ) (subscriber : σ) : Bus σ :=
  ⟨bus.subscribers ++ [(bus.next, subscriber)], bus.next + 1⟩

/-- Whether a subscription of that number is held. -/
def holds (bus : Bus σ) (id : Nat) : Bool := bus.subscribers.any (·.1 == id)

/-- The bus without the subscription of a number. -/
def unsubscribe (bus : Bus σ) (id : Nat) : Bus σ :=
  { bus with subscribers := bus.subscribers.filter (·.1 != id) }

end Bus

end Workflow
