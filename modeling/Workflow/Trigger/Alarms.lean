/- Alarms that are set for a time, each under a key. Setting an alarm takes the place
   of the one of the same key. Alarms have numbers in the order in which they are
   set, and of two that are due at one time the one set first rings first.

   Statement: `keys_set` — no key has two alarms. -/
namespace Workflow

/-- An alarm. -/
structure Alarm (κ α : Type) where
  number : Nat
  key : κ
  due : Nat
  item : α
  deriving DecidableEq, Repr, Inhabited

/-- The alarms that are set, the one set first in front. -/
structure Alarms (κ α : Type) where
  next : Nat := 0
  live : List (Alarm κ α) := []
  deriving DecidableEq, Repr, Inhabited

namespace Alarms

variable {κ α : Type} [DecidableEq κ]

/-- The alarms without those of some keys. -/
def cancel (alarms : Alarms κ α) (keys : κ → Bool) : Alarms κ α :=
  { alarms with live := alarms.live.filter fun a => !keys a.key }

/-- The alarms with one set, which gets the number `alarms.next`. -/
def set (alarms : Alarms κ α) (key : κ) (due : Nat) (item : α) : Alarms κ α :=
  { next := alarms.next + 1
    live := (alarms.cancel (· == key)).live ++ [⟨alarms.next, key, due, item⟩] }

/-- The alarm of a number. -/
def find? (alarms : Alarms κ α) (number : Nat) : Option (Alarm κ α) :=
  alarms.live.find? (·.number == number)

/-- The alarms without that of a number. -/
def drop (alarms : Alarms κ α) (number : Nat) : Alarms κ α :=
  { alarms with live := alarms.live.filter (·.number != number) }

/-- The alarm that rings first of those due at a time or before it. -/
def first? (alarms : Alarms κ α) (time : Nat) : Option (Alarm κ α) :=
  (alarms.live.filter (·.due ≤ time)).foldl (fun best a =>
    match best with
    | none => some a
    | some b => if a.due < b.due then some a else some b) none

/-- The keys that have an alarm. -/
def keys (alarms : Alarms κ α) : List κ := alarms.live.map (·.key)

theorem keys_set (alarms : Alarms κ α) (key : κ) (due : Nat) (item : α) :
    (alarms.set key due item).keys = alarms.keys.filter (· != key) ++ [key] := by
  simp [set, cancel, keys, List.filter_map, Function.comp_def, bne]

end Alarms

end Workflow
