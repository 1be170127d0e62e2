import Workflow.Json.Tree

/- Records read from a tree: a fixed list of named fields, given as an object or,
   in the order of the names, as an array. In an object a field of another name is
   passed over and a field given twice is refused; an array has no more items than
   there are names, and the fields it does not reach are left out. -/
namespace Workflow.Json

/-- How a field of a record is given. -/
inductive Slot where
  /-- No field of an object has the name. -/
  | absent
  /-- The array ends before the field. -/
  | cutOff
  | given (tree : Tree)
  deriving Repr, Inhabited

/-- The slots with the field at a place filled; refused when it is filled already. -/
def fill : Nat → Tree → List Slot → Option (List Slot)
  | _, _, [] => some []
  | 0, _, .given _ :: _ => none
  | 0, t, _ :: rest => some (.given t :: rest)
  | n + 1, t, s :: rest => (fill n t rest).map (s :: ·)

/-- The slots filled from the fields of an object. -/
def fillAll (names : List String) :
    List (Option String × Tree) → List Slot → Option (List Slot)
  | [], slots => some slots
  | (name, t) :: rest, slots => do
    let name ← name
    let slots ← if names.contains name then fill (names.idxOf name) t slots else some slots
    fillAll names rest slots

/-- The fields of a record of the given names. -/
def Tree.record? (names : List String) : Tree → Option (List Slot)
  | .obj fields => fillAll names fields (names.map fun _ => .absent)
  | .arr items =>
    if items.length ≤ names.length then
      some (items.map .given ++ List.replicate (names.length - items.length) .cutOff)
    else none
  | _ => none

/-- The string of a string tree. -/
def Tree.string? : Tree → Option String
  | .str s => s
  | _ => none

/-- The truth of a boolean tree. -/
def Tree.bool? : Tree → Option Bool
  | .bool b => some b
  | _ => none

/-- The natural number of a tree that writes one below `bound` without point or exponent. -/
def Tree.natBelow? (bound : Nat) : Tree → Option Nat
  | .num (some (.int z)) => if 0 ≤ z && z < bound then some z.toNat else none
  | _ => none

/-- The strings of an array of strings. -/
def Tree.strings? : Tree → Option (List String)
  | .arr items => items.mapM Tree.string?
  | _ => none

/-- The value of a field that has to be given. -/
def Slot.required (s : Slot) (read : Tree → Option α) : Option α :=
  match s with
  | .given t => read t
  | _ => none

/-- The value of a field that may be left out or be null. -/
def Slot.optional (s : Slot) (read : Tree → Option α) : Option (Option α) :=
  match s with
  | .given .null => some none
  | .given t => (read t).map some
  | _ => some none

/-- The value of a field that an object may leave out or give as null, and an array may not
leave out. -/
def Slot.nullable (s : Slot) (read : Tree → Option α) : Option (Option α) :=
  match s with
  | .cutOff => none
  | s => s.optional read

/-- The value of a field that has a default when it is left out. -/
def Slot.withDefault (s : Slot) (default : α) (read : Tree → Option α) : Option α :=
  match s with
  | .given t => read t
  | _ => some default

end Workflow.Json
