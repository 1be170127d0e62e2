import Workflow.Number.Shortest
import Workflow.Table
/-
  JSON values.

  A number is an integer of 64 bits, signed or unsigned, or a double. An object
  is the table of its fields.
-/

namespace Workflow

namespace Json

/-- A number of a JSON document. -/
inductive Number where
  | int (value : Int)
  | real (value : Number.Binary64)
  deriving DecidableEq, Repr, Inhabited

end Json

/-- A JSON value. -/
inductive Json where
  | null
  | bool (value : Bool)
  | num (value : Json.Number)
  | str (value : String)
  | arr (items : List Json)
  | obj (fields : List (String × Json))
  deriving Repr, Inhabited

namespace Json

/-- The object of a list of pairs; of two pairs of one name the later one counts. -/
def ofPairs (pairs : List (String × Json)) : Json := .obj (Table.ofPairs pairs)

/-- The value of a field of an object; nothing for any other value. -/
def field? : Json → String → Option Json
  | .obj fields, name => Table.get? fields name
  | _, _ => none

/-- The text of a string value. -/
def asString? : Json → Option String
  | .str s => some s
  | _ => none

/-- The truth of a boolean value. -/
def asBool? : Json → Option Bool
  | .bool b => some b
  | _ => none

/-- The double of a number; an integer is rounded to the nearest one. -/
def asReal? : Json → Option Number.Binary64
  | .num (.int z) => Number.Binary64.ofInt z
  | .num (.real x) => some x
  | _ => none

/-- The value of an integer. -/
def ofInt (z : Int) : Json := .num (.int z)

/-- The value of a natural number. -/
def ofNat (n : Nat) : Json := .num (.int n)

/-- The string value, or null. -/
def ofOption : Option String → Json
  | some s => .str s
  | none => .null

end Json

end Workflow
