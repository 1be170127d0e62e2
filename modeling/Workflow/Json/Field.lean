import Workflow.Json.Basic

/- The fields of an object by their kinds: the value of a field that is missing or of
   another kind is a default or an empty list. -/
namespace Workflow.Json

/-- The text of a field. -/
def textAt? (v : Json) (name : String) : Option String := (v.field? name).bind asString?

/-- The text of a field, or a default. -/
def textAt (v : Json) (name default : String) : String := (v.textAt? name).getD default

/-- The number of an integer that is not negative; zero for a negative one. -/
def asNat? : Json → Option Nat
  | .num (.int z) => some z.toNat
  | _ => none

/-- The number of a field. -/
def natAt? (v : Json) (name : String) : Option Nat := (v.field? name).bind asNat?

/-- The number of a field, or a default. -/
def natAt (v : Json) (name : String) (default : Nat) : Nat := (v.natAt? name).getD default

/-- The truth of a field, or false. -/
def flagAt (v : Json) (name : String) : Bool := ((v.field? name).bind asBool?).getD false

/-- The items of an array. -/
def items : Json → List Json
  | .arr vs => vs
  | _ => []

/-- The items of a field. -/
def itemsAt (v : Json) (name : String) : List Json := ((v.field? name).map items).getD []

/-- The texts among the items of a field. -/
def textsAt (v : Json) (name : String) : List String := (v.itemsAt name).filterMap asString?

/-- The fields of an object. -/
def fields : Json → List (String × Json)
  | .obj fs => fs
  | _ => []

/-- The fields of a field. -/
def fieldsAt (v : Json) (name : String) : List (String × Json) :=
  ((v.field? name).map fields).getD []

/-- The fields of a field that are texts. -/
def textFieldsAt (v : Json) (name : String) : List (String × String) :=
  (v.fieldsAt name).filterMap fun (n, f) => f.asString?.map fun t => (n, t)

/-- The array of a list. -/
def ofList (f : α → Json) (xs : List α) : Json := .arr (xs.map f)

/-- The value of a part that may be missing; null stands for it then. -/
def ofOptional (f : α → Json) : Option α → Json
  | some a => f a
  | none => .null

end Workflow.Json
