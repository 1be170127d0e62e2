import Workflow.Number.Binary64

/- TOML values. A date or a time is kept as it is written. -/
namespace Workflow.Toml

/-- A floating point value. -/
inductive Real where
  | finite (value : Number.Binary64)
  | infinite (negative : Bool)
  | notANumber
  deriving DecidableEq, Repr, Inhabited

/-- A TOML value. -/
inductive Value where
  | text (s : String)
  | integer (z : Int)
  | real (x : Real)
  | truth (b : Bool)
  | moment (written : String)
  | array (items : List Value)
  | table (fields : List (String × Value))
  deriving Repr, Inhabited

end Workflow.Toml
