import Workflow.Http.Target
import Workflow.Json.Tree
import Workflow.Text.Utf8

/- Requests as a listener hands them on: a method, a target, headers whose values are
   octets, and a body. The names of headers are in small letters. -/
namespace Workflow.Http

/-- A request. -/
structure Request where
  method : String
  target : Target
  headers : List (String × Text.Octets) := []
  body : Text.Octets := []
  deriving DecidableEq, Repr, Inhabited

/-- Whether an octet may stand in the value of a header. -/
def isValueOctet (b : UInt8) : Bool := b == 9 || (32 ≤ b && b != 127)

/-- Whether an octet in the value of a header is a visible character, a blank or a tab. -/
def isVisible (b : UInt8) : Bool := b == 9 || (32 ≤ b && b < 127)

namespace Request

/-- A header with its name in small letters. -/
def header? (name : String) (value : Text.Octets) : Option (String × Text.Octets) :=
  if isToken name && value.all isValueOctet then some (Text.asciiLower name, value) else none

/-- The request of texts; none when a part is not well formed. -/
def make? (method target : String) (headers : List (String × Text.Octets)) (body : Text.Octets) :
    Option Request := do
  let target ← Target.parse? target
  let headers ← headers.mapM fun (name, value) => header? name value
  if isToken method then some { method, target, headers, body } else none

/-- The text of the first header of a name in small letters. A value with an octet that is not
visible has none. -/
def headerText? (r : Request) (name : String) : Option String :=
  match r.headers.find? (·.1 == name) with
  | some (_, value) => if value.all isVisible then Text.decode? value else none
  | none => none

/-- The value of the body: null when it is empty, the value that it writes in JSON, or else its
text. -/
def bodyValue (r : Request) : Json :=
  if r.body.isEmpty then .null
  else match (Text.decode? r.body).bind Json.parse? with
    | some v => v
    | none => .str (Text.decodeLossy r.body)

end Request

end Workflow.Http
