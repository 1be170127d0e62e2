import Workflow.Http.Request
import Workflow.Manager.Basic

/- Requests to the listener. The triggers of a path are asked one after the other,
   each for its secret before its cooldown, and the answer says how many fired. -/
namespace Workflow

/-- The answer to a request. -/
inductive WebhookAnswer where
  | notFound
  | methodNotAllowed
  | accepted (fired : Nat)
  | coolingDown
  | unauthorized
  deriving DecidableEq, Repr, Inhabited

namespace WebhookAnswer

/-- The status code of an answer. -/
def status : WebhookAnswer → Nat
  | .notFound => 404
  | .methodNotAllowed => 405
  | .accepted _ => 202
  | .coolingDown => 429
  | .unauthorized => 401

/-- The word for an answer. -/
def label : WebhookAnswer → String
  | .notFound => "not_found"
  | .methodNotAllowed => "method_not_allowed"
  | .accepted _ => "accepted"
  | .coolingDown => "cooldown"
  | .unauthorized => "unauthorized"

/-- How many triggers fired. -/
def fired : WebhookAnswer → Nat
  | .accepted n => n
  | _ => 0

/-- The body of an answer. -/
def body (a : WebhookAnswer) : Json :=
  .ofPairs [("status", .str a.label), ("fired", .ofNat a.fired)]

/-- The answer to a request that so many triggers fired for, some others perhaps cooling down. -/
def ofCounts (fired : Nat) (cooling : Bool) : WebhookAnswer :=
  if fired > 0 then .accepted fired else if cooling then .coolingDown else .unauthorized

/-- The body that is sent for a method: none to a question for the head alone, and none behind a
connection that was granted. -/
def bodyFor (a : WebhookAnswer) (method : String) : Option Json :=
  if method = "HEAD" || (method = "CONNECT" && a.status < 300) then none else some a.body

end WebhookAnswer

/-- The event of a request. -/
def requestEvent (r : Http.Request) : Json :=
  .ofPairs [("source", .str "webhook"), ("path", .str r.target.path), ("method", .str r.method),
    ("query", .ofOption r.target.query), ("body", r.bodyValue)]

/-- Whether a request with a text in its secret header may fire a webhook. -/
def WebhookSpec.admits (hook : WebhookSpec) (provided : Option String) : Bool :=
  match hook.secret with
  | none => true
  | some secret => provided == some secret

namespace Manager

/-- The webhook that a number in the routes stands for. -/
def hook? (m : Manager) (trigger : Nat) : Option WebhookSpec :=
  match m.triggers[trigger]? with
  | none => none
  | some live =>
    match live.definition.spec with
    | .webhook hook => some hook
    | _ => none

/-- What came of asking the triggers of a request. -/
structure Asked where
  manager : Manager
  firings : List Firing := []
  /-- Whether one that was admitted is cooling down. -/
  cooling : Bool := false
  deriving Inhabited

/-- One more trigger asked. -/
def ask (now : Nat) (provided : Option String) (event : Json) (asked : Asked) (trigger : Nat) :
    Asked :=
  let m := asked.manager
  if !(m.hook? trigger).any (·.admits provided) then asked
  else if ((m.triggers[trigger]?).map (·.disposed)).getD true then asked
  else match m.attempt now trigger event with
    | (m, some firing) => { asked with manager := m, firings := asked.firings ++ [firing] }
    | (m, none) => { asked with manager := m, cooling := true }

/-- A request handled: the answer, and the firings in the order of the registrations. -/
def handle (m : Manager) (now : Nat) (r : Http.Request) :
    Manager × WebhookAnswer × List Firing :=
  match (Table.get? m.routes r.target.path).getD [] with
  | [] => (m, .notFound, [])
  | routed =>
    match routed.filter fun t => (m.hook? t).any (·.method == r.method) with
    | [] => (m, .methodNotAllowed, [])
    | matching =>
      let provided := r.headerText? m.settings.headerName
      let asked := matching.foldl (ask now provided (requestEvent r)) { manager := m }
      (asked.manager, .ofCounts asked.firings.length asked.cooling, asked.firings)

end Manager

end Workflow
