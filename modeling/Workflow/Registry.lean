import Workflow.Pipeline.Intent
import Workflow.Text.Blank

/- The registry of capabilities and the resolution of an intent to the commands
   that serve it. For each capability that an intent asks for, the mappings of the
   user are looked through, then the registry; a capability that neither knows is
   routed to the command of its own name. -/
namespace Workflow

/-- Where a command executes. -/
inductive Locality where
  | internal
  | external
  deriving DecidableEq, Repr, Inhabited

/-- The name of a locality. -/
def Locality.name : Locality → String
  | .internal => "internal"
  | .external => "external"

/-- Whether a capability can run unattended. -/
inductive Determinism where
  | deterministic
  | interactive
  deriving DecidableEq, Repr, Inhabited

namespace Determinism

/-- The name of a determinism. -/
def name : Determinism → String
  | .deterministic => "deterministic"
  | .interactive => "interactive"

/-- The determinism of a name. -/
def ofName? : String → Option Determinism
  | "deterministic" => some .deterministic
  | "interactive" => some .interactive
  | _ => none

end Determinism

/-- A capability led to a command. -/
structure Route where
  capability : String
  command : String
  provider : Option String := none
  target : Option String := none
  locality : Locality := .internal
  deriving DecidableEq, Repr, Inhabited

/-- What makes the payload that a command expects from an intent. -/
abbrev PayloadMapper := Intent → Json

/-- A registered capability. -/
structure Capability extends Route where
  mapper : Option PayloadMapper := none
  determinism : Option Determinism := none
  deriving Inhabited

/-- The capabilities registered so far, the oldest first. -/
abbrev Registry := List Capability

/-- One capability that a provider offers. -/
structure Offer where
  capability : String
  command : String
  mapper : Option PayloadMapper := none

/-- The capabilities that a provider offers: names that share a command, or single offers. -/
inductive Offers where
  | names (names : List String) (command : Option String) (mapper : Option PayloadMapper)
  | single (offers : List Offer)

/-- What a provider registers. -/
structure Registration where
  provider : String
  target : Option String := none
  locality : Locality := .internal
  offers : Offers
  determinism : Option Determinism := none

/-- The offers one by one. Names without a shared command that is not blank are no offers. -/
def Offers.list : Offers → List Offer
  | .names shared command mapper =>
    match command with
    | some c => if Text.blank c then [] else shared.map fun name => ⟨name, c, mapper⟩
    | none => []
  | .single offers => offers

/-- Whether an offer has a name and a command. -/
def Offer.usable (o : Offer) : Bool := !Text.blank o.capability && !Text.blank o.command

/-- The capability that a provider registers with an offer. -/
def Registration.capability (r : Registration) (o : Offer) : Capability where
  capability := o.capability
  command := o.command
  provider := some r.provider
  target := r.target
  locality := r.locality
  mapper := o.mapper
  determinism := r.determinism

/-- The capabilities that a registration adds. -/
def Registration.capabilities (r : Registration) : List Capability :=
  (r.offers.list.filter Offer.usable).map r.capability

/-- How many capabilities a registration adds: the answer to it. -/
def Registration.added (r : Registration) : Nat := r.capabilities.length

/-- The registry with a registration added. -/
def Registry.register (registry : Registry) (r : Registration) : Registry :=
  registry ++ r.capabilities

/-- Whether a capability is registered under a name. -/
def Registry.serves (registry : Registry) (name : String) : Bool :=
  registry.any fun c => c.capability == name

/-- What a resolution was taken from. -/
inductive Source where
  | user
  | registry
  | fallback
  deriving DecidableEq, Repr, Inhabited

/-- The name of a source. -/
def Source.name : Source → String
  | .user => "user"
  | .registry => "registry"
  | .fallback => "fallback"

/-- A command that is to serve an intent. -/
structure Resolution extends Route where
  mapper : Option PayloadMapper := none
  source : Source
  deriving Inhabited

/-- The payload that the command is handed. -/
def Resolution.payload (r : Resolution) (intent : Intent) : Json :=
  match r.mapper with
  | some mapper => mapper intent
  | none => intent.payload

/-- Whether a route has the provider and the target that an intent states. -/
def Route.honours (r : Route) (intent : Intent) : Bool :=
  intent.provider.all (r.provider == some ·) && intent.target.all (r.target == some ·)

/-- The candidates for a name, narrowed to those that honour what the intent states if there is
one that does. -/
def candidates (route : α → Route) (all : List α) (name : String) (intent : Intent) : List α :=
  let named := all.filter fun a => (route a).capability == name
  let exact := named.filter fun a => (route a).honours intent
  if exact.isEmpty then named else exact

/-- The resolutions of one name. -/
def Registry.resolveName (registry : Registry) (mappings : List Route) (intent : Intent)
    (name : String) : List Resolution :=
  match candidates id mappings name intent with
  | m :: ms => (m :: ms).map fun r => { r with source := .user }
  | [] =>
    match candidates Capability.toRoute registry name intent with
    | c :: cs =>
      (c :: cs).map fun c => { c.toRoute with mapper := c.mapper, source := .registry }
    | [] => [{ capability := name, command := name, source := .fallback }]

/-- The resolutions of an intent, in the order of the capabilities that it asks for. -/
def Registry.resolve (registry : Registry) (mappings : List Route) (intent : Intent) :
    List Resolution :=
  intent.capabilityNames.flatMap (registry.resolveName mappings intent)

end Workflow
