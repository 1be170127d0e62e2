import Workflow.Pipeline.Document
import Workflow.Json.Record
import Workflow.FileTree

/- Pipelines as JSON documents. Written, a field that is absent and a payload that
   is null are left out; read, fields of other names are passed over, and a record
   may also be given as the array of its fields. -/
namespace Workflow

open Json

/-- A pair for a field that is present. -/
def presentText (name : String) (value : Option String) : List (String × Json) :=
  value.toList.map fun v => (name, .str v)

namespace Intent

/-- The names of the fields of a note. -/
def Meta.fieldNames : List String := ["dryRun", "traceId", "stepId", "runId"]

/-- The names of the fields of an intent. -/
def fieldNames : List String :=
  ["id", "intent", "description", "capabilities", "payload", "provider", "target", "onFailure",
    "meta"]

/-- The document form of a note. -/
def Meta.toJson (m : Intent.Meta) : Json :=
  ofPairs (m.dryRun.toList.map (fun b => ("dryRun", .bool b)) ++ presentText "traceId" m.traceId
    ++ presentText "stepId" m.stepId ++ presentText "runId" m.runId)

/-- The pair for a payload that is not null. -/
def payloadPair : Json → List (String × Json)
  | .null => []
  | v => [("payload", v)]

/-- The document form of an intent. -/
def toJson (i : Intent) : Json :=
  ofPairs (presentText "id" i.id ++ [("intent", .str i.name)]
    ++ presentText "description" i.description
    ++ i.capabilities.toList.map (fun cs => ("capabilities", .arr (cs.map .str)))
    ++ payloadPair i.payload
    ++ presentText "provider" i.provider ++ presentText "target" i.target
    ++ presentText "onFailure" i.onFailure
    ++ i.note.toList.map (fun m => ("meta", m.toJson)))

/-- The note that a tree writes. -/
def Meta.read? (t : Tree) : Option Intent.Meta :=
  match t.record? Meta.fieldNames with
  | some [dryRun, traceId, stepId, runId] => do
    let dryRun ← dryRun.optional Tree.bool?
    let traceId ← traceId.optional Tree.string?
    let stepId ← stepId.optional Tree.string?
    let runId ← runId.optional Tree.string?
    some ⟨dryRun, traceId, stepId, runId⟩
  | _ => none

/-- The intent that a tree writes, its payload having at most `depth - 1` arrays and objects one
inside the other. -/
def read? (depth : Nat) (t : Tree) : Option Intent :=
  match t.record? fieldNames with
  | some [id, name, description, capabilities, payload, provider, target, onFailure, note] => do
    let id ← id.optional Tree.string?
    let name ← name.required Tree.string?
    let description ← description.optional Tree.string?
    let capabilities ← capabilities.optional Tree.strings?
    let payload ← payload.withDefault .null (Tree.value? (depth - 1))
    let provider ← provider.optional Tree.string?
    let target ← target.optional Tree.string?
    let onFailure ← onFailure.optional Tree.string?
    let note ← note.optional Meta.read?
    some { id, name, description, capabilities, payload, provider, target, onFailure, note }
  | _ => none

/-- The intent of a JSON text. -/
def parse? (text : String) : Option Intent := (Tree.ofText? text).bind (read? depthLimit)

end Intent

namespace Pipeline

/-- The names of the fields of a pipeline. -/
def fieldNames : List String := ["name", "profile", "steps"]

/-- The document form of a pipeline. -/
def toJson (p : Pipeline) : Json :=
  ofPairs ([("name", .str p.name)] ++ presentText "profile" p.profile
    ++ [("steps", .arr (p.steps.map Intent.toJson))])

/-- The steps of an array of intents. -/
def readSteps? (depth : Nat) : Tree → Option (List Intent)
  | .arr items => items.mapM (Intent.read? (depth - 1))
  | _ => none

/-- The pipeline that a tree writes, with at most `depth` arrays and objects one inside the
other. -/
def read? (depth : Nat) (t : Tree) : Option Pipeline :=
  match t.record? fieldNames with
  | some [name, profile, steps] => do
    let name ← name.required Tree.string?
    let profile ← profile.optional Tree.string?
    let steps ← steps.withDefault [] (readSteps? (depth - 1))
    some { name, profile, steps }
  | _ => none

/-- The pipeline of a JSON text. -/
def parse (text : String) : Except PipelineError Pipeline :=
  match (Tree.ofText? text).bind (read? depthLimit) with
  | some p => .ok p
  | none => .error .malformed

/-- The pipeline of a file. -/
def load (tree : FileTree) (path : String) : Except PipelineError Pipeline :=
  match tree.readText? path with
  | some text => parse text
  | none => .error (.unreadable path)

end Pipeline

end Workflow
