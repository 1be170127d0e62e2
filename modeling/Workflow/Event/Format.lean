import Workflow.Event
import Workflow.Pipeline.Format
import Workflow.Time.Timestamp

/- Events as JSON documents: a tag tells what happened, next to the id of the run
   and the moment. Read, a record may also be given as the array of its fields,
   the tag in front. -/
namespace Workflow

open Json

/-- An event with the moment at which it happened. -/
structure StampedEvent extends Event where
  timestamp : Timestamp
  deriving Repr, Inhabited

namespace RunStatus

/-- The status of a name. -/
def ofName? : String → Option RunStatus
  | "success" => some .success
  | "failure" => some .failure
  | "cancelled" => some .cancelled
  | _ => none

/-- The status that a tree writes: its name, or an object of one field of that name and no
value. -/
def read? : Tree → Option RunStatus
  | .str (some s) => ofName? s
  | .obj [(some s, .null)] => ofName? s
  | _ => none

end RunStatus

namespace Happening

/-- The fields that tell what happened. -/
def fields : Happening → List (String × Json)
  | .pipelineStart p => [("pipeline", p.toJson)]
  | .pipelineEnd success status => [("success", .bool success), ("status", .str status.name)]
  | .stepStart i id intent =>
    [("index", .ofNat i), ("stepId", .ofOption id), ("intent", .str intent)]
  | .stepEnd i id success =>
    [("index", .ofNat i), ("stepId", .ofOption id), ("success", .bool success)]
  | .pipelinePause => []
  | .pipelineResume => []

/-- The names of the fields of what a tag stands for. -/
def fieldNames? : String → Option (List String)
  | "pipelineStart" => some ["pipeline"]
  | "pipelineEnd" => some ["success", "status"]
  | "stepStart" => some ["index", "stepId", "intent"]
  | "stepEnd" => some ["index", "stepId", "success"]
  | "pipelinePause" => some []
  | "pipelineResume" => some []
  | _ => none

/-- What happened, from the tag and the fields; a pipeline has at most `depth` arrays and objects
one inside the other. -/
def ofSlots? (depth : Nat) (tag : String) (slots : List Slot) : Option Happening :=
  match tag, slots with
  | "pipelineStart", [pipeline] =>
    (pipeline.required (Pipeline.read? depth)).map .pipelineStart
  | "pipelineEnd", [success, status] => do
    let success ← success.required Tree.bool?
    let status ← status.required RunStatus.read?
    some (.pipelineEnd success status)
  | "stepStart", [index, stepId, intent] => do
    let index ← index.required (Tree.natBelow? 0x10000000000000000)
    let stepId ← stepId.nullable Tree.string?
    let intent ← intent.required Tree.string?
    some (.stepStart index stepId intent)
  | "stepEnd", [index, stepId, success] => do
    let index ← index.required (Tree.natBelow? 0x10000000000000000)
    let stepId ← stepId.nullable Tree.string?
    let success ← success.required Tree.bool?
    some (.stepEnd index stepId success)
  | "pipelinePause", [] => some .pipelinePause
  | "pipelineResume", [] => some .pipelineResume
  | _, _ => none

end Happening

/-- The document form of an event without its moment. -/
def Event.toJson (e : Event) : Json :=
  ofPairs (("type", .str e.happening.name) :: ("runId", .str e.runId) :: e.happening.fields)

/-- The document form of an event. -/
def StampedEvent.toJson (e : StampedEvent) : Json :=
  ofPairs (("type", .str e.happening.name) :: ("runId", .str e.runId)
    :: ("timestamp", .str e.timestamp.text) :: e.happening.fields)

/-- The tag of a record, and the record without it. The tag of an object is its one field
`type`; that of an array is its first item. -/
def splitTag? : Tree → Option (String × Tree)
  | .obj fields =>
    match fields.filter (·.1 == some "type") with
    | [(_, .str (some tag))] => some (tag, .obj (fields.filter (·.1 != some "type")))
    | _ => none
  | .arr (.str (some tag) :: items) => some (tag, .arr items)
  | _ => none

/-- The event that a tree writes, a pipeline in it having at most `depth` arrays and objects one
inside the other. -/
def StampedEvent.read? (depth : Nat) (t : Tree) : Option StampedEvent := do
  let (tag, t) ← splitTag? t
  let names ← Happening.fieldNames? tag
  match ← t.record? ("runId" :: "timestamp" :: names) with
  | runId :: timestamp :: slots =>
    let runId ← runId.required Tree.string?
    let timestamp ← timestamp.required fun t => t.string?.bind Timestamp.parse?
    let happening ← Happening.ofSlots? depth tag slots
    some { runId, happening, timestamp }
  | _ => none

/-- The event of a JSON text. All of the text has to have a value, what is passed over too. -/
def StampedEvent.parse? (text : String) : Option StampedEvent := do
  let t ← Tree.ofText? text
  let _ ← t.value? depthLimit
  read? depthLimit t

end Workflow
