/-
  The causes for which a pipeline is not loaded, not started or aborted, and the
  words that tell them. A step whose handler fails is no such cause: it ends with
  a failure that its pipeline may branch on.
-/
namespace Workflow

/-- Why a pipeline cannot be loaded or run. -/
inductive PipelineError where
  /-- The document is missing or is no text. -/
  | unreadable (path : String)
  /-- The text is no document. -/
  | malformed
  | blankName
  | blankIntent (step : Nat)
  /-- A payload lacks a field that its intent requires. -/
  | missingField (intent field : String)
  /-- No step has the id that a run was to start at. -/
  | noSuchStep (id : String)
  /-- The index that a run was to start at is behind the last step. -/
  | noSuchIndex (index : Nat)
  deriving DecidableEq, Repr, Inhabited

namespace PipelineError

/-- Whether the cause lies in the compilation of a step. -/
def isCompilation : PipelineError → Bool
  | .missingField _ _ => true
  | _ => false

/-- The words for a cause. -/
def message : PipelineError → String
  | .unreadable path => s!"Failed to read pipeline {path}"
  | .malformed => "Invalid pipeline: JSON parse error"
  | .blankName => "Invalid pipeline: Pipeline name cannot be empty"
  | .blankIntent step => s!"Invalid pipeline: Step {step} has an empty intent"
  | .missingField intent field => s!"Intent '{intent}' is missing required field '{field}'"
  | .noSuchStep id => s!"Step not found: {id}"
  | .noSuchIndex index => s!"Step not found: #{index}"

end PipelineError

end Workflow
