import Workflow.FileTree
import Workflow.Pipeline.Format
import Workflow.Trigger.Scan

/- The pipelines in a directory and below it, and the triggers that they declare. A
   file that cannot be read, or is no pipeline, declares none. -/
namespace Workflow

/-- The text of a directory's path with single slashes between its pieces. -/
def plainRoot (root : String) : String :=
  let (front, ps) := Path.split root
  Path.behind front (ps.filter (!·.isEmpty))

/-- The paths of all pipelines below a directory, in order. -/
def FileTree.pipelinesBelow (tree : FileTree) (root : String) : List String :=
  match tree.resolve root with
  | none => []
  | some place =>
    let found := (tree.waysBelow place).filter fun way =>
      match way.getLast? with
      | some name => Text.endsWith Pipeline.fileEnding name
      | none => false
    Path.sort (found.map fun way => way.foldl Path.join (plainRoot root))

/-- The triggers that the pipelines below a directory declare, in the order of the paths and of
the steps. -/
def FileTree.triggersBelow (tree : FileTree) (root : String) (defaults : TriggerDefaults) :
    List TriggerDefinition :=
  (tree.pipelinesBelow root).flatMap fun path =>
    match Pipeline.load tree path with
    | .ok pipeline => (pipeline.triggers path defaults).1
    | .error _ => []

end Workflow
