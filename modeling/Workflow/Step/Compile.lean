import Workflow.Step.CommandLine
import Workflow.Template

/- Compiling a step: templates are filled, and a git or docker step becomes the
   shell command that it stands for. -/
namespace Workflow

/-- Whether a payload's directory is left to the default. -/
def defaultedCwd : Option Json → Bool
  | none => true
  | some .null => true
  | some (.str s) =>
    let t := Text.trim s
    t == "" || t == "." || t == "$\x7bworkspaceFolder\x7d"
  | _ => false

/-- The payload of a shell command with its directory set where it is left to the default. A
payload that is no object has no command and keeps nothing but the directory. -/
def applyDefaultCwd (payload : Json) (cwd : String) : Json :=
  match payload with
  | .obj fields =>
    if defaultedCwd (Table.get? fields "cwd") then .obj (Table.insert "cwd" (.str cwd) fields)
    else payload
  | _ => .obj [("cwd", .str cwd)]

namespace Intent

/-- The intent with the templates of its payload filled. -/
def resolve (vars : Variables) (i : Intent) : Intent :=
  { i with payload := Template.fillJson vars i.payload }

theorem resolve_nil (i : Intent) : i.resolve [] = i := by
  rw [resolve, Template.fillJson_nil]

/-- The intent as a shell command in a directory, when it stands for one. -/
def toTerminal (i : Intent) (cwd : String) : Except PipelineError Intent := do
  let kind ← StepKind.parse i
  match kind.shellCommand? with
  | some command =>
    .ok { i with
      name := terminalRunName
      payload := .obj [("command", .str command), ("cwd", .str cwd)]
      capabilities := none }
  | none => .ok i

/-- The intent that is dispatched for a step. -/
def compile (i : Intent) (vars : Variables) (cwd : String) : Except PipelineError Intent :=
  (i.resolve vars).toTerminal cwd

end Intent

end Workflow
