import Workflow.Step.Kind

/- The shell commands that git and docker steps stand for. -/
namespace Workflow

/-- A text that goes between double quotes of a shell command, with a backslash in front of each
backslash and double quote. -/
def escapeDoubleQuoted (s : String) : String :=
  String.ofList (s.toList.flatMap fun c => if c == '\\' || c == '"' then ['\\', c] else [c])

/-- The shell command of a git command. -/
def GitCommand.commandLine : GitCommand → String
  | .checkout branch create => "git checkout " ++ (if create then "-b " else "") ++ branch
  | .commit message amend =>
    "git commit " ++ (if amend then "--amend " else "") ++ "-m \"" ++ escapeDoubleQuoted message
      ++ "\""
  | .pull => "git pull"
  | .push => "git push"
  | .clone url directory =>
    "git clone " ++ url ++ (match directory with | some d => " " ++ d | none => "")

/-- The shell command of a docker command. -/
def DockerCommand.commandLine : DockerCommand → String
  | .build tag path => "docker build -t " ++ tag ++ " " ++ path.getD "."
  | .run image detach => "docker run " ++ (if detach then "-d " else "") ++ image

/-- The shell command that a step stands for. -/
def StepKind.shellCommand? : StepKind → Option String
  | .git command => some command.commandLine
  | .docker command => some command.commandLine
  | _ => none

end Workflow
