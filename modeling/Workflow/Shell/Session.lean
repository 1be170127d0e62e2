import Workflow.FileTree
import Workflow.Table
import Workflow.Text.Blank

/- A session of the shell between two commands, and what a command leaves behind: a
   status, what it wrote, and a tree of files. -/
namespace Workflow.Shell

/-- How a session ended. -/
inductive Ending where
  | exit (code : Nat)
  /-- It was killed. -/
  | signal
  deriving DecidableEq, Repr, Inhabited

/-- A session. The current directory is that of the tree. -/
structure Session where
  tree : FileTree
  vars : Table String := []
  /-- The status of the last command. -/
  status : Nat := 0
  ended : Option Ending := none
  out : Text.Octets := []
  errors : Text.Octets := []
  deriving Repr, Inhabited

namespace Session

/-- The number that the shell knows itself by. -/
def ownNumber : String := "4711"

/-- The session with a text written. -/
def say (s : Session) (text : String) : Session := { s with out := s.out ++ Text.encode text }

/-- The session with a command's complaint, and its status. -/
def complain (s : Session) (text : String) (status : Nat) : Session :=
  { s with errors := s.errors ++ Text.encode (text ++ "\n"), status }

/-- The session with a status. -/
def done (s : Session) (status : Nat) : Session := { s with status }

/-- The session ended with a code. -/
def leave (s : Session) (code : Nat) : Session :=
  { s with status := code, ended := some (.exit code) }

/-- The current directory. -/
def directory (s : Session) : String := FileTree.pathOf s.tree.here

/-- The value of a variable. -/
def value (s : Session) (name : String) : String :=
  match name with
  | "?" => toString s.status
  | "$" => ownNumber
  | "#" => "0"
  | "0" => "sh"
  | "PWD" => s.directory
  | _ => (Table.get? s.vars name).getD ""

/-- The status of a session that may have ended. -/
def code (s : Session) : Nat :=
  match s.ended with
  | some (.exit n) => n
  | some .signal => 137
  | none => s.status

end Session

end Workflow.Shell
