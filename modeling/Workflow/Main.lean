import Workflow.Cli.Program
import Workflow.Time.Clock
import Std.Time

/- The command line. The files that the program asks for by name, and those whose
   paths stand on standard input, one a line, are read before it begins; the files
   that it changes are written when it has ended. Shell commands see these files and
   no others. -/
namespace Workflow.Cli

/-- An id of random octets, in five groups of hexadecimal digits. -/
def idOf (octets : List UInt8) : String :=
  let digits := octets.flatMap fun o =>
    [Json.hexDigit (o.toNat / 16), Json.hexDigit (o.toNat % 16)]
  let group (first size : Nat) : String := String.ofList ((digits.drop first).take size)
  "-".intercalate [group 0 8, group 8 4, group 12 4, group 16 4, group 20 12]

/-- The files that the program asks for by name before it knows the configuration. -/
def namedFiles (env : Environment) (args : Arguments) : List String :=
  let config := (configDirectory? env args.globals).toList.map (Path.join · "config.toml")
    ++ [Path.join (baseDirectory env args.globals) "flowline.toml"]
  match args.command with
  | .run pipeline _ _ _ => pipeline :: config
  | .check pipeline => pipeline :: config
  | _ => config

/-- The tree with a file of the machine, if it can be read. -/
def readInto (tree : FileTree) (path : String) : IO FileTree := do
  try
    let content ← IO.FS.readBinFile path
    return tree.plant path content.toList
  catch _ => return tree

/-- What the program finds on this machine. -/
def environment (args : List String) : IO Environment := do
  let here := toString (← IO.currentDir)
  let tree := (FileTree.empty.makeDirectories? here).getD .empty
  let now ← Std.Time.Timestamp.now
  let env : Environment := {
    tree := (tree.enter? here).getD tree
    config := {
      configDir := ← IO.getEnv "FLOWLINE_CONFIG_DIR"
      xdgConfigHome := ← IO.getEnv "XDG_CONFIG_HOME"
      home := ← IO.getEnv "HOME" }
    now := .ofNanos now.toNanosecondsSinceUnixEpoch.val.toNat
    runId := idOf (← IO.getRandomBytes 16).toList
    traceId := idOf (← IO.getRandomBytes 16).toList }
  match Arguments.parse args with
  | .error _ => return env
  | .ok parsed =>
    let listed := Text.lines (← (← IO.getStdin).readToEnd)
    let tree ← (namedFiles env parsed ++ listed).foldlM readInto env.tree
    let env := { env with tree }
    let logs := (log? env parsed.globals).toList.map (·.2)
    return { env with tree := ← logs.foldlM readInto tree }

/-- The files that the program has changed, written. -/
def writeChanges (before after : FileTree) : IO Unit := do
  for (place, entry) in after.entries do
    if before.at? place != some entry then
      match entry with
      | .directory => IO.FS.createDirAll (FileTree.pathOf place)
      | .file content => IO.FS.writeBinFile (FileTree.pathOf place) ⟨content.toArray⟩
  for (place, _) in before.entries do
    if (after.at? place).isNone then IO.FS.removeFile (FileTree.pathOf place)

end Workflow.Cli

open Workflow Cli in
def main (args : List String) : IO UInt32 := do
  let env ← environment args
  let report := Cli.run env args
  IO.print report.output
  IO.eprint report.errors
  writeChanges env.tree report.bench.tree
  return report.code.toUInt32
