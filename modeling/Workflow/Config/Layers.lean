import Workflow.Config.Format
import Workflow.FileTree

/- Where configurations are kept, and how the layers found there are loaded: first
   that of the user, then that of the project. A layer that is no file is passed
   over; one that cannot be used is warned of and changes nothing. -/
namespace Workflow

/-- The variables of the environment that tell where the user's configuration is. -/
structure ConfigEnv where
  configDir : Option String := none
  xdgConfigHome : Option String := none
  home : Option String := none
  deriving DecidableEq, Repr, Inhabited

namespace ConfigEnv

/-- The directory of the configurations of all programs: the one set, if it is absolute, else
the usual one below the home directory. -/
def baseDir? (env : ConfigEnv) : Option String :=
  match env.xdgConfigHome.filter Path.isAbsolute with
  | some dir => some dir
  | none => (env.home.filter (!·.isEmpty)).map (Path.join · ".config")

/-- The directory of the user's configuration. -/
def userDir? (env : ConfigEnv) : Option String :=
  match env.configDir.filter (!·.isEmpty) with
  | some dir => some dir
  | none => env.baseDir?.map (Path.join · "flowline")

/-- The file of the user's configuration. -/
def userFile? (env : ConfigEnv) : Option String := env.userDir?.map (Path.join · "config.toml")

end ConfigEnv

/-- A file that was looked for, and whether it became part of the configuration. -/
structure ConfigSource where
  path : String
  loaded : Bool
  deriving DecidableEq, Repr, Inhabited

/-- A configuration with its sources and what was wrong with them. -/
structure LoadedConfig where
  config : Config := {}
  sources : List ConfigSource := []
  warnings : List String := []
  deriving DecidableEq, Repr, Inhabited

namespace Config

/-- The configuration of a file. -/
def load (tree : FileTree) (path : String) : Except ConfigError Config :=
  match tree.readText? path with
  | some text => parse text
  | none => .error (.unreadable path)

/-- The tree with a configuration written to a file, the directories to it being made. -/
def save (tree : FileTree) (c : Config) (path : String) : Except ConfigError FileTree := do
  let tree ← match Path.parent? path with
    | none => .ok tree
    | some dir =>
      match tree.makeDirectories? dir with
      | some tree => .ok tree
      | none => .error (.unwritable dir)
  let text ← c.toToml
  match tree.write? path (Text.encode text) with
  | some tree => .ok tree
  | none => .error (.unwritable path)

end Config

namespace LoadedConfig

/-- The configuration with the layer of a file. -/
def addLayer (tree : FileTree) (loaded : LoadedConfig) (path : String) : LoadedConfig :=
  if !tree.isFile path then { loaded with sources := loaded.sources ++ [⟨path, false⟩] }
  else match Config.load tree path with
    | .ok layer =>
      { loaded with
        config := loaded.config.merge layer
        sources := loaded.sources ++ [⟨path, true⟩] }
    | .error e =>
      { loaded with
        sources := loaded.sources ++ [⟨path, false⟩]
        warnings := loaded.warnings ++ [s!"Failed to load {path}: {e.message}"] }

/-- The configuration of the layers of a user's file, if there is a place for one, and of the
file in a project's directory. -/
def load (tree : FileTree) (userFile : Option String) (projectDir : String) : LoadedConfig :=
  (userFile.toList ++ [Path.join projectDir "flowline.toml"]).foldl (addLayer tree) {}

/-- The files that became part of the configuration. -/
def loadedFrom (loaded : LoadedConfig) : List String :=
  (loaded.sources.filter (·.loaded)).map (·.path)

end LoadedConfig

end Workflow
