import Workflow.Path
import Workflow.Text.Utf8

/- A tree of files and directories held as a value. Entries are kept by the list
   of names that leads to them from the root; the root is a directory and has no
   entry. A path is walked name by name, a double dot leading back to the parent,
   and every name but the last has to be a directory. A relative path is walked from
   the current directory. -/
namespace Workflow

/-- What a place of the tree holds. -/
inductive FileEntry where
  | file (content : Text.Octets)
  | directory
  deriving DecidableEq, Repr, Inhabited

/-- A tree of files and the place of the current directory. -/
structure FileTree where
  entries : List (List String × FileEntry)
  here : List String := []
  deriving Repr, Inhabited

namespace FileTree

/-- The tree whose root is empty. -/
def empty : FileTree := { entries := [] }

/-- What the tree holds at a place. -/
def at? (tree : FileTree) (place : List String) : Option FileEntry :=
  if place.isEmpty then some .directory
  else (tree.entries.find? (·.1 == place)).map (·.2)

/-- Whether a place is a directory. -/
def directoryAt (tree : FileTree) (place : List String) : Bool :=
  tree.at? place == some .directory

/-- The place that parts lead to from a place; every place but the last is a directory. -/
def walk (tree : FileTree) : List String → List Path.Part → Option (List String)
  | place, [] => some place
  | place, part :: rest =>
    if !tree.directoryAt place then none
    else match part with
      | .root => tree.walk [] rest
      | .here => tree.walk place rest
      | .up => tree.walk place.dropLast rest
      | .name n => tree.walk (place ++ [n]) rest

/-- Whether a path's text asks for a directory: its last piece names nothing. -/
def wantsDirectory (path : String) : Bool :=
  match (Text.pieces '/' path.toList).getLast? with
  | some p => Path.idle p
  | none => false

/-- The place of a path, if the way to it exists. -/
def resolve (tree : FileTree) (path : String) : Option (List String) := do
  if path.isEmpty then none
  else
    let place ← tree.walk tree.here (Path.parts path)
    if wantsDirectory path && !tree.directoryAt place then none else some place

/-- The path of a place. -/
def pathOf (place : List String) : String := "/" ++ "/".intercalate place

/-- The tree with a directory as the current one. -/
def enter? (tree : FileTree) (path : String) : Option FileTree := do
  let place ← tree.resolve path
  if tree.directoryAt place then some { tree with here := place } else none

/-- What is at a path. -/
def entry? (tree : FileTree) (path : String) : Option FileEntry :=
  (tree.resolve path).bind tree.at?

/-- Whether a path is a directory. -/
def isDirectory (tree : FileTree) (path : String) : Bool := tree.entry? path == some .directory

/-- The content of the file at a path. -/
def content? (tree : FileTree) (path : String) : Option Text.Octets :=
  match tree.entry? path with
  | some (.file c) => some c
  | _ => none

/-- Whether a path is a file. -/
def isFile (tree : FileTree) (path : String) : Bool := (tree.content? path).isSome

/-- The text of the file at a path; none when there is no file or it is not UTF-8. -/
def readText? (tree : FileTree) (path : String) : Option String :=
  (tree.content? path).bind Text.decode?

/-- The tree with an entry put at a place. -/
def put (tree : FileTree) (place : List String) (e : FileEntry) : FileTree :=
  { tree with entries := tree.entries.filter (·.1 != place) ++ [(place, e)] }

/-- The tree with the file at a path written; none when the way to it is missing, or when it is
a directory. -/
def write? (tree : FileTree) (path : String) (content : Text.Octets) : Option FileTree := do
  let place ← tree.resolve path
  if !tree.directoryAt place.dropLast || tree.directoryAt place then none
  else some (tree.put place (.file content))

/-- The tree with the directories made that parts lead through from a place; none when a file is
in the way. -/
def makeAlong (tree : FileTree) : List String → List Path.Part → Option FileTree
  | _, [] => some tree
  | place, part :: rest =>
    match part with
    | .root => tree.makeAlong [] rest
    | .here => tree.makeAlong place rest
    | .up => tree.makeAlong place.dropLast rest
    | .name n =>
      let next := place ++ [n]
      match tree.at? next with
      | some (.file _) => none
      | some .directory => tree.makeAlong next rest
      | none => (tree.put next .directory).makeAlong next rest

/-- The tree with a directory and all its parents made; none when a file is in the way. -/
def makeDirectories? (tree : FileTree) (path : String) : Option FileTree :=
  tree.makeAlong tree.here (Path.parts path)

/-- The tree without the file at a path; none when there is no file. -/
def removeFile? (tree : FileTree) (path : String) : Option FileTree := do
  let place ← tree.resolve path
  match tree.at? place with
  | some (.file _) => some { tree with entries := tree.entries.filter (·.1 != place) }
  | _ => none

/-- The names in the directory at a place, in order. -/
def namesIn (tree : FileTree) (place : List String) : List String :=
  (tree.entries.filterMap fun (p, _) =>
    if p.dropLast == place then p.getLast? else none).mergeSort (fun a b => a ≤ b)

/-- The ways from a place to every entry below it. -/
def waysBelow (tree : FileTree) (place : List String) : List (List String) :=
  tree.entries.filterMap fun (p, _) =>
    if place.isPrefixOf p && p.length != place.length then some (p.drop place.length) else none

/-- The tree with a file and the directories to it made, as far as nothing is in the way. -/
def plant (tree : FileTree) (path : String) (content : Text.Octets) : FileTree :=
  let tree := match Path.parent? path with
    | some dir => (tree.makeDirectories? dir).getD tree
    | none => tree
  (tree.write? path content).getD tree

end FileTree

end Workflow
