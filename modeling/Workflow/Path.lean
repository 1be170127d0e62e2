import Workflow.Text.Affix

/- Paths as text. A path is a sequence of parts between slashes; empty parts and
   dots inside a path name nothing, so two texts may be one path. Paths are never
   looked up here: a double dot is a part like any other. -/
namespace Workflow.Path

/-- A part of a path that says something. -/
inductive Part where
  | root
  | here
  | up
  | name (text : String)
  deriving DecidableEq, Repr, Inhabited

/-- The text between slashes is empty or a dot. -/
def idle (piece : List Char) : Bool := piece == [] || piece == ['.']

/-- The part that a text between slashes is. -/
def partOf (piece : List Char) : Part :=
  if piece == ['.', '.'] then .up else .name (String.ofList piece)

/-- Whether a path begins at the root. -/
def isAbsolute (path : String) : Bool := path.toList.head? == some '/'

/-- The texts between the slashes of a path, and the part it begins with: the root, or a dot in
front of a relative path. -/
def split (path : String) : List Part × List (List Char) :=
  match path.toList with
  | '/' :: rest => ([.root], Text.pieces '/' rest)
  | cs =>
    match Text.pieces '/' cs with
    | ['.'] :: rest => ([.here], rest)
    | ps => ([], ps)

/-- The parts of a path. -/
def parts (path : String) : List Part :=
  let (front, ps) := split path
  front ++ (ps.filter (!idle ·)).map partOf

/-- The name a path ends in. -/
def fileName? (path : String) : Option String :=
  match (parts path).getLast? with
  | some (.name n) => some n
  | _ => none

/-- The path with another appended; an absolute one takes its place. -/
def join (base path : String) : String :=
  if isAbsolute path then path
  else if base.isEmpty || base.toList.getLast? == some '/' then base ++ path
  else base ++ "/" ++ path

/-- Whether the parts of a path begin with those of another. -/
def startsWith (path base : String) : Bool := (parts base).isPrefixOf (parts path)

/-- The pieces without those at either end that say nothing. -/
def stripIdle (ps : List (List Char)) : List (List Char) :=
  ((ps.dropWhile idle).reverse.dropWhile idle).reverse

/-- The pieces behind those that are the given parts, one by one. -/
def dropParts : List Part → List (List Char) → Option (List (List Char))
  | [], ps => some ps
  | _ :: _, [] => none
  | p :: rest, q :: ps =>
    if idle q then dropParts (p :: rest) ps
    else if partOf q = p then dropParts rest ps
    else none

/-- The text of pieces, with slashes between them. -/
def ofPieces (ps : List (List Char)) : String := String.ofList (List.intercalate ['/'] ps)

/-- The text of pieces behind the part that a path begins with. -/
def behind (front : List Part) (ps : List (List Char)) : String :=
  match front with
  | .root :: _ => "/" ++ ofPieces ps
  | .here :: _ => if ps.isEmpty then "." else "./" ++ ofPieces ps
  | _ => ofPieces ps

/-- The pieces without those at their end that say nothing. -/
def dropIdleEnd (ps : List (List Char)) : List (List Char) := (ps.reverse.dropWhile idle).reverse

/-- The directory that a path lies in; the empty path for a name alone, and none for what lies
nowhere. -/
def parent? (path : String) : Option String :=
  let (front, ps) := split path
  match dropIdleEnd ps with
  | [] => if front = [.here] then some "" else none
  | kept => some (behind front (dropIdleEnd kept.dropLast))

/-- The path below a base directory, as the text that remains of it. -/
def below? (base path : String) : Option String :=
  let (front, ps) := split path
  match parts base with
  | [] => some (behind front (dropIdleEnd ps))
  | wanted =>
    match front with
    | [] => (dropParts wanted ps).map fun ps => ofPieces (stripIdle ps)
    | f :: _ =>
      match wanted with
      | w :: wanted =>
        if w = f then (dropParts wanted ps).map fun ps => ofPieces (stripIdle ps) else none
      | [] => none

/-- The rank of a part's kind in the order of parts. -/
def Part.rank : Part → Nat
  | .root => 0
  | .here => 1
  | .up => 2
  | .name _ => 3

/-- Whether a part comes before another: root, dot, double dot, then names by code point. -/
def Part.before : Part → Part → Bool
  | .name a, .name b => a < b
  | a, b => a.rank < b.rank

/-- Whether a list of parts comes before another or is the same. -/
def notAfter : List Part → List Part → Bool
  | [], _ => true
  | _ :: _, [] => false
  | a :: as, b :: bs => if a = b then notAfter as bs else a.before b

/-- Paths in the order of their parts. -/
def sort (paths : List String) : List String :=
  paths.mergeSort fun a b => notAfter (parts a) (parts b)

end Workflow.Path
