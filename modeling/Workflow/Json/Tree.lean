import Workflow.Json.Token

/- The tree of a JSON text and the value of a tree. A tree keeps repeated names in
   the order of the text, and numbers and strings without a value; the value of a
   tree keeps the last of repeated names. A value has at most `depthLimit` arrays
   and objects one inside the other, whereas a tree may be nested to any depth. -/
namespace Workflow.Json

/-- The greatest number of arrays and objects one inside the other. -/
def depthLimit : Nat := 127

/-- The tree of a JSON text. -/
inductive Tree where
  | null
  | bool (value : Bool)
  | num (value : Option Number)
  | str (text : Option String)
  | arr (items : List Tree)
  | obj (fields : List (Option String × Tree))
  deriving Repr, Inhabited

mutual

/-- The tree at the front of a list of tokens. The fuel bounds the number of calls. -/
def readTree : Nat → List Token → Option (Tree × List Token)
  | 0, _ => none
  | _ + 1, .null :: rest => some (.null, rest)
  | _ + 1, .bool b :: rest => some (.bool b, rest)
  | _ + 1, .num n :: rest => some (.num n, rest)
  | _ + 1, .str ps :: rest => some (.str ps, rest)
  | _ + 1, .openArray :: .closeArray :: rest => some (.arr [], rest)
  | fuel + 1, .openArray :: rest =>
    (readItems fuel rest).map fun (items, rest) => (.arr items, rest)
  | _ + 1, .openObject :: .closeObject :: rest => some (.obj [], rest)
  | fuel + 1, .openObject :: rest =>
    (readFields fuel rest).map fun (fields, rest) => (.obj fields, rest)
  | _ + 1, _ => none

/-- The items of an array up to and including its closing bracket. -/
def readItems : Nat → List Token → Option (List Tree × List Token)
  | 0, _ => none
  | fuel + 1, ts =>
    match readTree fuel ts with
    | some (t, .comma :: rest) =>
      (readItems fuel rest).map fun (items, rest) => (t :: items, rest)
    | some (t, .closeArray :: rest) => some ([t], rest)
    | _ => none

/-- The fields of an object up to and including its closing brace. -/
def readFields : Nat → List Token → Option (List (Option String × Tree) × List Token)
  | 0, _ => none
  | fuel + 1, .str name :: .colon :: rest =>
    match readTree fuel rest with
    | some (t, .comma :: rest) =>
      (readFields fuel rest).map fun (fields, rest) => ((name, t) :: fields, rest)
    | some (t, .closeObject :: rest) => some ([(name, t)], rest)
    | _ => none
  | _ + 1, _ => none

end

/-- The tree of a text that is one JSON value with blanks around it. -/
def Tree.ofText? (text : String) : Option Tree :=
  match tokens text.toList with
  | none => none
  | some ts =>
    match readTree (2 * ts.length + 1) ts with
    | some (t, []) => some t
    | _ => none

mutual

/-- The value of a tree with at most `depth` arrays and objects one inside the other. -/
def Tree.value? : Nat → Tree → Option Json
  | _, .null => some .null
  | _, .bool b => some (.bool b)
  | _, .num n => n.map .num
  | _, .str s => s.map .str
  | 0, .arr _ => none
  | depth + 1, .arr items => (Tree.values? depth items).map .arr
  | 0, .obj _ => none
  | depth + 1, .obj fields => (Tree.pairs? depth fields).map ofPairs

/-- The values of the items of an array. -/
def Tree.values? : Nat → List Tree → Option (List Json)
  | _, [] => some []
  | depth, t :: rest => do
    let v ← t.value? depth
    let vs ← Tree.values? depth rest
    some (v :: vs)

/-- The names and values of the fields of an object. -/
def Tree.pairs? : Nat → List (Option String × Tree) → Option (List (String × Json))
  | _, [] => some []
  | depth, (name, t) :: rest => do
    let n ← name
    let v ← t.value? depth
    let vs ← Tree.pairs? depth rest
    some ((n, v) :: vs)

end

mutual

/-- The tree of a value. -/
def tree : Json → Tree
  | .null => .null
  | .bool b => .bool b
  | .num n => .num (some n)
  | .str s => .str (some s)
  | .arr items => .arr (treesOf items)
  | .obj fields => .obj (fieldTrees fields)

/-- The trees of values. -/
def treesOf : List Json → List Tree
  | [] => []
  | v :: rest => tree v :: treesOf rest

/-- The trees of fields. -/
def fieldTrees : List (String × Json) → List (Option String × Tree)
  | [] => []
  | (name, v) :: rest => (some name, tree v) :: fieldTrees rest

end

/-- The value of a JSON text. -/
def parse? (text : String) : Option Json := (Tree.ofText? text).bind (Tree.value? depthLimit)

end Workflow.Json
