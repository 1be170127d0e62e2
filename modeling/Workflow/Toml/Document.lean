import Workflow.Toml.Quoted

/- TOML documents: assignments and headers, each on its line, and the table that they
   build. A table is made by its header or by dotted keys, once; what is only passed
   on the way to another table may still be made by a header later. -/
namespace Workflow.Toml

/-- The greatest number of arrays and inline tables one inside the other, and of parts of a
key. -/
def depthLimit : Nat := 79

/-- An entry of a table that is being built. -/
inductive Node where
  | leaf (value : Value)
  /-- A table. It may be made only on the way to another one, and then by dotted keys. -/
  | table (implicit dotted : Bool) (entries : List (String × Node))
  /-- An array of tables. -/
  | tables (items : List (List (String × Node)))
  deriving Inhabited

/-- The entries of a table that is being built. -/
abbrev Entries := List (String × Node)

/-- The entry of a key. -/
def Entries.find? (es : Entries) (key : String) : Option Node := es.lookup key

/-- The entries with that of a key set. -/
def Entries.set : Entries → String → Node → Entries
  | [], key, node => [(key, node)]
  | (k, n) :: rest, key, node =>
    if k == key then (key, node) :: rest else (k, n) :: Entries.set rest key node

/-- The entries with a change made to the table that a path leads to, which is told whether it
comes of dotted keys. Missing tables are made on the way; an array of tables stands for its last
item. -/
def Entries.under (dotted : Bool) :
    List String → (Bool → Entries → Option Entries) → Bool → Entries → Option Entries
  | [], change, self, es => change self es
  | key :: path, change, _, es =>
    match es.find? key with
    | none =>
      (Entries.under dotted path change dotted []).map fun sub =>
        es.set key (.table true dotted sub)
    | some (.leaf _) => none
    | some (.tables items) =>
      match items.getLast? with
      | none => none
      | some last =>
        (Entries.under dotted path change false last).map fun last =>
          es.set key (.tables (items.dropLast ++ [last]))
    | some (.table implicit d sub) =>
      if dotted && !implicit then none
      else (Entries.under dotted path change d sub).map fun sub =>
        es.set key (.table implicit d sub)

/-- The entries with a value assigned to a dotted key. -/
def Entries.assign (path : List String) (key : String) (value : Value) (es : Entries) :
    Option Entries :=
  Entries.under true path (fun dotted es =>
    if dotted == path.isEmpty || (es.find? key).isSome then none
    else some (es.set key (.leaf value))) false es

mutual

/-- The value of an entry. -/
def Node.value : Node → Value
  | .leaf v => v
  | .table _ _ es => .table (fieldsOf es)
  | .tables items => .array (tablesOf items)

/-- The values of entries. -/
def fieldsOf : List (String × Node) → List (String × Value)
  | [] => []
  | (k, n) :: rest => (k, n.value) :: fieldsOf rest

/-- The values of the tables of an array. -/
def tablesOf : List (List (String × Node)) → List Value
  | [] => []
  | es :: rest => .table (fieldsOf es) :: tablesOf rest

end

/-! ## Reading -/

/-- What follows spaces and tabs. -/
def skipSpace (cs : List Char) : List Char := cs.dropWhile fun c => c == ' ' || c == '\t'

/-- What follows a comment, if there is one. -/
def skipComment : List Char → List Char
  | '#' :: rest => rest.dropWhile plain
  | rest => rest

/-- What follows the end of a line, spaces and a comment standing before it. -/
def endLine (cs : List Char) : Option (List Char) :=
  match skipComment (skipSpace cs) with
  | [] => some []
  | rest => lineEnd? rest

/-- What follows spaces, line ends and comments. The fuel bounds the number of lines. -/
def skipLines : Nat → List Char → List Char
  | 0, cs => cs
  | fuel + 1, cs =>
    let rest := skipComment (skipSpace cs)
    match lineEnd? rest with
    | some rest => skipLines fuel rest
    | none => rest

/-- Whether a character may stand in a key without quotes. -/
def isBare (c : Char) : Bool := c.isAlphanum || c == '-' || c == '_'

/-- A part of a key. -/
def scanPart (cs : List Char) : Option (String × List Char) :=
  match cs with
  | c :: _ =>
    if c == '"' || c == '\x27' then scanShort cs
    else
      let bare := cs.takeWhile isBare
      if bare.isEmpty then none else some (String.ofList bare, cs.drop bare.length)
  | [] => none

/-- The parts of a dotted key, with spaces around each. The fuel bounds their number. -/
def scanKey : Nat → List Char → Option (List String × List Char)
  | 0, _ => none
  | fuel + 1, cs => do
    let (part, rest) ← scanPart (skipSpace cs)
    match skipSpace rest with
    | '.' :: rest =>
      let (parts, rest) ← scanKey fuel rest
      some (part :: parts, rest)
    | rest => some ([part], rest)

/-- A key of at most as many parts as the limit, split into the path and the last part. -/
def scanPath (cs : List Char) : Option (List String × String × List Char) := do
  let (parts, rest) ← scanKey (cs.length + 1) cs
  let last ← parts.getLast?
  if parts.length ≤ depthLimit then some (parts.dropLast, last, rest) else none

mutual

/-- A value, with at most `depth` arrays and inline tables one inside the other. The fuel bounds
the number of calls. -/
def scanValue : Nat → Nat → List Char → Option (Value × List Char)
  | 0, _, _ => none
  | fuel + 1, depth, cs =>
    match cs with
    | '"' :: _ => (scanText cs).map fun (s, rest) => (.text s, rest)
    | '\x27' :: _ => (scanText cs).map fun (s, rest) => (.text s, rest)
    | '[' :: rest =>
      if depth = 0 then none
      else (scanItems fuel (depth - 1) rest).map fun (items, rest) => (.array items, rest)
    | '\x7b' :: rest =>
      if depth = 0 then none
      else match skipSpace rest with
        | '\x7d' :: rest => some (.table [], rest)
        | rest =>
          (scanPairs fuel (depth - 1) [] rest).map fun (es, rest) => (.table (fieldsOf es), rest)
    | 't' :: _ => (afterWord? "true" cs).map fun rest => (.truth true, rest)
    | 'f' :: _ => (afterWord? "false" cs).map fun rest => (.truth false, rest)
    | cs => scanNumber cs

/-- The items of an array, up to and including its closing bracket. -/
def scanItems : Nat → Nat → List Char → Option (List Value × List Char)
  | 0, _, _ => none
  | fuel + 1, depth, cs =>
    match skipLines cs.length cs with
    | ']' :: rest => some ([], rest)
    | cs =>
      match scanValue fuel depth cs with
      | none => none
      | some (v, rest) =>
        match skipLines rest.length rest with
        | ',' :: rest => (scanItems fuel depth rest).map fun (items, rest) => (v :: items, rest)
        | ']' :: rest => some ([v], rest)
        | _ => none

/-- The assignments of an inline table behind the given ones, up to and including its closing
brace. -/
def scanPairs : Nat → Nat → Entries → List Char → Option (Entries × List Char)
  | 0, _, _, _ => none
  | fuel + 1, depth, es, cs =>
    match scanPath cs with
    | some (path, key, '=' :: rest) =>
      match scanValue fuel depth (skipSpace rest) with
      | none => none
      | some (v, rest) =>
        match es.assign path key v with
        | none => none
        | some es =>
          match skipSpace rest with
          | ',' :: rest => scanPairs fuel depth es rest
          | '\x7d' :: rest => some (es, rest)
          | _ => none
    | _ => none

end

/-- A line of a document. -/
inductive Statement where
  | assign (path : List String) (key : String) (value : Value)
  | header (path : List String) (key : String)
  | arrayHeader (path : List String) (key : String)
  deriving Inhabited

/-- A statement up to the end of its line. -/
def scanStatement (cs : List Char) : Option (Statement × List Char) := do
  match cs with
  | '[' :: '[' :: rest =>
    let (path, key, rest) ← scanPath rest
    let rest ← (after? ']' rest).bind (after? ']')
    some (.arrayHeader path key, ← endLine rest)
  | '[' :: rest =>
    let (path, key, rest) ← scanPath rest
    let rest ← after? ']' rest
    some (.header path key, ← endLine rest)
  | cs =>
    let (path, key, rest) ← scanPath cs
    let rest ← after? '=' rest
    let (v, rest) ← scanValue (2 * rest.length + 1) depthLimit (skipSpace rest)
    some (.assign path key v, ← endLine rest)

/-- The statements of a text. The fuel bounds their number. -/
def scanStatements : Nat → List Char → Option (List Statement)
  | 0, _ => none
  | fuel + 1, cs =>
    match skipLines cs.length cs with
    | [] => some []
    | cs => do
      let (s, rest) ← scanStatement cs
      let later ← scanStatements fuel rest
      some (s :: later)

/-! ## Building -/

/-- A document that is being built: its tables, and the one that assignments go to. -/
structure Draft where
  root : Entries := []
  current : Entries := []
  /-- The path of the current table, and whether it is an item of an array; none for the root. -/
  target : Option (List String × String × Bool) := none
  deriving Inhabited

namespace Draft

/-- The tables with the current one put in its place. -/
def close (d : Draft) : Option Entries :=
  match d.target with
  | none => some d.current
  | some (path, key, isItem) =>
    Entries.under false path (fun _ es =>
      match es.find? key with
      | none =>
        some (es.set key (if isItem then .tables [d.current] else .table false false d.current))
      | some (.tables items) =>
        if isItem then some (es.set key (.tables (items ++ [d.current]))) else none
      | some _ => none) false d.root

/-- The table of a header taken out of its place, when it may be made by the header. -/
def opening (key : String) (es : Entries) : Option (Entries × Entries) :=
  match es.find? key with
  | none => some ([], es)
  | some (.table true false sub) => some (sub, es.filter (·.1 != key))
  | some _ => none

/-- The entries of the table that a header names, as far as they have been made. -/
def openAt (key : String) : List String → Entries → Option Entries
  | [], es => (opening key es).map (·.1)
  | k :: path, es =>
    match es.find? k with
    | none => some []
    | some (.table _ _ sub) => openAt key path sub
    | some (.tables items) => items.getLast?.bind (openAt key path)
    | some (.leaf _) => none

/-- The document after a statement. -/
def perform (d : Draft) : Statement → Option Draft
  | .assign path key v => (d.current.assign path key v).map fun current => { d with current }
  | .header path key => do
    let root ← d.close
    let current ← openAt key path root
    let root ← Entries.under false path (fun _ es => (opening key es).map (·.2)) false root
    some { root, current, target := some (path, key, false) }
  | .arrayHeader path key => do
    let root ← d.close
    let _ ← Entries.under false path (fun _ es =>
      match es.find? key with
      | none => some es
      | some (.tables _) => some es
      | some _ => none) false root
    some { root, current := [], target := some (path, key, true) }

/-- The document after statements. -/
def performAll (d : Draft) : List Statement → Option Draft
  | [] => some d
  | s :: rest => (d.perform s).bind fun d => d.performAll rest

end Draft

/-- The table of a document. A mark of the order of octets at its front is passed over. -/
def parse? (text : String) : Option (List (String × Value)) := do
  let cs := match text.toList with
    | '\uFEFF' :: rest => rest
    | rest => rest
  let statements ← scanStatements (cs.length + 1) cs
  let draft ← Draft.performAll {} statements
  let entries ← draft.close
  some (fieldsOf entries)

end Workflow.Toml
