import Workflow.Text.Affix

/- Options on a command line. A long option may have its value behind an equals sign,
   short ones may stand together behind one dash, and behind two dashes alone
   nothing is an option any more. Each option that does not add up may be given
   once. -/
namespace Workflow.Cli

/-- An option. -/
structure OptionSpec where
  long : String
  short : Option Char := none
  /-- Whether it has a value. -/
  valued : Bool := true
  /-- Whether it may be given more than once. -/
  repeated : Bool := false
  deriving DecidableEq, Repr, Inhabited

/-- Why arguments are not read any further. -/
inductive Stop where
  /-- They cannot be understood. -/
  | usage
  /-- Help, or the version, was asked for. -/
  | help
  deriving DecidableEq, Repr, Inhabited

/-- The options and other arguments read so far; an option without a value has an empty one. -/
structure Matches where
  options : List (String × String) := []
  positionals : List String := []
  deriving DecidableEq, Repr, Inhabited

namespace Matches

/-- Whether an option was given. -/
def has (m : Matches) (long : String) : Bool := m.options.any (·.1 == long)

/-- The values of an option, in order. -/
def values (m : Matches) (long : String) : List String :=
  (m.options.filter (·.1 == long)).map (·.2)

/-- The value of an option that is given once. -/
def value? (m : Matches) (long : String) : Option String := (m.values long).head?

end Matches

/-- One more option given. -/
def Matches.add (m : Matches) (spec : OptionSpec) (value : String) : Except Stop Matches :=
  if m.has spec.long && !spec.repeated then .error .usage
  else .ok { m with options := m.options ++ [(spec.long, value)] }

/-- Whether an argument looks like an option: a dash with something behind it. -/
def looksLikeOption (arg : String) : Bool := Text.beginsWith "-" arg && arg != "-"

/-- The value that is the next argument. -/
def nextValue : List String → Except Stop (String × List String)
  | [] => .error .usage
  | arg :: rest => if looksLikeOption arg then .error .usage else .ok (arg, rest)

/-- A long option, written without its dashes, and the arguments left behind it. -/
def readLong (specs : List OptionSpec) (m : Matches) (text : List Char) (rest : List String) :
    Except Stop (Matches × List String) :=
  let (name, value) := match Text.cut '=' text with
    | some (name, value) => (String.ofList name, some (String.ofList value))
    | none => (String.ofList text, none)
  match specs.find? (·.long == name) with
  | some spec =>
    match spec.valued, value with
    | true, some v => do .ok (← m.add spec v, rest)
    | true, none => do
      let (v, rest) ← nextValue rest
      .ok (← m.add spec v, rest)
    | false, none => do .ok (← m.add spec "", rest)
    | false, some _ => .error .usage
  | none =>
    if (name == "help" || name == "version") && value.isNone then .error .help else .error .usage

/-- Short options that stand together, and the arguments left behind them. -/
def readShort (specs : List OptionSpec) (rest : List String) :
    Matches → List Char → Except Stop (Matches × List String)
  | m, [] => .ok (m, rest)
  | m, c :: cs =>
    match specs.find? (·.short == some c) with
    | none => if c == 'h' || c == 'V' then .error .help else .error .usage
    | some spec =>
      if !spec.valued then do
        let m ← m.add spec ""
        readShort specs rest m cs
      else match cs with
        | '=' :: value => do .ok (← m.add spec (String.ofList value), rest)
        | [] => do
          let (v, rest) ← nextValue rest
          .ok (← m.add spec v, rest)
        | value => do .ok (← m.add spec (String.ofList value), rest)

/-- The options at the front of arguments, up to the first argument that is none, and what is
left. The flag tells that two dashes stood in front of it. The bound is on the number of
arguments. -/
def readOptions (specs : List OptionSpec) : Nat → Matches → List String →
    Except Stop (Matches × List String × Bool)
  | 0, m, args => .ok (m, args, false)
  | _, m, [] => .ok (m, [], false)
  | n + 1, m, arg :: rest =>
    match arg.toList with
    | ['-', '-'] => .ok (m, rest, true)
    | '-' :: '-' :: text => do
      let (m, rest) ← readLong specs m text rest
      readOptions specs n m rest
    | '-' :: c :: cs => do
      let (m, rest) ← readShort specs rest m (c :: cs)
      readOptions specs n m rest
    | _ => .ok (m, arg :: rest, false)

/-- Options and at most so many other arguments. -/
def readAll (specs : List OptionSpec) (most : Nat) : Nat → Matches → List String →
    Except Stop Matches
  | 0, m, _ => .ok m
  | n + 1, m, args => do
    let (m, rest, literal) ← readOptions specs (args.length + 1) m args
    let taken := if literal then rest else rest.take 1
    let positionals := m.positionals ++ taken
    if positionals.length > most then .error .usage
    else if taken.isEmpty || literal then .ok { m with positionals }
    else readAll specs most n { m with positionals } (rest.drop 1)

end Workflow.Cli
