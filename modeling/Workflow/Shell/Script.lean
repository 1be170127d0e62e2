import Workflow.Shell.Word

/- Scripts of the shell: commands with their redirections, joined by pipes, by the
   condition that one succeeds or fails, or one after the other. -/
namespace Workflow.Shell

/-- A sign between words. -/
inductive Sign where
  | semicolon
  | andThen
  | orElse
  | pipe
  /-- Input or output of a number goes elsewhere. -/
  | input (stream : Nat)
  | output (stream : Nat)
  | append (stream : Nat)
  | duplicate (stream : Nat)
  deriving DecidableEq, Repr, Inhabited

/-- A token of a script. -/
inductive Token where
  | word (word : Word)
  | sign (sign : Sign)
  deriving DecidableEq, Repr, Inhabited

/-- The sign at the front of characters, and what follows it. A number may be given in front of a
redirection. -/
def signAt? (stream : Option Nat) : List Char → Option (Sign × Rest)
  | '>' :: '>' :: rest => some (.append (stream.getD 1), rest)
  | '>' :: '&' :: rest => some (.duplicate (stream.getD 1), rest)
  | '>' :: '|' :: rest => some (.output (stream.getD 1), rest)
  | '>' :: rest => some (.output (stream.getD 1), rest)
  | '<' :: '<' :: _ => none
  | '<' :: rest => some (.input (stream.getD 0), rest)
  | cs => if stream.isSome then none else match cs with
    | '&' :: '&' :: rest => some (.andThen, rest)
    | '|' :: '|' :: rest => some (.orElse, rest)
    | '|' :: rest => some (.pipe, rest)
    | ';' :: rest => some (.semicolon, rest)
    | '\n' :: rest => some (.semicolon, rest)
    | '&' :: rest => some (.semicolon, rest)
    | _ => none

/-- The stream that a digit in front of a redirection means. -/
def streamAt? : List Char → Option (Nat × Rest)
  | d :: c :: rest =>
    if d.isDigit && (c == '<' || c == '>') then some (d.toNat - 48, c :: rest) else none
  | _ => none

/-- The tokens of characters; none when they cannot be read. A token takes at least one character,
so the number of characters bounds that of tokens. -/
def tokensWithin : Nat → List Char → Option (List Token)
  | 0, _ => some []
  | _, [] => some []
  | n + 1, c :: rest =>
    if c == ' ' || c == '\t' then tokensWithin n rest
    else if c == '#' then tokensWithin n (rest.dropWhile (· != '\n'))
    else match streamAt? (c :: rest) with
      | some (stream, cs) =>
        (signAt? (some stream) cs).bind fun (sign, r) => (tokensWithin n r).map (.sign sign :: ·)
      | none =>
        if endsWord c then
          (signAt? none (c :: rest)).bind fun (sign, r) =>
            (tokensWithin n r).map (.sign sign :: ·)
        else
          (readWord (rest.length + 2) (c :: rest)).bind fun (w, r) =>
            (tokensWithin n r).map (.word w :: ·)

/-- Where a stream goes or comes from. -/
structure Redirection where
  sign : Sign
  target : Word
  deriving DecidableEq, Repr, Inhabited

/-- A command: words, the first of which may assign variables, and redirections. -/
structure Command where
  words : List Word := []
  redirections : List Redirection := []
  deriving DecidableEq, Repr, Inhabited

/-- Commands of which each reads what the one in front of it writes. -/
abbrev Pipe := List Command

/-- When the next pipe of a script is run. -/
inductive Junction where
  | always
  | onSuccess
  | onFailure
  deriving DecidableEq, Repr, Inhabited

/-- A script: pipes, each with the condition under which it is run. -/
abbrev Script := List (Junction × Pipe)

/-- Whether a command says nothing. -/
def Command.isEmpty (c : Command) : Bool := c.words.isEmpty && c.redirections.isEmpty

/-- The command that tokens begin with, and what follows it; none when a redirection has no
target. -/
def readCommand : List Token → Option (Command × List Token)
  | [] => some ({}, [])
  | .word w :: rest =>
    (readCommand rest).map fun (c, r) => ({ c with words := w :: c.words }, r)
  | .sign s :: rest =>
    match s with
    | .semicolon | .andThen | .orElse | .pipe => some ({}, .sign s :: rest)
    | .input _ | .output _ | .append _ | .duplicate _ =>
      match rest with
      | .word w :: rest =>
        (readCommand rest).map fun (c, r) =>
          ({ c with redirections := ⟨s, w⟩ :: c.redirections }, r)
      | _ => none

/-- The script of tokens that come under a condition. `pipe` holds the commands read so far of the
first pipe. An empty command is allowed only where nothing was begun. -/
def readScript : Nat → Junction → Pipe → List Token → Option Script
  | 0, _, _, _ => none
  | n + 1, j, pipe, ts => do
    let (c, rest) ← readCommand ts
    let whole := pipe ++ [c]
    match rest with
    | [] =>
      if !c.isEmpty then some [(j, whole)]
      else if pipe.isEmpty && j = .always then some [] else none
    | .sign .pipe :: rest => if c.isEmpty then none else readScript n j whole rest
    | .sign .andThen :: rest =>
      if c.isEmpty then none else (readScript n .onSuccess [] rest).map ((j, whole) :: ·)
    | .sign .orElse :: rest =>
      if c.isEmpty then none else (readScript n .onFailure [] rest).map ((j, whole) :: ·)
    | .sign .semicolon :: rest =>
      if !c.isEmpty then (readScript n .always [] rest).map ((j, whole) :: ·)
      else if pipe.isEmpty && j = .always then readScript n .always [] rest
      else none
    | _ => none

/-- The script of a text. -/
def Script.parse? (text : String) : Option Script := do
  let cs := text.toList
  let ts ← tokensWithin (cs.length + 1) cs
  readScript (ts.length + 1) .always [] ts

end Workflow.Shell
