import Workflow.Text.Affix
import Workflow.Text.Blank

/- Hosts of this machine: the names and addresses that a listener can be bound to
   wherever the program runs. An address of four octets may be written in one to four
   numbers, the last of which fills the octets that are left. -/
namespace Workflow.Http

/-- The value of a digit in a base of at most sixteen. -/
def digit? (base : Nat) (c : Char) : Option Nat :=
  let n :=
    if c.isDigit then c.toNat - 48
    else if 'a' ≤ c && c ≤ 'f' then c.toNat - 87
    else if 'A' ≤ c && c ≤ 'F' then c.toNat - 55
    else 16
  if n < base then some n else none

/-- The number that digits of a base write. -/
def numberIn? (base : Nat) (digits : List Char) : Option Nat :=
  if digits.isEmpty then none
  else digits.foldlM (fun n c => (digit? base c).map (n * base + ·)) 0

/-- A number of an address: decimal, octal behind a zero, hexadecimal behind a zero and an x. -/
def addressNumber? : List Char → Option Nat
  | '0' :: 'x' :: digits => numberIn? 16 digits
  | '0' :: 'X' :: digits => numberIn? 16 digits
  | '0' :: [] => some 0
  | '0' :: digits => numberIn? 8 digits
  | digits => numberIn? 10 digits

/-- The address of numbers, of which all but the last stand for one octet. -/
def joinAddress (bits : Nat) : List Nat → Option Nat
  | [] => none
  | [last] => if last < Nat.pow 2 bits then some last else none
  | n :: rest =>
    if n < 256 && 8 < bits then
      (joinAddress (bits - 8) rest).map (n * Nat.pow 2 (bits - 8) + ·)
    else none

/-- The address of 32 bits that a text writes. -/
def address? (s : String) : Option Nat := do
  let numbers ← (Text.pieces '.' s.toList).mapM addressNumber?
  joinAddress 32 numbers

/-- The address in front of a port that a listener on a host of this machine has: that of the
loop, or of any. -/
def localAddress? (host : String) : Option String :=
  match Text.asciiLower host with
  | "localhost" => some "127.0.0.1"
  | "::1" => some "[::1]"
  | "::" => some "[::]"
  | host =>
    match address? host with
    | some a =>
      if a = 0 || a / 0x1000000 = 127 then
        some s!"{a / 0x1000000}.{a / 0x10000 % 256}.{a / 256 % 256}.{a % 256}"
      else none
    | none => none

/-- Whether a host is this machine. -/
def isLocalHost (host : String) : Bool := (localAddress? host).isSome

end Workflow.Http
