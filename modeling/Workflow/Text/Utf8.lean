/- Octets and text in UTF-8. Reading is strict, or lossy: then each longest piece
   that could have begun a character gives one replacement character, and so does
   each octet that could not. -/
namespace Workflow.Text

/-- A list of octets. -/
abbrev Octets := List UInt8

/-- The octets of a text. -/
def encode (s : String) : Octets := s.toList.flatMap String.utf8EncodeChar

/-- What a first octet asks for: how many octets follow, its own bits, and the range of the
second octet. -/
def leadOf? (b : UInt8) : Option (Nat × Nat × Nat × Nat) :=
  let n := b.toNat
  if n < 0x80 then some (0, n, 0, 0)
  else if 0xC2 ≤ n && n ≤ 0xDF then some (1, n - 0xC0, 0x80, 0xBF)
  else if n = 0xE0 then some (2, 0, 0xA0, 0xBF)
  else if n = 0xED then some (2, 0xD, 0x80, 0x9F)
  else if 0xE1 ≤ n && n ≤ 0xEF then some (2, n - 0xE0, 0x80, 0xBF)
  else if n = 0xF0 then some (3, 0, 0x90, 0xBF)
  else if 0xF1 ≤ n && n ≤ 0xF3 then some (3, n - 0xF0, 0x80, 0xBF)
  else if n = 0xF4 then some (3, 4, 0x80, 0x8F)
  else none

/-- The character whose bits so far are given and which needs more octets, the first of them in
a range; `none` when an octet is missing or out of range. The second part is what follows the
octets that were taken. -/
def follow : Nat → Nat → Nat → Nat → Octets → Option Char × Octets
  | 0, bits, _, _, rest => (some (Char.ofNat bits), rest)
  | _ + 1, _, _, _, [] => (none, [])
  | n + 1, bits, lo, hi, b :: rest =>
    if lo ≤ b.toNat && b.toNat ≤ hi then follow n (bits * 64 + (b.toNat - 0x80)) 0x80 0xBF rest
    else (none, b :: rest)

/-- The characters of octets, a piece that is no character given as `none`. The bound is on
their number. -/
def scanWithin : Nat → Octets → List (Option Char)
  | 0, _ => []
  | _, [] => []
  | n + 1, b :: rest =>
    match leadOf? b with
    | none => none :: scanWithin n rest
    | some (more, bits, lo, hi) =>
      let (c, rest) := follow more bits lo hi rest
      c :: scanWithin n rest

/-- The text of octets; none when they are not UTF-8. -/
def decode? (octets : Octets) : Option String :=
  ((scanWithin octets.length octets).mapM id).map String.ofList

/-- The text of octets, with a replacement character for each piece that is not UTF-8. -/
def decodeLossy (octets : Octets) : String :=
  String.ofList ((scanWithin octets.length octets).map (·.getD '\uFFFD'))

end Workflow.Text
