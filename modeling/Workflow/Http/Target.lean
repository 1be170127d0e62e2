import Workflow.Http.Token
import Workflow.Text.Affix

/- The targets of HTTP requests. A target is an asterisk, a path with an optional
   query, an authority alone, or an absolute form with a scheme and an authority in
   front of the path. A fragment is dropped without being looked at. -/
namespace Workflow.Http

/-- What a request is aimed at. -/
structure Target where
  /-- The path that routes are compared with; empty when there is only an authority. -/
  path : String
  query : Option String
  deriving DecidableEq, Repr, Inhabited

namespace Target

/-- Whether a character may stand in a path. Beside those that need no escape these are the ones
that clients send without one. -/
def isPathChar (c : Char) : Bool :=
  let n := c.toNat
  n == 0x21 || n == 0x22 || (0x24 ≤ n && n ≤ 0x3B) || n == 0x3D || (0x40 ≤ n && n ≤ 0x5F)
    || (0x61 ≤ n && n ≤ 0x7E) || 0x7F ≤ n

/-- Whether a character may stand in a query. -/
def isQueryChar (c : Char) : Bool :=
  let n := c.toNat
  n == 0x21 || (0x24 ≤ n && n ≤ 0x3B) || n == 0x3D || 0x3F ≤ n

/-- The characters in front of the fragment. -/
def beforeFragment (cs : List Char) : List Char := cs.takeWhile (· != '#')

/-- The path and the query that characters write. An empty path is that of the root. -/
def ofPathAndQuery? (cs : List Char) : Option Target :=
  let cs := beforeFragment cs
  let (path, query) := match Text.cut '?' cs with
    | some (path, query) => (path, some query)
    | none => (cs, none)
  if path.all isPathChar && query.all (·.all isQueryChar) then
    some {
      path := if path.isEmpty then "/" else String.ofList path
      query := query.map String.ofList }
  else none

/-- What has been seen of an authority. -/
structure AuthorityScan where
  /-- The colons that do not belong to a user or to an address in brackets. -/
  colons : Nat := 0
  opened : Bool := false
  closed : Bool := false
  /-- A percent sign that does not belong to a user or to an address in brackets. -/
  percent : Bool := false
  deriving DecidableEq, Repr, Inhabited

/-- One more character of an authority. -/
def AuthorityScan.step (s : AuthorityScan) (c : Char) : Option AuthorityScan :=
  if c == ':' then if s.colons < 8 then some { s with colons := s.colons + 1 } else none
  else if c == '[' then if s.percent || s.opened then none else some { s with opened := true }
  else if c == ']' then
    if !s.opened || s.closed then none
    else some { s with closed := true, colons := 0, percent := false }
  else if c == '@' then some { s with colons := 0, percent := false }
  else if c == '%' then some { s with percent := true }
  else if c.isAlphanum || "!$&'()*+,-.;=_~".toList.contains c then some s
  else none

/-- Whether characters are an authority: brackets in pairs, at most one colon for the port, percent
signs only in front of an at sign or in brackets, and something behind the at sign. -/
def isAuthority (cs : List Char) : Bool :=
  match cs.foldlM AuthorityScan.step {} with
  | some s => s.opened == s.closed && s.colons ≤ 1 && !s.percent && cs.getLast? != some '@'
  | none => false

/-- Whether a character may stand in a scheme. -/
def isSchemeChar (c : Char) : Bool := c.isAlphanum || "+-.~".toList.contains c

/-- Whether a character ends an authority. -/
def endsAuthority (c : Char) : Bool := c == '/' || c == '?' || c == '#'

/-- The target behind a scheme. -/
def ofAbsolute? (cs : List Char) : Option Target :=
  let authority := cs.takeWhile (!endsAuthority ·)
  if !authority.isEmpty && isAuthority authority then
    ofPathAndQuery? (cs.dropWhile (!endsAuthority ·))
  else none

/-- The longest target, in octets. -/
def longest : Nat := 65534

/-- The longest scheme. -/
def longestScheme : Nat := 64

/-- The target of a text. -/
def parse? (s : String) : Option Target :=
  if s.utf8ByteSize > longest then none
  else match s.toList with
  | [] => none
  | ['*'] => some ⟨"*", none⟩
  | '/' :: rest => ofPathAndQuery? ('/' :: rest)
  | cs =>
    let scheme := cs.takeWhile isSchemeChar
    match cs.dropWhile isSchemeChar with
    | ':' :: '/' :: '/' :: rest =>
      if scheme.length ≤ longestScheme then ofAbsolute? rest else none
    | _ => if isAuthority cs then some ⟨"", none⟩ else none

end Target

end Workflow.Http
