import Workflow.Text.Blank

/- Tokens of HTTP: the characters that methods and the names of headers are made of. -/
namespace Workflow.Http

/-- Whether a character may stand in a token. -/
def isTokenChar (c : Char) : Bool :=
  c.isAlphanum || "!#$%&'*+-.^_\x60|~".toList.contains c

/-- Whether a text is a token: one character at least, and all of them of tokens. -/
def isToken (s : String) : Bool := !s.isEmpty && s.toList.all isTokenChar

end Workflow.Http
