import Tama.Datum
import Tama.Text.Word

/-!
# Tokens

The words and symbols of a program, each with the place where it stands. The token stream is a
listing for people who debug a program; the parser reads the text itself.
-/

set_option autoImplicit false

namespace Tama

/-- A stretch of a file, with its text. Lines and columns count from one, and the end column is
the one after the last character. -/
structure Span where
  filename : String
  startLine : Int
  startColumn : Int
  endLine : Int
  endColumn : Int
  text : String
  deriving DecidableEq, Repr

/-- A span as messages show it; the end line is left out when it is the start line. -/
def Span.render (s : Span) : String :=
  s.filename ++ ":" ++ toString s.startLine ++ ":" ++ toString s.startColumn ++ "-" ++
    if s.startLine = s.endLine then toString s.endColumn
    else toString s.endLine ++ ":" ++ toString s.endColumn

/-- A span as messages show it, with a file, lines and columns that may be any data. -/
def Span.describe (filename startLine startColumn endLine endColumn : Datum) :
    Except DigitLimit String := do
  let start := (← filename.display) ++ ":" ++ (← startLine.display) ++ ":" ++
    (← startColumn.display) ++ "-"
  if startLine == endLine then return start ++ (← endColumn.display)
  else return start ++ (← endLine.display) ++ ":" ++ (← endColumn.display)

/-- What a token is. -/
inductive Lexeme where
  | int (n : Nat)
  | operator (c : Char)
  | delimiter (c : Char)
  | keyword (k : Keyword)
  | identifier (name : String)
  deriving DecidableEq, Repr

namespace Lexeme

/-- The class of a token. -/
def type : Lexeme → String
  | int _ => "INT"
  | operator _ => "OPERATOR"
  | delimiter _ => "DELIMITER"
  | keyword _ => "KEYWORD"
  | identifier _ => "IDENTIFIER"

/-- The value of a token: a number, or a word or symbol as text. -/
def value : Lexeme → Datum
  | int n => .int n
  | operator c => .text (String.singleton c)
  | delimiter c => .text (String.singleton c)
  | keyword k => .text (String.ofList k.spelling)
  | identifier name => .text name

end Lexeme

/-- A token and where it stands. -/
structure Token where
  lexeme : Lexeme
  span : Span
  deriving DecidableEq, Repr

namespace Token

/-- A class and a value as the listing shows them. -/
def describe (type value : Datum) : Except DigitLimit String := do
  return (← type.display) ++ "(" ++ (← value.display) ++ ")"

/-- A token as the listing shows it. -/
def render (t : Token) : Except DigitLimit String :=
  describe (.text t.lexeme.type) t.lexeme.value

end Token
end Tama
