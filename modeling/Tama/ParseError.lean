import Tama.Parser.Reply
import Tama.Text.Blank
import Tama.Text.Digit
import Tama.Text.Position

/-!
# Parse errors

A failure of the parser is an offset and a message. A parse error makes it readable: line and
column, what was wanted, a quotation of what stands there instead, the lines around it with a
caret under the failing column, and hints for common mistakes.
-/

set_option autoImplicit false

namespace Tama

/-- A failure in a text. -/
structure ParseFailure where
  text : List Char
  offset : Nat
  message : String

/-- A parse error as it is reported. -/
structure ParseError where
  message : String
  location : Int
  line : Int
  column : Int
  expected : List String
  got : Option String
  context : Option String
  suggestions : List String
  filename : String
  deriving DecidableEq, Repr

/-! ## Wording -/

namespace Wanted

/-- The forms of an operand, spelled out. -/
def operandForms : List String :=
  ["integer",
   "\x7b'true' | 'false'\x7d",
   "'null'",
   "\x7b~\x7b\x7b'def' | 'if' | 'true' | 'false' | 'null'\x7d\x7d Re:('[A-Za-z_][A-Za-z0-9_]*') " ++
     "Suppress:('(') Group:([: ... [, : ...]...]) Suppress:(')')\x7d",
   "identifier",
   "\x7bSuppress:('(') : ... Suppress:(')')\x7d"]

/-- What was wanted, in words. -/
def describe : Wanted → String
  | endOfText => "end of text"
  | integer => "integer"
  | operand => "\x7b" ++ " | ".intercalate operandForms ++ "\x7d"
  | symbol c => "'" ++ String.singleton c ++ "'"
  | keyword => "keyword"
  | name => "identifier"

/-- The message of a failure. -/
def message (w : Wanted) : String :=
  "Expected " ++ w.describe

end Wanted

namespace ParseFailure

/-! ## Quotations -/

/-- How much text a quotation shows. -/
def quotedLength : Nat := 11

/-- A short quotation of the text where the failure is. -/
def got (f : ParseFailure) : String :=
  if f.text.length ≤ f.offset then "end of input"
  else
    let quoted := Blank.trim ((Position.lineAfter f.text f.offset).take quotedLength)
    if quoted.isEmpty then "end of line" else "'" ++ String.ofList quoted ++ "'"

/-! ## Context -/

/-- A line with its number in front. -/
def numbered (number : Nat) (text : List Char) : List Char :=
  let digits := Nat.toDigits 10 number
  List.replicate (4 - digits.length) ' ' ++ digits ++ ':' :: ' ' :: text

/-- The line that marks a column of the line above it. -/
def caret (column : Nat) : List Char :=
  List.replicate (5 + column) ' ' ++ "^ Error here".toList

/-- The failing line, up to two lines of the source before it, and a caret below. There is no
context when the source ends before those lines. -/
def contextLines (f : ParseFailure) (source : List Char) : Option (List (List Char)) := do
  let line := Position.line f.text f.offset
  let first := max 1 (line - 2)
  let lines := Position.lines source
  let before ← (List.range' first (line - first)).mapM fun n =>
    (lines[n - 1]?).map (numbered n)
  return before ++
    [numbered line (Position.lineText f.text f.offset),
     caret (Position.column f.text f.offset)]

/-- The context as one text. -/
def context (f : ParseFailure) (source : List Char) : Option String :=
  (f.contextLines source).map fun lines => "\n".intercalate (lines.map String.ofList)

end ParseFailure

/-! ## What was expected -/

namespace Expectation

/-- Whether a text goes on in a way that ends the description of what was expected: with a clause
on what was found, with a parenthesis after blanks, or not at all. A line feed at the very end
does not count. -/
def endsAt (text : List Char) : Bool :=
  text = [] || text = ['\n'] ||
    (match text with
      | ',' :: rest =>
        rest.head?.any Blank.isBlank &&
          "found".toList.isPrefixOf (rest.dropWhile Blank.isBlank)
      | _ => false) ||
    (text.head?.any Blank.isBlank && (text.dropWhile Blank.isBlank).head? = some '(')

/-- The shortest nonempty start of a text that lies within one line and ends as a description
does. -/
def shortest : List Char → Option (List Char)
  | [] => none
  | c :: rest =>
    if c = '\n' then none
    else if endsAt rest then some [c]
    else (shortest rest).map (c :: ·)

/-- The description in a message that starts with `Expected` and blanks. Blanks that the rest of
the message can do without belong to neither. -/
def describe? (message : List Char) : Option (List Char) :=
  let lead := "Expected".toList
  if lead.isPrefixOf message then
    let rest := message.drop lead.length
    let blanks := (rest.takeWhile Blank.isBlank).length
    (List.range blanks).findSome? fun kept => shortest (rest.drop (blanks - kept))
  else none

/-- What a message says was expected. -/
def ofMessage (message : String) : List String :=
  [(describe? message.toList).elim "valid syntax" String.ofList]

end Expectation

/-! ## Hints -/

namespace Hint

/-- Whether a text occurs in another. -/
def occurs (part : List Char) : List Char → Bool
  | [] => part.isEmpty
  | c :: text => part.isPrefixOf (c :: text) || occurs part text

/-- Whether a digit, a point and a digit stand next to each other somewhere. -/
def hasFraction : List Char → Bool
  | a :: b :: c :: text =>
    (Digit.isDigit a && b = '.' && Digit.isDigit c) || hasFraction (b :: c :: text)
  | _ => false

/-- Hints for mistakes of people who come from larger languages. -/
def suggest (got : String) (expected : List String) : List String :=
  let text := got.toList
  let wanted := (" ".intercalate expected).toList
  let hint (applies : Bool) (wording : String) : List String := if applies then [wording] else []
  hint (occurs ['\'', ';', '\''] wanted || got = "end of line" || got = "end of input")
    "Expression and assignment statements end with ';'" ++
  hint (text.any fun c => c ∈ ['-', '*', '/', '<', '>'])
    "Only '+' is an operator; use embedded functions such as sub(a, b) or lt(a, b)" ++
  hint (text.contains '"' || (text.drop 1).dropLast.contains '\'')
    "Tama has no string literals" ++
  hint (hasFraction text) "Tama has no floating-point numbers" ++
  hint (occurs "else".toList text) "'if' has no 'else' branch; use a second 'if'" ++
  hint (wanted.contains '\x7b') "Function and if bodies are wrapped in braces \x7b \x7d"

end Hint

/-! ## Reports -/

namespace ParseFailure

/-- The parse error of a failure, where its context can be shown. -/
def report (f : ParseFailure) (source : String) (filename : String) : Option ParseError := do
  let context ← f.context source.toList
  let expected := Expectation.ofMessage f.message
  return {
    message := f.message
    location := f.offset
    line := Position.line f.text f.offset
    column := Position.column f.text f.offset
    expected
    got := some f.got
    context := some context
    suggestions := Hint.suggest f.got expected
    filename }

end ParseFailure

namespace ParseError

/-- A parse error without a position. -/
def plain (message filename : String) : ParseError :=
  ⟨message, 0, 0, 0, [], none, none, [], filename⟩

/-- The text of a parse error. -/
def render (e : ParseError) : String :=
  if e.line = 0 then e.filename ++ ": " ++ e.message
  else
    let part (lead : String) (text : Option String) : List String :=
      match text with
      | some s => if s.isEmpty then [] else [lead ++ s]
      | none => []
    "\n".intercalate <|
      [e.filename ++ ":" ++ toString e.line ++ ":" ++ toString e.column ++ ": " ++ e.message] ++
      (if e.expected.isEmpty then [] else ["  Expected: " ++ ", ".intercalate e.expected]) ++
      part "  Got: " e.got ++ part "" e.context ++
      e.suggestions.map fun hint => "  Hint: " ++ hint

end ParseError
end Tama
