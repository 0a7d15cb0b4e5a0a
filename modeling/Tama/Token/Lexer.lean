import Tama.Datum.Access
import Tama.Text.Blank
import Tama.Text.Position
import Tama.Token

/-!
# The token stream

The text is cut into lines, comments are cut off, blanks are skipped, and what is left is read
token by token: a run of digits, an operator, a delimiter, or a word.
-/

set_option autoImplicit false

namespace Tama

/-- Why a text has no token stream. -/
inductive LexFailure where
  /-- No token starts with this character. -/
  | unknown (c : Char) (span : Span)
  | fault (f : Fault)

/-- The wording of an unknown character. -/
def LexFailure.message : LexFailure → String
  | unknown c span => "Unknown character '" ++ String.singleton c ++ "' at " ++ span.render
  | fault f => f.message

namespace Lexer

/-- Cuts a comment off the end of a line: everything from the first `#` or `//`. -/
def stripComment : List Char → List Char
  | [] => []
  | c :: cs => if c = '#' ∨ (c = '/' ∧ cs.head? = some '/') then [] else c :: stripComment cs

/-- Cuts a comment off a line that may be any data. -/
def stripData (line : Datum) : Except Fault Datum := do
  match line with
  | .text s => return .text (String.ofList (stripComment s.toList))
  | d => do
    d.checkLength
    (Misuse.notLine d.typeName).raise

/-- Whether a character is an operator. -/
def isOperator (c : Char) : Bool :=
  c ∈ ['+', '=']

/-- Whether a character is a delimiter. -/
def isDelimiter (c : Char) : Bool :=
  c ∈ ['(', ')', '\x7b', '\x7d', ',', ';']

/-- The keyword or name that a word is. -/
def ofWord (word : List Char) : Lexeme :=
  match Keyword.ofWord? word with
  | some k => .keyword k
  | none => .identifier (String.ofList word)

/-- The token at the start of a text whose first character is given: what it is, unless it has too
many digits, its characters after the first, and what is left. -/
def munch? (c : Char) (cs : List Char) :
    Option (Except DigitLimit Lexeme × List Char × List Char) :=
  if Digit.isDigit c then
    let digits := cs.takeWhile Digit.isDigit
    some ((Decimal.read (c :: digits)).map .int, digits, cs.dropWhile Digit.isDigit)
  else if isOperator c then some (.ok (.operator c), [], cs)
  else if isDelimiter c then some (.ok (.delimiter c), [], cs)
  else if Word.isStart c then
    let part := cs.takeWhile Word.isPart
    some (.ok (ofWord (c :: part)), part, cs.dropWhile Word.isPart)
  else none

/-- A token and what follows it make up the text. -/
theorem munch?_append {c : Char} {cs part rest : List Char} {l : Except DigitLimit Lexeme}
    (h : munch? c cs = some (l, part, rest)) : part ++ rest = cs := by
  unfold munch? at h
  split at h
  · cases h
    exact List.takeWhile_append_dropWhile
  split at h
  · cases h
    rfl
  split at h
  · cases h
    rfl
  split at h
  · cases h
    exact List.takeWhile_append_dropWhile
  · cases h

/-- The place of some characters on a line. -/
def spanOf (filename : String) (line column : Nat) (text : List Char) : Span :=
  ⟨filename, line, column, line, column + text.length, String.ofList text⟩

/-- The tokens of a line without a comment, which starts at a column. -/
def scanLine (filename : String) (line column : Nat) : List Char → Except LexFailure (List Token)
  | [] => .ok []
  | c :: cs =>
    if Blank.isBlank c then scanLine filename line (column + 1) cs
    else
      match h : munch? c cs with
      | none => .error (.unknown c (spanOf filename line column [c]))
      | some (.error limit, _, _) => .error (.fault (.digits limit))
      | some (.ok lexeme, part, rest) =>
        have : rest.length < cs.length + 1 := by
          rw [← munch?_append h, List.length_append]
          omega
        do
          let tokens ← scanLine filename line (column + (part.length + 1)) rest
          return ⟨lexeme, spanOf filename line column (c :: part)⟩ :: tokens
termination_by cs => cs.length

/-- The tokens of several lines, the first of which has the given number. -/
def scanLines (filename : String) (line : Nat) : List (List Char) → Except LexFailure (List Token)
  | [] => .ok []
  | text :: rest => do
    let tokens ← scanLine filename line 1 (stripComment text)
    return tokens ++ (← scanLines filename (line + 1) rest)

/-- The tokens of a text. -/
def tokenize (text filename : String) : Except LexFailure (List Token) :=
  scanLines filename 1 (Position.lines text.toList)

end Lexer
end Tama
