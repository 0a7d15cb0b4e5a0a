import Tama.Parser.Reply
import Tama.Text.Blank
import Tama.Text.Decimal
import Tama.Text.Word

/-!
# Words and symbols of a program

Before every word and symbol a program may have gaps and comments. A comment runs from `#` or `//`
to the end of its line. A keyword is not followed by a character that would make it part of a
longer word, and a name does not stand where a keyword does.
-/

set_option autoImplicit false

namespace Tama.Parser

/-! ## Gaps -/

/-- Skips gaps and comments. The first argument says whether the text starts inside a comment. -/
def skipFrom : Bool → List Char → List Char
  | _, [] => []
  | true, c :: cs => if c = '\n' then skipFrom false cs else skipFrom true cs
  | false, c :: cs =>
    if Blank.isGap c then skipFrom false cs
    else if c = '#' ∨ (c = '/' ∧ cs.head? = some '/') then skipFrom true cs
    else c :: cs

/-- Skips gaps and comments. -/
def skip (cs : List Char) : List Char :=
  skipFrom false cs

/-- Whether gaps were skipped since the last comment, or at all when there is none. -/
def spacedFrom : Bool → Bool → List Char → Bool
  | _, spaced, [] => spaced
  | true, _, c :: cs => if c = '\n' then spacedFrom false true cs else spacedFrom true false cs
  | false, spaced, c :: cs =>
    if Blank.isGap c then spacedFrom false true cs
    else if c = '#' ∨ (c = '/' ∧ cs.head? = some '/') then spacedFrom true false cs
    else spaced

/-- Whether what stands first in a text, gaps and comments apart, has a gap right before it. -/
def spaced (cs : List Char) : Bool :=
  spacedFrom false false cs

theorem length_skipFrom_le (inComment : Bool) (cs : List Char) :
    (skipFrom inComment cs).length ≤ cs.length := by
  fun_induction skipFrom inComment cs <;> simp_all <;> omega

theorem length_skip_le (cs : List Char) : (skip cs).length ≤ cs.length :=
  length_skipFrom_le false cs

/-! ## Words -/

/-- The text after a keyword at its start, if the keyword stands there. -/
def afterKeyword? (k : Keyword) (cs : List Char) : Option (List Char) :=
  if k.spelling.isPrefixOf cs then
    let rest := cs.drop k.spelling.length
    if rest.head?.any Word.joinsKeyword then none else some rest
  else none

/-- Whether some keyword stands at the start of a text. -/
def atKeyword (cs : List Char) : Bool :=
  Keyword.all.any fun k => (afterKeyword? k cs).isSome

/-- Reads one symbol. -/
def symbol (c : Char) : Parser Unit := fun cs =>
  match skip cs with
  | d :: rest => if d = c then .done () rest else .failed (d :: rest) (.symbol c)
  | [] => .failed [] (.symbol c)

/-- Reads one keyword. -/
def keyword (k : Keyword) : Parser Unit := fun cs =>
  match afterKeyword? k (skip cs) with
  | some rest => .done () rest
  | none => .failed (skip cs) .keyword

/-- Reads a name: as many characters as it can have, where no keyword stands. -/
def name : Parser String := fun cs =>
  match skip cs with
  | c :: rest =>
    if Word.isStart c && !atKeyword (c :: rest) then
      .done (String.ofList (c :: rest.takeWhile Word.isPart)) (rest.dropWhile Word.isPart)
    else .failed (c :: rest) .name
  | [] => .failed [] .name

/-- Reads an integer literal: as many digits as there are. -/
def integer : Parser Nat := fun cs =>
  let text := skip cs
  let digits := text.takeWhile Digit.isDigit
  if digits.isEmpty then .failed text .integer
  else
    match Decimal.read digits with
    | .ok n => .done n (text.dropWhile Digit.isDigit)
    | .error _ => .halted (.tooLong digits.length)

/-- Reads an opening parenthesis in the place of an operand. It is the last form that an operand
can take, so where it fails no operand stands at all; right after a gap the failure then names an
integer, the first form, and otherwise every form. -/
def openOperand : Parser Unit := fun cs =>
  match skip cs with
  | '(' :: rest => .done () rest
  | rest => .failed rest (if spaced cs then .integer else .operand)

/-- Reads to the end of the text. -/
def ending : Parser Unit := fun cs =>
  match skip cs with
  | [] => .done () []
  | rest => .failed rest .endOfText

end Tama.Parser
