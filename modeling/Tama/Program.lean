import Tama.ParseError
import Tama.Parser.Grammar
import Tama.Text.Tab

/-!
# Reading programs

The entry points of the parser: texts with tabs go in, parse trees or readable errors come out. The
grammar sets no limit to the nesting of a text; where the stack does, it is left to whoever reads
(`Program.readWithin`).
-/

set_option autoImplicit false

namespace Tama

/-- Why a text cannot be read. -/
inductive ReadFailure where
  | syntaxError (e : ParseError)
  | fault (f : Fault)

namespace Program

/-- Runs a parser that reads a whole text, tabs expanded. A failure is reported with its place in
the expanded text; lines before it are shown as they stand in the source. -/
def readWith {α : Type} (p : Parser α) (source filename : String) : Except ReadFailure α :=
  let text := Tab.expand source.toList
  match p text with
  | .done a _ => .ok a
  | .halted cause => .error (.fault cause.fault)
  | .failed rest wanted =>
    let failure : ParseFailure := ⟨text, text.length - rest.length, wanted.message⟩
    .error (.syntaxError
      ((failure.report source filename).getD (.plain wanted.message filename)))

/-- Reads a program. -/
def read (source filename : String) : Except ReadFailure (List Tree) :=
  readWith (Parser.unlimited Parser.program) source filename

/-- Reads a single expression. -/
def readExpression (source filename : String) : Except ReadFailure Tree :=
  readWith (Parser.unlimited Parser.wholeExpression) source filename

/-- Reads a program, where the stack has room only for the reading of some texts. -/
def readWithin (fits : String → Bool) (source filename : String) :
    Except ReadFailure (List Tree) :=
  if fits source then read source filename else .error (.fault .tooDeep)

end Program
end Tama
