import Tama.Analysis
import Tama.Eval
import Tama.Program
import Tama.Stack

/-!
# Sessions

Running a source text in an environment: it is read, analyzed and evaluated, and the environment
after it is the one for the next text. A text that cannot be run leaves no environment. Reading and
analysis stop where the stack has no room for them; an evaluation that comes so far reports it.
-/

set_option autoImplicit false

namespace Tama

/-- Why a source text could not be run to an end. -/
inductive Failure where
  | syntaxError (e : ParseError)
  | semantic (e : SemanticError)
  | fault (f : Fault)

/-- A failure to read. -/
def Failure.ofRead : ReadFailure → Failure
  | .syntaxError e => .syntaxError e
  | .fault f => .fault f

/-- A failure to analyze. -/
def Failure.ofAnalysis : AnalysisFailure → Failure
  | .semantic e => .semantic e
  | .fault f => .fault f

namespace Session

/-- Drops the lines of a computation that is to run silently. -/
def shown {ε α : Type} (debug : Bool) (x : Traced ε α) : Traced ε α :=
  if debug then x else ⟨[], x.outcome⟩

/-- Reads a program and says how many statements it has. -/
def read (fits : String → Bool) (source filename : String) : Traced ReadFailure (List Tree) :=
  match Program.readWithin fits source filename with
  | .ok trees =>
    ⟨["Parsed " ++ toString trees.length ++ " statements from " ++ filename], .ok trees⟩
  | .error e => ⟨[], .error e⟩

/-- Reads and analyzes a source text that is to be run. -/
def prepare (stack : Stack) (debug : Bool) (source filename : String) : Traced Failure Ast := do
  let trees ← (shown debug (read stack.runs source filename)).mapError Failure.ofRead
  (shown debug (Analysis.program stack.analysis trees)).mapError Failure.ofAnalysis

variable {ι σ : Type}

/-- Runs a source text in an environment. -/
def runSource (stack : Stack) (host : Host ι σ) (debug : Bool) (source filename : String)
    (env : Env ι) : Run σ Failure (Value × Env ι) := do
  let root ← prepare stack debug source filename
  (Eval.evaluate host debug root env).mapError .fault

/-- The text of a result: an error is reported, any other value is written out. -/
def resultText (v : Value) : Except Fault Datum := do
  if ← v.failed then v.formatError else return .text (← v.format)

end Session
end Tama
