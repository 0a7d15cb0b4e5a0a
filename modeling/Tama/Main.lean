import Tama.Cli.Run

/-!
# The program

Connects the command line to files and to the terminal.
-/

set_option autoImplicit false

namespace Tama.Main

/-- What a path leads to. -/
def entry (path : String) : IO Cli.Entry := do
  try
    let bytes ← IO.FS.readBinFile path
    return .file bytes.toList
  catch
    | .noFileOrDirectory .. => return .missing
    | .inappropriateType .. => return .folder
    | e => throw e

/-- Prints the outcome of a run and gives its exit code. -/
def finish (outcome : Cli.Outcome) : IO UInt32 := do
  IO.print outcome.stdout
  IO.eprint outcome.stderr
  match outcome.ending with
  | .exit code => return UInt32.ofNat code
  | .fault f =>
    IO.eprintln f.message
    return 1
  | .folder path =>
    IO.eprintln (Cli.folderMessage path)
    return 1

/-- The next line of the input, and the lines behind it that have been read already. -/
def nextLine : List (List Char) → IO (Option (List Char × List (List Char)))
  | line :: behind => return some (line, behind)
  | [] => do
    let text ← (← IO.getStdin).getLine
    match Newline.inputLines text.toList with
    | line :: behind => return some (line, behind)
    | [] => return none

/-- Reads inputs at the prompt until the session ends. The last argument holds the lines that have
been read already. -/
partial def interact (debug : Bool) (state : Repl.State Empty) (ahead : List (List Char)) :
    IO UInt32 := do
  let stdout ← IO.getStdout
  stdout.putStr state.prompt
  stdout.flush
  match ← nextLine ahead with
  | none =>
    stdout.putStr Repl.farewell
    return 0
  | some (line, behind) =>
    let ((said, next), ()) :=
      Repl.step Cli.standardHost Stacks.standard.raised debug state (.line (String.ofList line)) ()
    stdout.putStr said
    match next with
    | .reading state => interact debug state behind
    | .finished => return 0
    | .crashed f =>
      IO.eprintln f.message
      return 1

/-- Runs a command line. -/
def run (args : List String) : IO UInt32 :=
  match Cli.task args with
  | .say outcome => finish outcome
  | .script options path => do
    finish (Cli.script Stacks.standard.initial options path (← entry path))
  | .interactive debug before => do
    IO.print (before ++ Repl.banner debug)
    interact debug (Repl.start Stacks.standard.initial) []

end Tama.Main

/-- The entry point of the program. -/
def main (args : List String) : IO UInt32 :=
  Tama.Main.run args
