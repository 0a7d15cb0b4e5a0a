import Tama.Cli.Files
import Tama.Cli.Options
import Tama.Env.Listing
import Tama.Repl
import Tama.Text.Newline
import Tama.Text.Utf8

/-!
# The command line

Runs a script, shows its parse trees or its tokens, or starts the interactive mode. Everything that
can go wrong with a script is reported on standard output, with exit code 1.
-/

set_option autoImplicit false

namespace Tama.Cli

/-- How a run ends. -/
inductive Ending where
  | exit (code : Nat)
  /-- A fault that nobody reports. -/
  | fault (f : Fault)
  /-- A script path that leads to a folder. -/
  | folder (path : String)

/-- The wording of a path that leads to a folder. -/
def folderMessage (path : String) : String :=
  "[Errno 21] Is a directory: " ++ Quoted.quote path

/-- What a run prints, and how it ends. -/
structure Outcome where
  stdout : String
  stderr : String
  ending : Ending

/-! ## Texts -/

/-- The synopsis of the command line. -/
def usage : String :=
  "usage: tama [-h] [-i] [--parse] [--tokens] [--debug] [--version] [script]\n"

/-- The explanation of the command line. -/
def help : String :=
  usage ++ "\n".intercalate
    ["",
     "Tama Programming Language - a minimal imperative scripting language",
     "",
     "positional arguments:",
     "  script             Tama script file to execute",
     "",
     "options:",
     "  -h, --help         show this help message and exit",
     "  -i, --interactive  Start interactive mode",
     "  --parse            Parse file and show the parse tree (for debugging)",
     "  --tokens           Tokenize file and show the tokens (for debugging)",
     "  --debug            Enable debug output for all stages",
     "  --version          show program's version number and exit",
     "",
     "Examples:",
     "  tama script.tama            # Run a Tama script",
     "  tama -i                     # Interactive mode",
     "  tama --parse script.tama    # Parse and show the parse tree",
     "  tama --tokens script.tama   # Show the token stream",
     "  tama --debug script.tama    # Run with debug output",
     "        "] ++ "\n"

/-- What the language is about. -/
def languageInfo : String :=
  "\n".intercalate
    ["Tama Programming Language",
     String.ofList (List.replicate 50 '='),
     "A minimal imperative scripting language with:",
     "• Integers, booleans and null",
     "• Variables, addition and if blocks",
     "• Functions with isolated variable scopes",
     "• Embedded functions provided by the host",
     ""] ++ "\n"

/-- What stands before an interactive mode that was started without any argument. -/
def welcome : String :=
  languageInfo ++ "Starting interactive mode...\n" ++
    "Use 'tama --help' for command line options\n\n"

/-! ## Scripts -/

/-- Printed output and the code to exit with. -/
def printed (lines : List String) (code : Nat) : Outcome :=
  ⟨Repl.unlines lines, "", .exit code⟩

/-- Printed output and a fault that nobody reports. -/
def faulted (lines : List String) (f : Fault) : Outcome :=
  ⟨Repl.unlines lines, "", .fault f⟩

/-- A fault of the contents of a file. -/
def cannotDecode (path : String) (f : Utf8.Fault) : String :=
  "Error: Cannot decode file '" ++ path ++ "': " ++ f.message

/-- The text of a file. -/
def decode (bytes : List UInt8) : Except Utf8.Fault String := do
  return String.ofList (Newline.normalize (← Utf8.decode bytes))

/-- Shows the tokens of a file. -/
def showTokens (path : String) (bytes : List UInt8) : Outcome :=
  match decode bytes with
  | .error f => printed [cannotDecode path f] 1
  | .ok text =>
    match Lexer.tokenize text path with
    | .error (.fault f) => faulted [] f
    | .error e => printed ["Tokenizer error: " ++ e.message] 1
    | .ok tokens =>
      let line (t : Token) : Except DigitLimit String := do
        return toString t.span.startLine ++ ":" ++ toString t.span.startColumn ++ "\t" ++
          (← t.render)
      match tokens.mapM line with
      | .ok lines => printed lines 0
      | .error limit => faulted [] (.digits limit)

/-- Shows the trees of a file, each under its number. -/
def listTrees (room number : Nat) : List Tree → Traced Fault Unit
  | [] => return ()
  | t :: rest => do
    Traced.line ("\nStatement " ++ toString number ++ ":")
    let text ← t.layoutOn room
    Traced.line text
    listTrees room (number + 1) rest

/-- Reads the program in a file. -/
def readProgram (fits : String → Bool) (path : String) (bytes : List UInt8) :
    Traced ReadFailure (List Tree) :=
  match decode bytes with
  | .error f =>
    Traced.fail (.syntaxError
      (.plain ("Cannot decode file " ++ path ++ ": " ++ f.message) path))
  | .ok text => Session.read fits text path

/-- The error of a file that does not exist. -/
def fileNotFound (path : String) : ParseError :=
  .plain ("File not found: " ++ path) path

/-- The report of a parse error in a script. -/
def parseErrorLine (path : String) (e : ParseError) : String :=
  "Parse error in '" ++ path ++ "': " ++ e.render

/-- What is printed before a file is parsed. -/
def parsingLine (path : String) : String :=
  "Parsing " ++ path ++ "..."

/-- Shows the parse trees of a file. Nobody reports that the stack has run out. -/
def showTrees (stack : Stack) (debug : Bool) (path : String) (bytes : List UInt8) : Outcome :=
  let r := Session.shown debug (readProgram stack.shows path bytes)
  let said := parsingLine path :: r.lines
  match r.outcome with
  | .error (.fault f) => faulted said f
  | .error (.syntaxError e) => printed (said ++ [parseErrorLine path e]) 1
  | .ok trees =>
    let said := said ++
      ["\nParsed " ++ toString trees.length ++ " top-level statements:",
       String.ofList (List.replicate 50 '=')]
    let listed := listTrees stack.layout 1 trees
    match listed.outcome with
    | .ok () => printed (said ++ listed.lines) 0
    | .error f => faulted (said ++ listed.lines) f

/-- The rule around the report of a runtime error. -/
def rule : String :=
  String.ofList (List.replicate 70 '=')

/-- The end of a script run, after its output. -/
def finishScript {ι : Type} (debug : Bool) (path : String) (v : Value) (env : Env ι) :
    Traced Fault Nat := do
  if ← v.failed then
    Traced.line ("\n" ++ rule)
    Traced.line ("Runtime Error in '" ++ path ++ "'")
    Traced.line rule
    let text ← v.formatError
    Traced.line ("\nError: " ++ (← text.display))
    if debug then env.print else pure ()
    Traced.line ("\n" ++ rule ++ "\n")
    return 1
  else if debug then
    Traced.line ("Result: " ++ (← v.format))
    env.print
    return 0
  else return 0

/-- What a failed script reports. Nobody reports any other fault. -/
def report (path : String) : Failure → Except Fault (List String)
  | .syntaxError e => .ok [parseErrorLine path e]
  | .semantic e => .ok ["Semantic analysis error in '" ++ path ++ "': " ++ e.message]
  | .fault (.host cause) => .ok ["Host error in '" ++ path ++ "': " ++ cause.message]
  | .fault .tooDeep =>
    .ok ["Error in '" ++ path ++ "': maximum recursion depth exceeded",
      "  Hint: Expressions are nested too deeply to parse"]
  | .fault f => .error f

/-- The host of a script run from the command line provides the standard functions alone. -/
def standardHost : Host Empty Unit :=
  fun i _ => nomatch i

/-- Runs a script with the standard functions. -/
def runScript (stack : Stack) (debug : Bool) (path : String) (bytes : List UInt8) : Outcome :=
  match decode bytes with
  | .error f =>
    printed
      [cannotDecode path f, "  Hint: Make sure the file is a text file with UTF-8 encoding"] 1
  | .ok source =>
    let r := (Session.runSource stack standardHost debug source path (.standard .empty) ()).1
    match r.outcome with
    | .ok (v, env) =>
      let last := finishScript debug path v env
      match last.outcome with
      | .ok code => printed (r.lines ++ last.lines) code
      | .error f => faulted (r.lines ++ last.lines) f
    | .error e =>
      match report path e with
      | .ok lines => printed (r.lines ++ lines) 1
      | .error f => faulted r.lines f

/-- Does what the options ask for with a script. Showing tokens goes before showing trees, and
either before running. -/
def script (stack : Stack) (options : Options) (path : String) : Entry → Outcome
  | .missing => printed ["Error: Script file '" ++ path ++ "' does not exist"] 1
  | .folder =>
    ⟨if options.parse && !options.tokens then parsingLine path ++ "\n" else "", "", .folder path⟩
  | .file bytes =>
    if options.tokens then showTokens path bytes
    else if options.parse then showTrees stack options.debug path bytes
    else runScript stack options.debug path bytes

/-! ## Runs -/

/-- What a command line asks for, once its arguments are read. -/
inductive Task where
  /-- Print something and end. -/
  | say (outcome : Outcome)
  | script (options : Options) (path : String)
  /-- Start the interactive mode after printing something. -/
  | interactive (debug : Bool) (before : String)

/-- What a command line asks for. -/
def task (args : List String) : Task :=
  match request args with
  | .help => .say ⟨help, "", .exit 0⟩
  | .version => .say ⟨Repl.version ++ "\n", "", .exit 0⟩
  | .misuse message => .say ⟨"", usage ++ "tama: error: " ++ message ++ "\n", .exit 2⟩
  | .run options =>
    if args.isEmpty then .interactive false welcome
    else
      match options.script.filter (· ≠ "") with
      | some path => .script options path
      | none =>
        if options.interactive then .interactive options.debug ""
        else .say ⟨help ++ "\n" ++ languageInfo, "", .exit 0⟩

/-- Runs a command line in a folder with the given inputs at the prompt. -/
def run (limits : Stacks) (args : List String) (entry : String → Entry)
    (inputs : List Repl.Input) : Outcome :=
  match task args with
  | .say outcome => outcome
  | .script options path => script limits.initial options path (entry path)
  | .interactive debug before =>
    let (text, fault) :=
      Repl.transcript standardHost limits.raised debug (Repl.start limits.initial) () inputs
    ⟨before ++ Repl.banner debug ++ text, "", fault.elim (.exit 0) .fault⟩

end Tama.Cli
