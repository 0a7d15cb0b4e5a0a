import Tama.Env.Listing
import Tama.Session
import Tama.Token.Lexer

/-!
# Interactive mode

One environment is threaded through a session. Lines are read until as many braces have been
closed as opened; what has been read then is a command or a source text. The session ends with
`exit`, with the end of the input, or when it is interrupted.
-/

set_option autoImplicit false

namespace Tama.Repl

/-- The name and version of the language. -/
def version : String := "Tama v0.1.0"

/-- What is typed at a prompt. -/
inductive Input where
  | line (text : String)
  | interrupt
  deriving DecidableEq, Repr

/-- The state of a session: its environment, the lines of an input that is not yet complete, and the
stack that is left to what an input asks for. -/
structure State (ι : Type) where
  env : Env ι
  unfinished : Option String
  stack : Stack

/-- How a session goes on. -/
inductive Next (ι : Type) where
  | reading (s : State ι)
  | finished
  /-- A fault that the session does not survive. -/
  | crashed (f : Fault)

/-! ## Texts -/

/-- The commands of a session. -/
def helpText : String :=
  "\n".intercalate
    ["REPL Commands:",
     "  :parse <code>     - Show the parse tree",
     "  :tokens <code>    - Show the token stream",
     "  :env              - Show current environment",
     "  :help             - Show this help",
     "  exit              - Exit REPL",
     "",
     "Language features:",
     "  a = 1;                    - Assignment",
     "  a + 2;                    - Integer addition",
     "  if (a) \x7b b = 1; \x7d         - Conditional (null and false are falsy)",
     "  def f(x) \x7b x + 1; \x7d       - Function definition",
     "  f(41);                    - Function call",
     "  Built-ins: " ++ ", ".intercalate (Builtin.all.map (·.name))] ++ "\n"

/-- What a session says when it starts. -/
def banner (debug : Bool) : String :=
  version ++ " - Interactive Mode\n" ++ "Type 'exit' to quit, ':help' for commands\n" ++
    (if debug then "Debug mode enabled\n" else "") ++ "\n"

/-- What a session says when its input ends. -/
def farewell : String := "\nGoodbye!\n"

/-- The prompt for a new input. -/
def prompt : String := "tama> "

/-- The prompt for another line of an unfinished input. -/
def continuationPrompt : String := "....> "

/-- The words that can be completed. -/
def words : List String :=
  Keyword.all.map (fun k => String.ofList k.spelling) ++ Builtin.all.map (·.name) ++
    [":parse", ":tokens", ":env", ":help", "exit"]

/-- The completions of a text. -/
def completions (text : String) : List String :=
  words.filter (·.startsWith text)

/-! ## Inputs -/

/-- Whether a text opens more braces than it closes. -/
def isUnfinished (code : String) : Bool :=
  code.toList.count '\x7d' < code.toList.count '\x7b'

/-- What an input asks for. -/
inductive Command where
  | exit
  | nothing
  | parse (code : String)
  | tokens (code : String)
  | env
  | help
  | run (code : String)
  deriving DecidableEq, Repr

/-- The rest of a text after a word that it starts with. -/
def after? (word : String) (text : List Char) : Option String :=
  if word.toList.isPrefixOf text then some (String.ofList (text.drop word.length)) else none

/-- What an input asks for. Blanks around a command do not count. -/
def Command.ofInput (code : String) : Command :=
  let command := Blank.trim code.toList
  if command = "exit".toList then exit
  else if command.isEmpty then nothing
  else
    match after? ":parse " command, after? ":tokens " command with
    | some rest, _ => parse rest
    | _, some rest => tokens rest
    | none, none =>
      if command = ":env".toList then env
      else if command = ":help".toList then help
      else run code

/-! ## Steps -/

/-- Printed lines as text. -/
def unlines (lines : List String) : String :=
  String.join (lines.map (· ++ "\n"))

/-- Goes on with the next input. -/
def goOn {ι : Type} (state : State ι) : Next ι :=
  .reading { state with unfinished := none }

/-- The layouts of trees, one behind the other, up to the first that the stack has no room for. -/
def layouts (room : Nat) : List Tree → String × Option Fault
  | [] => ("", none)
  | t :: rest =>
    match t.layoutOn room with
    | .ok text =>
      let (later, fault) := layouts room rest
      (text ++ later, fault)
    | .error f => ("", some f)

/-- Shows the parse trees of a text. Nobody reports that the stack has run out. -/
def showTrees {ι : Type} (debug : Bool) (state : State ι) (code : String) : String × Next ι :=
  let r := Session.shown debug (Session.read state.stack.shows code "<input>")
  let said := unlines r.lines
  match r.outcome with
  | .ok trees =>
    let (text, fault) := layouts state.stack.layout trees
    (said ++ text, fault.elim (goOn state) .crashed)
  | .error (.syntaxError e) => (said ++ "Parse error: " ++ e.render ++ "\n", goOn state)
  | .error (.fault f) => (said, .crashed f)

/-- Shows the tokens of a text. -/
def showTokens {ι : Type} (state : State ι) (code : String) : String × Next ι :=
  match Lexer.tokenize code "<input>" with
  | .ok tokens =>
    match tokens.mapM Token.render with
    | .ok texts => (unlines (texts.map ("  " ++ ·)), goOn state)
    | .error limit => ("", .crashed (.digits limit))
  | .error (.fault f) => ("", .crashed f)
  | .error e => ("Tokenizer error: " ++ e.message ++ "\n", goOn state)

/-- Shows the environment of the session. -/
def showEnv {ι : Type} (state : State ι) : String × Next ι :=
  let r := state.env.print
  match r.outcome with
  | .ok () => (unlines r.lines, goOn state)
  | .error f => (unlines r.lines, .crashed f)

/-- What a failed input reports. The session does not survive a fault that it cannot report. -/
def report : Failure → Except Fault String
  | .syntaxError e => .ok ("Parse error: " ++ e.render)
  | .semantic e => .ok ("Semantic error: " ++ e.message)
  | .fault (.host cause) => .ok ("Host error: " ++ cause.message)
  | .fault .tooDeep => .ok "Error: expressions are nested too deeply to parse"
  | .fault f => .error f

/-- The line that shows a result. -/
def resultLine (v : Value) : Except Fault String := do
  let text ← Session.resultText v
  return (if v.isError then "Error: " else "=> ") ++ (← text.display)

variable {ι σ : Type}

/-- The state for the input behind a text. The stack is higher once anything was evaluated. -/
def State.after (raised : Stack) (state : State ι) (code : String) (env : Env ι) : State ι :=
  match (Session.prepare state.stack false code "<input>").outcome with
  | .ok _ => { state with env := env, stack := raised }
  | .error _ => { state with env := env }

/-- Runs a source text. -/
def runCode (host : Host ι σ) (raised : Stack) (debug : Bool) (state : State ι) (code : String)
    (s : σ) : (String × Next ι) × σ :=
  let (r, t) := Session.runSource state.stack host debug code "<input>" state.env s
  let (answer, env) :=
    match r.outcome with
    | .ok (v, env) => (resultLine v, env)
    | .error e => (report e, state.env)
  match answer with
  | .ok text => ((unlines (r.lines ++ [text]), goOn (state.after raised code env)), t)
  | .error f => ((unlines r.lines, .crashed f), t)

/-- Does what an input asks for. -/
def perform (host : Host ι σ) (raised : Stack) (debug : Bool) (state : State ι) (code : String)
    (s : σ) : (String × Next ι) × σ :=
  match Command.ofInput code with
  | .exit => (("", .finished), s)
  | .nothing => (("", goOn state), s)
  | .parse rest => (showTrees debug state rest, s)
  | .tokens rest => (showTokens state rest, s)
  | .env => (showEnv state, s)
  | .help => ((helpText, goOn state), s)
  | .run code => runCode host raised debug state code s

/-- The code that a new line completes or continues. -/
def State.code (state : State ι) (line : String) : String :=
  match state.unfinished with
  | some lines => lines ++ "\n" ++ line
  | none => line

/-- Takes one line of input. -/
def step (host : Host ι σ) (raised : Stack) (debug : Bool) (state : State ι) (input : Input)
    (s : σ) : (String × Next ι) × σ :=
  match input with
  | .interrupt => ((farewell, .finished), s)
  | .line text =>
    let code := state.code text
    if isUnfinished code then (("", .reading { state with unfinished := some code }), s)
    else perform host raised debug state code s

/-- The prompt of a session that goes on reading. -/
def State.prompt (state : State ι) : String :=
  if state.unfinished.isSome then continuationPrompt else Repl.prompt

/-- What a session prints from a state on, and the fault that ends it, if one does. -/
def transcript (host : Host ι σ) (raised : Stack) (debug : Bool) (state : State ι) (s : σ) :
    List Input → String × Option Fault
  | [] => (state.prompt ++ farewell, none)
  | input :: rest =>
    match step host raised debug state input s with
    | ((text, .reading next), t) =>
      let (later, fault) := transcript host raised debug next t rest
      (state.prompt ++ text ++ later, fault)
    | ((text, .finished), _) => (state.prompt ++ text, none)
    | ((text, .crashed f), _) => (state.prompt ++ text, some f)

/-- The state in which a session starts. -/
def start (stack : Stack) : State ι :=
  ⟨.standard .empty, none, stack⟩

end Tama.Repl
