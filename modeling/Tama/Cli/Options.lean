import Tama.Text.Digit
import Tama.Text.Quoted

/-!
# Command line options

Options and the script name may come in any order; `--` ends the options. A long option may be
shortened to a prefix that no other option shares, and short options may be joined. `--help` and
`--version` act as soon as they are met, so of two of them the first counts, and an argument that
nobody recognises is reported only when none of them came.
-/

set_option autoImplicit false

namespace Tama.Cli

/-- An option. -/
inductive Flag where
  | help
  | interactive
  | parse
  | tokens
  | debug
  | version
  deriving DecidableEq, Repr

namespace Flag

/-- The spellings of an option. -/
def spellings : Flag → List String
  | help => ["-h", "--help"]
  | interactive => ["-i", "--interactive"]
  | parse => ["--parse"]
  | tokens => ["--tokens"]
  | debug => ["--debug"]
  | version => ["--version"]

/-- All options. -/
def all : List Flag :=
  [help, interactive, parse, tokens, debug, version]

/-- Every spelling with its option, in order. -/
def table : List (String × Flag) :=
  all.flatMap fun f => f.spellings.map fun s => (s, f)

/-- How messages name an option. -/
def title (f : Flag) : String :=
  "/".intercalate f.spellings

end Flag

/-- What a command line asks for, when it asks to run something. -/
structure Options where
  script : Option String
  interactive : Bool
  parse : Bool
  tokens : Bool
  debug : Bool
  deriving DecidableEq, Repr

/-- What a command line asks for. -/
inductive Request where
  | run (options : Options)
  | help
  | version
  /-- The command line is wrong. -/
  | misuse (message : String)
  deriving DecidableEq, Repr

/-! ## Arguments -/

/-- What an argument is taken for. -/
inductive Argument where
  | positional (text : String)
  /-- The end of the options. -/
  | separator
  | option (flag : Flag) (spelling : String) (attached : Option String)
  /-- It looks like an option but is none. -/
  | unknown (text : String)
  deriving DecidableEq, Repr

/-- Splits a text at its first equals sign. -/
def splitAtEquals (text : String) : String × Option String :=
  let cs := text.toList
  (String.ofList (cs.takeWhile (· ≠ '=')),
    match cs.dropWhile (· ≠ '=') with
    | _ :: value => some (String.ofList value)
    | [] => none)

/-- Whether a text is a negative number, which is no option. -/
def isNegativeNumber (cs : List Char) : Bool :=
  match cs with
  | '-' :: rest =>
    let whole := rest.takeWhile Digit.isDigit
    match rest.dropWhile Digit.isDigit with
    | [] => !whole.isEmpty
    | '.' :: fraction => !fraction.isEmpty && fraction.all Digit.isDigit
    | _ => false
  | _ => false

/-- The options that an argument may be an abbreviation or a joined form of. -/
def candidates (text : String) : List (Flag × String × Option String) :=
  if text.startsWith "--" then
    let (stem, attached) := splitAtEquals text
    (Flag.table.filter fun e => e.1.startsWith stem).map fun e => (e.2, e.1, attached)
  else
    let short := String.ofList (text.toList.take 2)
    let attached := String.ofList (text.toList.drop 2)
    Flag.table.filterMap fun e =>
      if e.1 = short then some (e.2, e.1, some attached)
      else if e.1.startsWith text then some (e.2, e.1, none)
      else none

/-- What an argument before the separator is taken for, or the message that it is ambiguous. -/
def classify (text : String) : Except String Argument :=
  if !text.startsWith "-" || text = "-" then .ok (.positional text)
  else
    match Flag.table.lookup text with
    | some f => .ok (.option f text none)
    | none =>
      let (stem, attached) := splitAtEquals text
      match Flag.table.lookup stem, attached with
      | some f, some value => .ok (.option f stem (some value))
      | _, _ =>
        match candidates text with
        | [(f, spelling, attached)] => .ok (.option f spelling attached)
        | [] =>
          .ok (if isNegativeNumber text.toList || text.contains ' ' then .positional text
            else .unknown text)
        | several =>
          .error ("ambiguous option: " ++ text ++ " could match " ++
            ", ".intercalate (several.map fun c => c.2.1))

/-- What each argument is taken for; after the separator all are positional. -/
def classifyAll : List String → Except String (List Argument)
  | [] => .ok []
  | "--" :: rest => .ok (.separator :: rest.map .positional)
  | text :: rest => do
    let a ← classify text
    return a :: (← classifyAll rest)

/-! ## Options -/

/-- The options that one argument stands for: those with a single dash may be joined. A text that
is attached to an option which takes none is an error. -/
def expand (flag : Flag) (spelling : String) (attached : Option String) :
    Except String (List Flag) :=
  match attached with
  | none => .ok [flag]
  | some value =>
    if spelling.startsWith "--" || value.isEmpty then refuse flag value
    else go flag value.toList
where
  /-- The message about a text that an option does not take. -/
  refuse (flag : Flag) (value : String) : Except String (List Flag) :=
    .error ("argument " ++ flag.title ++ ": ignored explicit argument " ++ Quoted.quote value)
  /-- Goes on with the letters after an option. -/
  go (flag : Flag) : List Char → Except String (List Flag)
    | [] => .ok [flag]
    | c :: rest =>
      match Flag.table.lookup (String.ofList ['-', c]) with
      | some next => do return flag :: (← go next rest)
      | none => refuse flag (String.ofList (c :: rest))

/-- The state of reading a command line. -/
structure Reading where
  options : Options
  /-- Arguments that nobody has recognised. -/
  extras : List String
  /-- Whether the script name may still come. -/
  awaiting : Bool

namespace Reading

/-- Turns an option on; help and version end the reading. -/
def apply (r : Reading) : Flag → Except Request Reading
  | .help => .error .help
  | .version => .error .version
  | .interactive => .ok { r with options := { r.options with interactive := true } }
  | .parse => .ok { r with options := { r.options with parse := true } }
  | .tokens => .ok { r with options := { r.options with tokens := true } }
  | .debug => .ok { r with options := { r.options with debug := true } }

/-- Takes a positional argument: the first is the script name. -/
def take (r : Reading) (text : String) : Reading :=
  if r.awaiting then { r with options := { r.options with script := some text }, awaiting := false }
  else { r with extras := r.extras ++ [text] }

/-- Takes the separator. Right before or after the script name it belongs to it; anywhere else
nobody recognises it. -/
def separate (r : Reading) (afterScript : Bool) : Reading :=
  if r.awaiting || afterScript then r else { r with extras := r.extras ++ ["--"] }

/-- Reads arguments in order. The flag says whether the script name came right before. -/
def read (r : Reading) (afterScript : Bool) : List Argument → Except Request Reading
  | [] => .ok r
  | .positional text :: rest => (r.take text).read r.awaiting rest
  | .separator :: rest => (r.separate afterScript).read false rest
  | .unknown text :: rest => { r with extras := r.extras ++ [text] : Reading }.read false rest
  | .option flag spelling attached :: rest =>
    match expand flag spelling attached with
    | .error message => .error (.misuse message)
    | .ok flags => do (← flags.foldlM apply r).read false rest

end Reading

/-- What a command line asks for. -/
def request (args : List String) : Request :=
  match classifyAll args with
  | .error message => .misuse message
  | .ok arguments =>
    match Reading.read ⟨⟨none, false, false, false, false⟩, [], true⟩ false arguments with
    | .error request => request
    | .ok r =>
      if r.extras.isEmpty then .run r.options
      else .misuse ("unrecognized arguments: " ++ " ".intercalate r.extras)

end Tama.Cli
