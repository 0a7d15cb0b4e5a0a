import Tama.Ast.Form
import Tama.Env

/-!
# Evaluation

Evaluation walks a syntax tree and threads an environment through it. It yields a value and the
environment after it; an error of the script is a value like any other, and whatever was being
evaluated ends with it, in the environment that it began with. Nested evaluations use up a depth;
when none is left the evaluation stops, and the program as a whole yields an error value.

With `debug` on, evaluation also prints what it does.
-/

set_option autoImplicit false

namespace Tama.Eval

variable {ι σ : Type}

/-- Evaluates a node in an environment. -/
abbrev Step (ι σ : Type) : Type :=
  Ast → Env ι → Run σ Fault (Value × Env ι)

/-! ## Tracing -/

/-- Prints a line of the debug trace. Its text may not be writable, which only matters when it is
to be printed. -/
def trace (debug : Bool) (text : Except Fault String) : Run σ Fault Unit :=
  if debug then do Run.line (← text) else pure ()

/-- The trace of a node of some type. -/
def visitText (kind : Datum) : Except Fault String := do
  return "Evaluating: " ++ (← kind.display)

/-- The trace of an error that ends a sequence of statements. -/
def stopText (v : Value) : Except Fault String := do
  let tag ← v.tag
  let message ← v.message
  return "Stopped on " ++ (← tag.display) ++ ": " ++ (← message.display)

/-- The trace of a function definition. -/
def definitionText (name : Datum) (params : List Datum) : Except Fault String := do
  return "Defined function: " ++ (← name.display) ++ "(" ++ (← Datum.joinItems ", " params) ++ ")"

/-- The trace of a call to an embedded function. -/
def embeddedText (name : Name) (args : List Datum) : Except Fault String := do
  return "Calling embedded " ++ (← name.display) ++ " with " ++ (← (Datum.list args).literal)

/-- The trace of a call to a defined function. -/
def callText (name : Name) : Except Fault String := do
  return "Calling " ++ (← name.display)

/-- The declared number of arguments as text. No list of parameters is so long that its length could
not be written; a host may have declared any number. -/
def declaredText : Function ι → Except Fault String
  | .defined params _ => return toString params.length
  | f => do return ← (← f.count).display

/-- The warning about a call with more or fewer arguments than declared. -/
def countText (name : Name) (f : Function ι) (given : Nat) : Except Fault String := do
  return "Warning: " ++ (← name.display) ++ " declares " ++ (← declaredText f) ++
    " arguments, called with " ++ toString given

/-! ## Script errors -/

/-- The error of a call. -/
def callError (message : String) : Value :=
  .evaluatorError message (.text "FunctionCall")

/-- The error of a call to a name without a function. -/
def undefined (name : Name) : Except Fault Value := do
  return callError ("Undefined function: " ++ (← name.display))

/-- The error of a call to an embedded function without a callback. -/
def noCallback (name : Name) : Except Fault Value := do
  return callError ("Embedded function '" ++ (← name.display) ++ "' has no host callback")

/-- The error of a call to an entry that is no function. -/
def notCallable (name : Name) (kind : Datum) : Except Fault Value := do
  return callError ("'" ++ (← name.display) ++ "' is bound to " ++ (← kind.display) ++
    ", which is not callable")

/-- The error of a node of a type that the language does not have. -/
def unknownNode (kind : Datum) : Except Fault Value := do
  return .evaluatorError ("Unknown AST node type: " ++ (← kind.display)) kind

/-- The trace of a node of a type that the language does not have. -/
def unknownText (kind : Datum) : Except Fault String := do
  return "Unknown node type: " ++ (← kind.display)

/-! ## Sequences -/

/-- Runs statements in order. The result is that of the last one, or the given one when there is
none; the first error ends the sequence in the environment before the statement that failed. -/
def sequence (step : Step ι σ) (debug : Bool) (result : Value) (env : Env ι) :
    List Ast → Run σ Fault (Value × Env ι)
  | [] => pure (result, env)
  | s :: rest => do
    let (v, env') ← step s env
    if ← v.failed then do
      trace debug (stopText v)
      pure (v, env)
    else sequence step debug v env' rest

/-- Runs the statements of a body; an empty body yields null. -/
def statements (step : Step ι σ) (debug : Bool) (body : List Ast) (env : Env ι) :
    Run σ Fault (Value × Env ι) :=
  sequence step debug .null env body

/-- The values of a call's arguments, or the first error among them. -/
inductive Arguments (ι : Type) where
  | values (vs : List Value) (env : Env ι)
  | error (v : Value)

/-- Evaluates arguments from left to right, each in the environment that the one before left. -/
def arguments (step : Step ι σ) (env : Env ι) : List Ast → Run σ Fault (Arguments ι)
  | [] => pure (.values [] env)
  | a :: rest => do
    let (v, env') ← step a env
    if ← v.failed then pure (.error v)
    else
      match ← arguments step env' rest with
      | .values vs last => pure (.values (v :: vs) last)
      | .error e => pure (.error e)

/-! ## Calls -/

/-- Calls an embedded function: its arguments go to the host as native data, and its result comes
back as a value. -/
def callEmbedded (invoke : Invoke ι σ) (debug : Bool) (name : Name) (f : Function ι)
    (args : List Value) : Run σ Fault Value :=
  match f.target with
  | none => liftM (noCallback name)
  | some callback => do
    let native ← args.mapM fun v => (liftM v.toHost : Run σ Fault Datum)
    trace debug (embeddedText name native)
    let result ← invoke (← callback) native
    liftM (Value.ofHost result)

/-- Warns about a call with more or fewer arguments than declared. -/
def traceCount (debug : Bool) (name : Name) (f : Function ι) (given : Nat) : Run σ Fault Unit :=
  if debug then do
    let declared ← f.count
    if declared == .int given then pure () else trace debug (countText name f given)
  else pure ()

/-- Calls a defined function: its body runs in a scope that holds the parameters alone, and
whatever it binds is dropped on return. -/
def callDefined (step : Step ι σ) (debug : Bool) (name : Name) (f : Function ι)
    (args : List Value) (env : Env ι) : Run σ Fault Value := do
  traceCount debug name f args.length
  trace debug (callText name)
  let params ← (← f.arguments).names args.length
  let body ← f.body
  let (v, _) ← statements step debug body (env.callScope params args)
  pure v

/-- Calls whatever a name is bound to. -/
def callFunction (invoke : Invoke ι σ) (step : Step ι σ) (debug : Bool) (name : Name)
    (f : Function ι) (args : List Value) (env : Env ι) : Run σ Fault Value :=
  match f.kind with
  | .text "EmbeddedFunction" => callEmbedded invoke debug name f args
  | .text "DefinedFunction" => callDefined step debug name f args env
  | kind => liftM (notCallable name kind)

/-! ## Nodes -/

/-- A result and the environment after it: an error drops whatever was bound on the way to it. -/
def settle (v : Value) (before after : Env ι) : Run σ Fault (Value × Env ι) := do
  if ← v.failed then pure (v, before) else pure (v, after)

/-- Evaluates a node, given how the nodes inside it and in the bodies of called functions are
evaluated. -/
def node (invoke : Invoke ι σ) (debug : Bool) (step : Step ι σ) : Step ι σ := fun node env => do
  trace debug (visitText node.kind)
  match node.form with
  | .source body => statements step debug (← body) env
  | .literal v => pure (← v, env)
  | .var name => pure (env.lookupVariable (← name), env)
  | .assignment name expression =>
    let (v, env') ← step (← expression) env
    if ← v.failed then pure (v, env) else pure (.null, env'.bindVariable (← name) v)
  | .add left right =>
    let (l, env₁) ← step (← left) env
    if ← l.failed then pure (l, env)
    else
      let (r, env₂) ← step (← right) env₁
      if ← r.failed then pure (r, env) else settle (← Value.add l r) env env₂
  | .conditional condition body =>
    let (c, env') ← step (← condition) env
    if ← c.failed then pure (c, env)
    else if ← c.isTruthy then
      let (v, last) ← statements step debug (← body) env'
      settle v env last
    else pure (.null, env')
  | .definition parts =>
    let d ← parts
    trace debug (definitionText d.name d.params)
    pure (.null, env.bindFunction (← d.name.name) (.define d.params d.body))
  | .call name args =>
    let name ← name
    match env.lookupFunction name with
    | none => pure (← undefined name, env)
    | some f =>
      match ← arguments step env (← args) with
      | .error v => pure (v, env)
      | .values vs env' => settle (← callFunction invoke step debug name f vs env') env env'
  | .unknown =>
    trace debug (unknownText node.kind)
    pure (← unknownNode node.kind, env)

/-- Evaluates a node. The first argument after `debug` is the depth that is left for it. -/
def eval (invoke : Invoke ι σ) (debug : Bool) : Nat → Step ι σ
  | 0 => fun _ _ => Run.fail .tooDeep
  | depth + 1 => node invoke debug (eval invoke debug depth)

/-! ## Programs -/

/-- The deepest nesting of evaluations. -/
def maxDepth : Nat := 5000

/-- The result of a program that nests too deeply. -/
def depthError (root : Ast) : Value :=
  .evaluatorError "Maximum recursion depth exceeded" root.kind

/-- Evaluates a program. When it nests too deeply it yields an error in the environment that it
was given. -/
def evaluate (host : Host ι σ) (debug : Bool) (root : Ast) (env : Env ι) :
    Run σ Fault (Value × Env ι) := fun s =>
  match eval (Callback.call host) debug maxDepth root env s with
  | (⟨lines, .error .tooDeep⟩, t) => (⟨lines, .ok (depthError root, env)⟩, t)
  | result => result

end Tama.Eval
