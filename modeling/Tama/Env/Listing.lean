import Tama.Env

/-!
# Listing an environment

The variables and the script-defined functions of an environment, as the interactive mode and the
debug output show them; and the equality of two environments.
-/

set_option autoImplicit false

namespace Tama

namespace Env

variable {ι : Type}

/-- Prints one line for each of several items. -/
def printEach {α : Type} (render : α → Except Fault String) : List α → Traced Fault Unit
  | [] => return ()
  | a :: rest => do
    Traced.line (← render a)
    printEach render rest

/-- The line of a variable. -/
def variableLine (name : Name) (v : Value) : Except Fault String := do
  return "  " ++ (← name.display) ++ " = " ++ (← v.format)

/-- The line of a script-defined function. -/
def functionLine (name : Name) (f : Function ι) : Except Fault String := do
  return "  " ++ (← name.display) ++ "(" ++ (← (← f.arguments).join ", ") ++ ")"

/-- Prints the variables and the script-defined functions. -/
def print (env : Env ι) : Traced Fault Unit := do
  Traced.line "Variables:"
  if env.vars.isEmpty then Traced.line "  (none)"
  else printEach (fun e => variableLine e.1 e.2) env.vars.entries
  let functions ← env.definedFunctions
  if functions.isEmpty then return ()
  else do
    Traced.line "Functions:"
    printEach (fun e => functionLine e.1 e.2) functions

end Env

/-! ## Equality -/

section Equality

variable {ι : Type} [BEq ι]

/-- Callbacks are equal when they are the same callback. -/
def Callback.same : Callback ι → Callback ι → Bool
  | builtin b, builtin c => b == c
  | custom i, custom j => i == j
  | _, _ => false

/-- Functions are equal when their records and their callbacks are. -/
def Function.same (f g : Function ι) : Bool :=
  f.record == g.record &&
    match f.hook, g.hook with
    | none, none => true
    | some a, some b => a.same b
    | _, _ => false

/-- Tables are equal when they bind the same names to equal entries, in whatever order. -/
def Table.sameBy {α : Type} (same : α → α → Bool) (t u : Table α) : Bool :=
  t.entries.length == u.entries.length &&
    t.entries.all fun e => (u.get? e.1).any (same e.2)

/-- Environments are equal when their tables are, whatever their histories. -/
def Env.same (env other : Env ι) : Bool :=
  Table.sameBy (fun v w => v.toDatum == w.toDatum) env.vars other.vars &&
    Table.sameBy Function.same env.functions other.functions

end Equality
end Tama
