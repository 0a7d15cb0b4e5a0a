import Tama.Function
import Tama.Table
import Tama.Value

/-!
# Environments

An environment is a snapshot of the variables and functions of a script. Binding makes a new one
and leaves the old one as it was. Variables and functions are two namespaces.

An environment also knows its history: what has been bound since it was made. Two snapshots of one
run are the same exactly when their histories have the same length.
-/

set_option autoImplicit false

namespace Tama

/-- One step in the history of an environment: the name that was bound, in the spelling that stands
for all of them, and in which table. -/
inductive Binding where
  | variable (name : Name)
  | function (name : Name)
  deriving DecidableEq, Repr

/-- The variables and functions of a script. -/
structure Env (ι : Type) where
  vars : Table Value
  functions : Table (Function ι)
  /-- What has been bound since the environment was made, the latest first. -/
  history : List Binding

namespace Env

variable {ι : Type}

/-- A new environment with the given tables. -/
def make (vars : Table Value) (functions : Table (Function ι)) : Env ι :=
  ⟨vars, functions, []⟩

/-- The environment without variables and functions. -/
def empty : Env ι :=
  make .empty .empty

instance : Inhabited (Env ι) := ⟨empty⟩

/-- The functions table that holds the standard functions. -/
def builtins : Table (Function ι) :=
  .ofList (Builtin.all.map fun b => (.text b.name, .standard b))

/-- An environment with the standard functions and the given variables. -/
def standard (vars : Table Value) : Env ι :=
  make vars builtins

/-! ## Binding and look-up -/

/-- Binds a variable. -/
def bindVariable (env : Env ι) (name : Name) (v : Value) : Env ι :=
  { env with
    vars := env.vars.insert name v
    history := .variable name.canon :: env.history }

/-- Binds a function, in place of whatever the name held before. -/
def bindFunction (env : Env ι) (name : Name) (f : Function ι) : Env ι :=
  { env with
    functions := env.functions.insert name f
    history := .function name.canon :: env.history }

/-- The value of a variable. A name that is not bound reads as null, and so does one that a host
has bound to nothing. -/
def lookupVariable (env : Env ι) (name : Name) : Value :=
  match env.vars.get? name with
  | none | some (.foreign .null) => .null
  | some v => v

/-- The function of a name. -/
def lookupFunction (env : Env ι) (name : Name) : Option (Function ι) :=
  (env.functions.get? name).filter fun f => !f.isNull

/-- The environment in which the body of a defined function runs: only the parameters are visible
as variables, and the functions are those of the caller. Of two parameters with one name the later
counts; surplus arguments are dropped, and missing ones leave their parameters unbound. -/
def callScope (env : Env ι) (params : List Name) (args : List Value) : Env ι :=
  make (.ofList (params.zip args)) env.functions

/-- The functions that scripts have defined. -/
def definedFunctions (env : Env ι) : Except Fault (List (Name × Function ι)) :=
  env.functions.entries.filterM fun e => e.2.isDefined

/-! ## History -/

/-- Whether one environment is the very snapshot that another was made from. -/
def isSnapshotOf (later earlier : Env ι) : Bool :=
  later.history.length == earlier.history.length

/-- Whether a function's entry is still the one that it was in an earlier snapshot. -/
def keepsFunction (later earlier : Env ι) (name : Name) : Bool :=
  !(later.history.take (later.history.length - earlier.history.length)).contains
    (.function name.canon)

/-! ## Laws -/

@[simp] theorem lookupFunction_bindVariable (env : Env ι) (x name : Name) (v : Value) :
    (env.bindVariable x v).lookupFunction name = env.lookupFunction name := rfl

@[simp] theorem lookupVariable_bindFunction (env : Env ι) (x name : Name) (f : Function ι) :
    (env.bindFunction x f).lookupVariable name = env.lookupVariable name := rfl

theorem lookupVariable_bindVariable_of_ne (env : Env ι) {x name : Name} (h : name.canon ≠ x.canon)
    (v : Value) : (env.bindVariable x v).lookupVariable name = env.lookupVariable name := by
  simp only [lookupVariable, bindVariable, Table.get?_insert_of_ne _ h]

theorem lookupFunction_bindFunction_of_ne (env : Env ι) {x name : Name} (h : name.canon ≠ x.canon)
    (f : Function ι) : (env.bindFunction x f).lookupFunction name = env.lookupFunction name := by
  simp only [lookupFunction, bindFunction, Table.get?_insert_of_ne _ h]

end Env
end Tama
