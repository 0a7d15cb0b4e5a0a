import Tama.Fault
import Tama.Name
import Tama.Run

/-!
# Standard functions

The embedded functions that every script run from the command line can call. They take and return
native data: integers, truth values and null.
-/

set_option autoImplicit false

namespace Tama

/-- A standard function. -/
inductive Builtin where
  | print
  | subtract
  | less
  | greater
  | equal
  | notEqual
  | both
  | either
  | negation
  deriving DecidableEq, Repr

namespace Builtin

/-- The name that scripts call a standard function by. -/
def name : Builtin → String
  | print => "print"
  | subtract => "sub"
  | less => "lt"
  | greater => "gt"
  | equal => "eq"
  | notEqual => "notequal"
  | both => "and"
  | either => "or"
  | negation => "not"

/-- All standard functions, in the order in which they are listed. -/
def all : List Builtin :=
  [print, subtract, less, greater, equal, notEqual, both, either, negation]

/-- The standard function of a name. -/
def named? (name : String) : Option Builtin :=
  all.find? (·.name = name)

/-- The standard function of a name that has to be one. -/
def get (name : Name) : Except Fault Builtin := do
  match name with
  | .text s =>
    match named? s with
    | some b => return b
    | none => throw (.host (.unknownBuiltin s))
  | name => throw (.host (.unknownBuiltin (← name.display)))

theorem named?_name (b : Builtin) : named? b.name = some b := by
  cases b <;> decide

/-- The names of the parameters. -/
def parameters : Builtin → List String
  | print => ["value"]
  | negation => ["a"]
  | _ => ["a", "b"]

/-! ## Native data -/

/-- Native data as a script would write it. -/
def format : Datum → Except Fault String
  | .null => .ok "null"
  | .bool b => .ok (if b then "true" else "false")
  | d => d.display

/-- Script truthiness of native data: only null and false are falsy. -/
def truthy : Datum → Bool
  | .null | .bool false => false
  | _ => true

/-- Equality without coercion: data of different types are never equal. -/
def equals (x y : Datum) : Bool :=
  x.typeName == y.typeName && x == y

/-- Refuses the first argument that is not an integer; arguments are counted from a position. -/
def requireIntegersFrom (position : Nat) (function : String) : List Datum → Except Fault Unit
  | [] => .ok ()
  | .int _ :: rest => requireIntegersFrom (position + 1) function rest
  | d :: _ => do throw (.host (.wantsInteger function position (← format d)))

/-- Refuses the first argument that is not an integer. -/
def requireIntegers (function : String) (args : List Datum) : Except Fault Unit :=
  requireIntegersFrom 1 function args

/-- Two arguments that have to be integers. -/
def integers (b : Builtin) (x y : Datum) : Except Fault (Int × Int) :=
  match x, y with
  | .int m, .int n => .ok (m, n)
  | _, _ => do
    requireIntegers b.name [x, y]
    return (0, 0)

/-! ## Calls -/

/-- Calls a standard function. -/
def call (b : Builtin) (args : List Datum) : Traced Fault Datum :=
  match b, args with
  | print, [x] => do
    Traced.line (← format x)
    return .null
  | subtract, [x, y] => do
    let (m, n) ← b.integers x y
    return .int (m - n)
  | less, [x, y] => do
    let (m, n) ← b.integers x y
    return .bool (m < n)
  | greater, [x, y] => do
    let (m, n) ← b.integers x y
    return .bool (n < m)
  | equal, [x, y] => return .bool (equals x y)
  | notEqual, [x, y] => return .bool (!equals x y)
  | both, [x, y] => return if truthy x then y else x
  | either, [x, y] => return if truthy x then x else y
  | negation, [x] => return .bool (!truthy x)
  | _, _ => Traced.fail (.arity ⟨"tama_" ++ b.name, b.parameters, args.length⟩)

end Builtin
end Tama
