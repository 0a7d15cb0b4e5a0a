import Tama.Datum.Arithmetic

/-!
# Script values

What an expression evaluates to. Errors of scripts are values too: they end the evaluation of
whatever holds them. A host may also hand in a record of its own making; such a foreign value
keeps every field it was given, and each operation reads the fields that it needs.

Main statements: a value and its record determine each other (`ofDatum_toDatum`), and the
canonical values are never errors (`Canonical.isError`).
-/

set_option autoImplicit false

namespace Tama

/-- A script value. -/
inductive Value where
  | int (n : Int)
  | bool (b : Bool)
  | null
  /-- An operation rejected operands of these types. -/
  | typeError (operation message : String) (operandTypes : List Datum)
  /-- A node of this type could not be evaluated. -/
  | evaluatorError (message : String) (nodeType : Datum)
  /-- Host data that is none of the above. -/
  | foreign (d : Datum)
  deriving Inhabited

namespace Value

/-! ## Records -/

/-- The record of a value. -/
def toDatum : Value → Datum
  | int n => .record [("type", .text "IntValue"), ("is_error", .bool false), ("value", .int n)]
  | bool b => .record [("type", .text "BoolValue"), ("is_error", .bool false), ("value", .bool b)]
  | null => .record [("type", .text "NullValue"), ("is_error", .bool false)]
  | typeError operation message operandTypes =>
    .record [("type", .text "TypeError"), ("is_error", .bool true), ("message", .text message),
      ("operation", .text operation), ("operand_types", .list operandTypes)]
  | evaluatorError message nodeType =>
    .record [("type", .text "EvaluatorError"), ("is_error", .bool true), ("message", .text message),
      ("node_type", nodeType)]
  | foreign d => d

/-- Recognises the records of values; any other data is foreign. -/
def ofDatum (d : Datum) : Value :=
  match d with
  | .record fields =>
    match fields.length, d.tag?, d.field? "is_error" with
    | 2, some (.text "NullValue"), some (.bool false) => null
    | 3, some (.text "IntValue"), some (.bool false) =>
      match d.field? "value" with
      | some (.int n) => int n
      | _ => foreign d
    | 3, some (.text "BoolValue"), some (.bool false) =>
      match d.field? "value" with
      | some (.bool b) => bool b
      | _ => foreign d
    | 4, some (.text "EvaluatorError"), some (.bool true) =>
      match d.field? "message", d.field? "node_type" with
      | some (.text message), some nodeType => evaluatorError message nodeType
      | _, _ => foreign d
    | 5, some (.text "TypeError"), some (.bool true) =>
      match d.field? "message", d.field? "operation", d.field? "operand_types" with
      | some (.text message), some (.text operation), some (.list types) =>
        typeError operation message types
      | _, _, _ => foreign d
    | _, _, _ => foreign d
  | _ => foreign d

/-- The type error with the given parts, whatever data they are. -/
def typeErrorOf (operation message : Datum) (operandTypes : List Datum) : Value :=
  ofDatum (.record [("type", .text "TypeError"), ("is_error", .bool true), ("message", message),
    ("operation", operation), ("operand_types", .list operandTypes)])

/-- The evaluator error with the given parts, whatever data they are. -/
def evaluatorErrorOf (message nodeType : Datum) : Value :=
  ofDatum (.record [("type", .text "EvaluatorError"), ("is_error", .bool true),
    ("message", message), ("node_type", nodeType)])

/-- A value of a type that holds a payload, whatever data that is. -/
def holding (type : String) (payload : Datum) : Value :=
  ofDatum (.record [("type", .text type), ("is_error", .bool false), ("value", payload)])

/-- A value that scripts compute with: an integer, a truth value or null. -/
inductive Canonical : Value → Prop
  | int (n : Int) : Canonical (int n)
  | bool (b : Bool) : Canonical (bool b)
  | null : Canonical null

/-- The record of a value that is not foreign is recognised as that value. -/
theorem ofDatum_toDatum {v : Value} (h : ∀ d, v ≠ foreign d) : ofDatum v.toDatum = v := by
  cases v with
  | foreign d => exact absurd rfl (h d)
  | _ => rfl

/-! ## Fields -/

/-- The type tag, if the value has one. -/
def tag? : Value → Option Datum
  | int _ => some (.text "IntValue")
  | bool _ => some (.text "BoolValue")
  | null => some (.text "NullValue")
  | typeError _ _ _ => some (.text "TypeError")
  | evaluatorError _ _ => some (.text "EvaluatorError")
  | foreign d => d.tag?

/-- The type tag, null when there is none. -/
def kind (v : Value) : Datum :=
  v.tag?.getD .null

/-- The type tag where the value has to have one. -/
def tag (v : Value) : Except Fault Datum :=
  v.toDatum.get "type"

/-- The native datum that an integer or truth value holds. -/
def payload (v : Value) : Except Fault Datum :=
  v.toDatum.get "value"

/-- The error message that a value carries, empty when there is none. -/
def message (v : Value) : Except Fault Datum := do
  return (← v.toDatum.getOptional "message").getD (.text "")

/-- Whether a type tag is that of an error. -/
def isErrorTag : Datum → Bool
  | .text "TypeError" | .text "EvaluatorError" => true
  | _ => false

/-- The error mark: the stored one, or else whether the tag is that of an error. -/
def errorMark : Value → Except Fault Datum
  | typeError _ _ _ | evaluatorError _ _ => .ok (.bool true)
  | foreign d => do
    match ← d.getOptional "is_error" with
    | some mark => return mark
    | none => return .bool (isErrorTag d.kind)
  | _ => .ok (.bool false)

/-- Whether a value is an error, where it is a record that can say so. -/
def failed (v : Value) : Except Fault Bool :=
  v.errorMark.map Datum.truthy

/-- Whether a value is an error. -/
def isError (v : Value) : Bool :=
  v.failed.toOption.getD false

theorem isError_of_failed {v : Value} {b : Bool} (h : v.failed = .ok b) : v.isError = b := by
  simp only [isError, h]
  rfl

theorem failed_of_isError {v : Value} (h : v.isError = true) : v.failed = .ok true := by
  unfold isError at h
  cases hf : v.failed with
  | error f => rw [hf] at h; cases h
  | ok b =>
    rw [hf] at h
    cases b with
    | false => cases h
    | true => rfl

theorem Canonical.failed {v : Value} (h : Canonical v) : v.failed = .ok false := by
  cases h <;> rfl

theorem Canonical.isError {v : Value} (h : Canonical v) : v.isError = false :=
  isError_of_failed h.failed

/-- Script truthiness: only null and false are falsy. -/
def isTruthy : Value → Except Fault Bool
  | int _ => .ok true
  | bool b => .ok b
  | null => .ok false
  | v => do
    match ← v.tag with
    | .text "NullValue" => return false
    | .text "BoolValue" => return (← v.payload).truthy
    | _ => return true

/-! ## Host data -/

/-- The native form of a value, as embedded functions receive it. -/
def toHost : Value → Except Fault Datum
  | int n => .ok (.int n)
  | bool b => .ok (.bool b)
  | null => .ok .null
  | v => do
    match ← v.tag with
    | .text "IntValue" | .text "BoolValue" => v.payload
    | .text "NullValue" => return .null
    | tag => throw (.host (.notPassable (← tag.display)))

/-- The value of what an embedded function returned. -/
def ofHost : Datum → Except Fault Value
  | .bool b => .ok (bool b)
  | .int n => .ok (int n)
  | .null => .ok null
  | d => do throw (.host (.notReturnable d.typeName (← d.literal)))

theorem ofHost_toHost {v : Value} (h : Canonical v) :
    (toHost v).bind ofHost = .ok v := by
  cases h <;> rfl

/-! ## Text -/

/-- A value as script text. -/
def format : Value → Except Fault String
  | int n => Decimal.write n
  | bool b => .ok (if b then "true" else "false")
  | null => .ok "null"
  | v => do
    match v.kind with
    | .text "IntValue" => (← v.payload).display
    | .text "BoolValue" => return if (← v.payload).truthy then "true" else "false"
    | .text "NullValue" => return "null"
    | kind => return "<" ++ (← kind.display) ++ ">"

/-- An error as it is reported to the user. An error without a message is reported by its tag,
whatever data that is. -/
def formatError (v : Value) : Except Fault Datum := do
  let message ← v.message
  let tag ← v.tag
  match tag, v.toDatum.field? "operation" with
  | .text "TypeError", some operation =>
    if operation.truthy then
      return .text ("TypeError in " ++ (← operation.display) ++ ": " ++ (← message.display))
  | _, _ => pure ()
  if message.truthy then return .text ((← tag.display) ++ ": " ++ (← message.display))
  else return tag

/-! ## Operations -/

/-- The type of an operand as a type error lists it. -/
def operandType (v : Value) : Except Fault Datum := do
  return (← v.toDatum.getOptional "type").getD (.text "Unknown")

/-- The type error of an operation that rejects its operands, with a message or with the standard
one. -/
def rejected (operation : Datum) (operands : List Value) (message : Option Datum) :
    Except Fault Value := do
  let types ← operands.mapM operandType
  match message with
  | some words => return typeErrorOf operation words types
  | none =>
    let words := "Cannot apply " ++ (← operation.display) ++ " to " ++
      (← Datum.joinItems ", " types)
    return typeErrorOf operation (.text words) types

/-- Whether every value carries a type tag. -/
def allOfType (values : List Value) (type : Datum) : Bool :=
  values.all fun v => v.kind == type

/-- A binary operation that is defined on integer values only. -/
def integerOperation (o : Operator) (name : Datum) (x y : Value) : Except Fault Value :=
  match x, y with
  | int m, int n => .ok (int (o.onIntegers m n))
  | _, _ => do
    if allOfType [x, y] (.text "IntValue") then
      return holding "IntValue" (← o.apply (← x.payload) (← y.payload))
    else
      let words := (← name.display) ++ " requires IntValue operands, got " ++
        (← x.kind.display) ++ " and " ++ (← y.kind.display)
      rejected name [x, y] (some (.text words))

/-- Addition, the one operator of the language. -/
def add (x y : Value) : Except Fault Value :=
  integerOperation .add (.text "Add") x y

@[simp] theorem add_int (m n : Int) : add (int m) (int n) = .ok (int (m + n)) := rfl

end Value
end Tama
