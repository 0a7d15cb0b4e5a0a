import Tama.Ast
import Tama.Builtin

/-!
# Functions

A function is provided by the host or defined by a script. What the host provides beside the
standard functions is a parameter `ι` of the whole library: an index of its callbacks. A host
describes a function by a record, which it may write by hand; a callback stands beside the record.
-/

set_option autoImplicit false

namespace Tama

/-- What an embedded function calls. -/
inductive Callback (ι : Type) where
  | builtin (b : Builtin)
  | custom (i : ι)

/-- The behaviour of the host's own callbacks, with a state of the host's. -/
abbrev Host (ι σ : Type) : Type :=
  ι → List Datum → Run σ Fault Datum

/-- How callbacks are called on native data. -/
abbrev Invoke (ι σ : Type) : Type :=
  Callback ι → List Datum → Run σ Fault Datum

/-- Calls a callback on native data, the host's own as the host does. -/
def Callback.call {ι σ : Type} (host : Host ι σ) : Invoke ι σ
  | builtin b, args => liftM (b.call args)
  | custom i, args => host i args

/-- An entry of a functions table. -/
inductive Function (ι : Type) where
  /-- A standard function. -/
  | standard (b : Builtin)
  /-- Defined by a script. -/
  | defined (params : List String) (body : List Ast)
  /-- Described by the host, with or without a callback. -/
  | written (record : Datum) (callback : Option (Callback ι))

namespace Function

variable {ι : Type}

/-! ## Making functions -/

/-- The record of an embedded function, with the number of arguments that it declares. -/
def embeddedRecord (count : Datum) : Datum :=
  .record [("type", .text "EmbeddedFunction"), ("arguments_count", count)]

/-- A function that the host provides. -/
def embedded (count : Datum) (callback : Callback ι) : Function ι :=
  written (embeddedRecord count) (some callback)

/-- The record of a defined function. -/
def definedRecord (params : List Datum) (body : List Ast) : Datum :=
  .record [("type", .text "DefinedFunction"), ("arguments_count", .int params.length),
    ("arguments", .list params), ("statements", .list (Ast.toData body))]

/-- A function that a definition makes. Hand-written parameters need not be texts. -/
def define (params : List Datum) (body : List Ast) : Function ι :=
  match params.mapM Datum.text? with
  | some names => defined names body
  | none => written (definedRecord params body) none

/-! ## Records -/

/-- The record of an entry, but for its callback. -/
def record : Function ι → Datum
  | standard b => embeddedRecord (.int b.parameters.length)
  | defined params body => definedRecord (params.map .text) body
  | written d _ => d

/-- The callback that stands beside the record of an entry. -/
def hook : Function ι → Option (Callback ι)
  | standard b => some (.builtin b)
  | defined _ _ => none
  | written _ callback => callback

/-- The type tag of an entry, null when it has none. -/
def kind (f : Function ι) : Datum :=
  f.record.kind

/-- Whether an entry counts as no function at all. -/
def isNull : Function ι → Bool
  | written .null _ => true
  | _ => false

/-- Whether an entry was defined by a script, where it is a record that can say so. -/
def isDefined (f : Function ι) : Except Fault Bool := do
  match ← f.record.getOptional "type" with
  | some (.text "DefinedFunction") => return true
  | _ => return false

/-- The declared number of arguments. -/
def count (f : Function ι) : Except Fault Datum :=
  f.record.get "arguments_count"

/-- The parameters of a defined function. -/
def arguments (f : Function ι) : Except Fault Datum :=
  f.record.get "arguments"

/-- The body of a defined function. -/
def body : Function ι → Except Fault (List Ast)
  | defined _ body => .ok body
  | f => do return (← (← f.record.get "statements").items).map .written

/-- What a call of an embedded function calls: nothing, a callback, or data in the record that
cannot be called. -/
def target (f : Function ι) : Option (Except Fault (Callback ι)) :=
  match f.hook, f.record.field? "function" with
  | some callback, _ => some (.ok callback)
  | none, none | none, some .null => none
  | none, some d => some (Misuse.notCallable d.typeName).raise

/-! ## Laws -/

theorem mapM_text?_map_text (names : List String) :
    (names.map Datum.text).mapM Datum.text? = some names := by
  induction names with
  | nil => rfl
  | cons s rest ih => simp only [List.map_cons, List.mapM_cons, ih, Datum.text?]; rfl

/-- A definition with proper parameters makes a defined function. -/
@[simp] theorem define_map_text (params : List String) (body : List Ast) :
    (define (params.map .text) body : Function ι) = defined params body := by
  simp only [define, mapM_text?_map_text]

@[simp] theorem arguments_defined (params : List String) (body : List Ast) :
    (defined params body : Function ι).arguments = .ok (.list (params.map .text)) := rfl

@[simp] theorem body_defined (params : List String) (body : List Ast) :
    (defined params body : Function ι).body = .ok body := rfl

end Function
end Tama
