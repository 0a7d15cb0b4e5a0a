import Tama.Datum

/-!
# Faults

What stops an evaluation from outside the flow of script values: a broken contract between host
and script, host data that lacks a field or is of the wrong type for what is done with it, a limit.
The errors of scripts themselves are values and stand in `Tama.Value`.
-/

set_option autoImplicit false

namespace Tama

/-- How the contract between scripts and embedded functions was broken. -/
inductive HostFault where
  /-- A script value of this type has no native form. -/
  | notPassable (type : String)
  /-- An embedded function returned data of this type, which has no script form. -/
  | notReturnable (type written : String)
  /-- A function wanted an integer as its argument of this number. -/
  | wantsInteger (function : String) (position : Nat) (got : String)
  /-- No standard function has this name. -/
  | unknownBuiltin (name : String)
  /-- An embedded function refused its arguments in its own words. -/
  | refused (message : String)
  deriving DecidableEq, Repr

/-- The wording of a broken contract. -/
def HostFault.message : HostFault → String
  | notPassable type => "Cannot pass " ++ type ++ " to an embedded function"
  | notReturnable type written =>
    "Embedded function returned unsupported " ++ type ++ ": " ++ written
  | wantsInteger function position got =>
    function ++ " requires integers for argument " ++ toString position ++ ", got " ++ got
  | unknownBuiltin name => "Unknown built-in function: " ++ name
  | refused message => message

/-- A call with the wrong number of arguments. -/
structure ArityFault where
  function : String
  parameters : List String
  given : Nat
  deriving DecidableEq, Repr

namespace ArityFault

/-- Names in quotes, joined as in running English. -/
def enumerate (names : List String) : String :=
  match names.map (fun name => "'" ++ name ++ "'") with
  | [] => ""
  | [name] => name
  | [first, second] => first ++ " and " ++ second
  | names => ", ".intercalate names.dropLast ++ ", and " ++ names.getLastD ""

/-- A count with its noun, in the singular for one. -/
def plural (n : Nat) (noun : String) : String :=
  noun ++ if n = 1 then "" else "s"

/-- The wording of a call with the wrong number of arguments. -/
def message (f : ArityFault) : String :=
  let wanted := f.parameters.length
  if f.given < wanted then
    let missing := f.parameters.drop f.given
    f.function ++ "() missing " ++ toString missing.length ++ " required positional " ++
      plural missing.length "argument" ++ ": " ++ enumerate missing
  else
    f.function ++ "() takes " ++ toString wanted ++ " positional " ++ plural wanted "argument" ++
      " but " ++ toString f.given ++ (if f.given = 1 then " was" else " were") ++ " given"

end ArityFault

/-- How host data is of the wrong type for what is done with it. -/
inductive Misuse where
  /-- Data of this type was asked for a field that may be absent. -/
  | notRecord (type : String)
  /-- Data of this type was asked for a field that has to be there. -/
  | noField (type : String)
  | notIterable (type : String)
  | noLength (type : String)
  /-- Data of this type cannot be a name. -/
  | notName (type : String)
  /-- An item of a list of texts is of this type. -/
  | notText (position : Nat) (type : String)
  /-- Data without items was to be joined. -/
  | notJoinable
  /-- A pair was wanted, and there are so many items. -/
  | notPair (items : Nat)
  /-- A pair was wanted, and data of this type has no items. -/
  | notUnpackable (type : String)
  | notCallable (type : String)
  /-- No operation with this symbol takes operands of these types. -/
  | noOperation (symbol left right : String)
  | notConcatenable (left right : String)
  /-- A sequence was to be repeated, and data of this type is no number of times. -/
  | notRepeatable (type : String)
  /-- Data of this type was asked whether something occurs in it. -/
  | noMembers (type : String)
  /-- Data of this type was searched for a pattern. -/
  | notSearchable (type : String)
  /-- Data of this type was searched for a text. -/
  | notLine (type : String)
  /-- The first item was wanted of data of this type, and it has none. -/
  | noItem (type : String)
  deriving DecidableEq, Repr

/-- The wording of a misuse. -/
def Misuse.message : Misuse → String
  | notRecord type => "'" ++ type ++ "' object has no attribute 'get'"
  | noField "str" => "string indices must be integers, not 'str'"
  | noField "list" => "list indices must be integers or slices, not str"
  | noField type => "'" ++ type ++ "' object is not subscriptable"
  | notIterable type => "'" ++ type ++ "' object is not iterable"
  | noLength type => "object of type '" ++ type ++ "' has no len()"
  | notName type => "unhashable type: '" ++ type ++ "'"
  | notText position type =>
    "sequence item " ++ toString position ++ ": expected str instance, " ++ type ++ " found"
  | notJoinable => "can only join an iterable"
  | notPair items =>
    if items < 2 then
      "not enough values to unpack (expected 2, got " ++ toString items ++ ")"
    else "too many values to unpack (expected 2)"
  | notUnpackable type => "cannot unpack non-iterable " ++ type ++ " object"
  | notCallable type => "'" ++ type ++ "' object is not callable"
  | noOperation symbol left right =>
    "unsupported operand type(s) for " ++ symbol ++ ": '" ++ left ++ "' and '" ++ right ++ "'"
  | notConcatenable left right =>
    "can only concatenate " ++ left ++ " (not \"" ++ right ++ "\") to " ++ left
  | notRepeatable type => "can't multiply sequence by non-int of type '" ++ type ++ "'"
  | noMembers type => "argument of type '" ++ type ++ "' is not iterable"
  | notSearchable type => "expected string or bytes-like object, got '" ++ type ++ "'"
  | notLine type => "'" ++ type ++ "' object has no attribute 'find'"
  | noItem "str" => "string index out of range"
  | noItem type => type ++ " index out of range"

/-- What stops an evaluation. -/
inductive Fault where
  /-- A hand-written record lacks a field that is needed. -/
  | missingField (name : String)
  /-- Host data is of the wrong type for what is done with it. -/
  | misuse (cause : Misuse)
  /-- An integer is too long for the conversion from or to text. -/
  | digits (limit : DigitLimit)
  /-- The contract with the host was broken. -/
  | host (cause : HostFault)
  /-- An embedded function was called with the wrong number of arguments. -/
  | arity (cause : ArityFault)
  /-- The nesting is deeper than the limit. -/
  | tooDeep
  deriving DecidableEq, Repr

/-- The wording of a fault; a fault of depth has none. -/
def Fault.message : Fault → String
  | missingField name => Quoted.quote name
  | misuse cause => cause.message
  | digits limit => limit.message
  | host cause => cause.message
  | arity cause => cause.message
  | tooDeep => ""

/-- Turns a refused conversion into a fault. -/
def DigitLimit.lift {α : Type} : Except DigitLimit α → Except Fault α
  | .ok a => .ok a
  | .error limit => .error (.digits limit)

instance : MonadLift (Except DigitLimit) (Except Fault) := ⟨DigitLimit.lift⟩

end Tama
