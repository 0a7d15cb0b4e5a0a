import Tama.Function

/-!
# Canned callbacks

Callbacks with a fixed behaviour, for trying out scripts without a real host. Each logs that it was
called, under the name it was given, and with what.
-/

set_option autoImplicit false

namespace Tama

/-- What a canned callback does. -/
inductive Stub.Behaviour where
  /-- Returns this datum. -/
  | const (d : Datum)
  /-- Returns the argument of this position, or null when there are fewer. -/
  | argument (index : Nat)
  /-- Returns the number of its arguments. -/
  | count
  /-- Returns the number of logged calls, this one included. -/
  | calls
  /-- Breaks the contract with these words. -/
  | refuse (message : String)

/-- A canned callback. -/
structure Stub where
  /-- Tells apart the callbacks of one host. -/
  id : Nat
  name : Datum
  behaviour : Stub.Behaviour

namespace Stub

instance : BEq Stub := ⟨fun a b => a.id == b.id⟩

/-- The calls that were made, in order: the name of the callback and its arguments. -/
abbrev Log : Type :=
  List (Datum × List Datum)

/-- The outcome of a call, given the log with this call in it. -/
def reply (log : Log) (args : List Datum) : Behaviour → Except Fault Datum
  | .const d => .ok d
  | .argument index => .ok (args[index]?.getD .null)
  | .count => .ok (.int args.length)
  | .calls => .ok (.int log.length)
  | .refuse message => .error (.host (.refused message))

/-- The host of canned callbacks. -/
def host : Host Stub Log := fun stub args log =>
  let log := log ++ [(stub.name, args)]
  (⟨[], reply log args stub.behaviour⟩, log)

end Stub
end Tama
