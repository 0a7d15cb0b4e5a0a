import Tama.Datum.Access

/-!
# Arithmetic on host data

Operators are made for integers, and a truth value counts as one. Texts and lists can also be added
to their own kind and repeated; any other operands are a misuse. Decimal fractions are left out: a
host could compute with them, but no value of a script holds one, and here they are refused too.
-/

set_option autoImplicit false

namespace Tama

/-- An arithmetic operator. -/
inductive Operator where
  | add
  | subtract
  | multiply
  deriving DecidableEq, Repr

namespace Operator

/-- How an operator is written. -/
def symbol : Operator → String
  | add => "+"
  | subtract => "-"
  | multiply => "*"

/-- What an operator does to integers. -/
def onIntegers : Operator → Int → Int → Int
  | add => (· + ·)
  | subtract => (· - ·)
  | multiply => (· * ·)

/-- Reports operands that no rule covers. -/
def refuse (o : Operator) (x y : Datum) : Except Fault Datum :=
  (Misuse.noOperation o.symbol x.typeName y.typeName).raise

/-- Puts a text or a list behind another. -/
def concatenate (x y : Datum) : Except Fault Datum :=
  match x, y with
  | .text s, .text t => .ok (.text (s ++ t))
  | .list xs, .list ys => .ok (.list (xs ++ ys))
  | .text _, _ | .list _, _ => (Misuse.notConcatenable x.typeName y.typeName).raise
  | _, _ => add.refuse x y

/-- Repeats a text or a list, if the datum is one; a negative number of times counts as none. -/
def repeated? (d : Datum) (times : Nat) : Option Datum :=
  match d with
  | .text s => some (.text (String.join (List.replicate times s)))
  | .list items => some (.list (List.replicate times items).flatten)
  | _ => none

/-- Repeats a sequence as often as the other operand says. -/
def repeatBy (x y : Datum) : Except Fault Datum :=
  let times (d : Datum) : Nat := (d.integer?.getD 0).toNat
  match repeated? x (times y), repeated? y (times x) with
  | some d, _ => if y.integer?.isSome then .ok d else (Misuse.notRepeatable y.typeName).raise
  | none, some d => if x.integer?.isSome then .ok d else (Misuse.notRepeatable x.typeName).raise
  | none, none => multiply.refuse x y

/-- Applies an operator to host data. -/
def apply (o : Operator) (x y : Datum) : Except Fault Datum :=
  match x.integer?, y.integer? with
  | some m, some n => .ok (.int (o.onIntegers m n))
  | _, _ =>
    match o with
    | add => concatenate x y
    | subtract => subtract.refuse x y
    | multiply => repeatBy x y

end Operator
end Tama
