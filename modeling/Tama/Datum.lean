import Tama.Text.Decimal
import Tama.Text.Quoted

/-!
# Host data

The native data of the program that embeds scripts. Embedded functions take and return it, and a
host may write parse trees, syntax nodes and values by hand as records of it. Only `null`,
truth values and integers ever cross into a script.
-/

set_option autoImplicit false

namespace Tama

/-- A piece of host data. A record keeps its fields in the order in which they were given. -/
inductive Datum where
  | null
  | bool (b : Bool)
  | int (n : Int)
  /-- A decimal fraction: `digits / 10 ^ places`. -/
  | decimal (digits : Int) (places : Nat)
  | text (s : String)
  | list (items : List Datum)
  | record (fields : List (String × Datum))
  deriving Inhabited

namespace Datum

/-- The name of a datum's type, as messages to the host give it. -/
def typeName : Datum → String
  | null => "NoneType"
  | bool _ => "bool"
  | int _ => "int"
  | decimal _ _ => "float"
  | text _ => "str"
  | list _ => "list"
  | record _ => "dict"

/-- The field of a record; any other datum has none. -/
def field? (key : String) : Datum → Option Datum
  | record fields => fields.lookup key
  | _ => none

/-- The type tag of a hand-written record. -/
def tag? (d : Datum) : Option Datum :=
  d.field? "type"

/-- Whether a datum counts as true: all but null, false, zero and the empty ones. -/
def truthy : Datum → Bool
  | null => false
  | bool b => b
  | int n => n ≠ 0
  | decimal n _ => n ≠ 0
  | text s => s ≠ ""
  | list items => !items.isEmpty
  | record fields => !fields.isEmpty

/-- The integer that a datum stands for in arithmetic; a truth value counts as 0 or 1. -/
def integer? : Datum → Option Int
  | int n => some n
  | bool b => some (if b then 1 else 0)
  | _ => none

/-- The text of a text. -/
def text? : Datum → Option String
  | text s => some s
  | _ => none

/-! ## Written forms -/

/-- Digits after zeros that fill them up to a width. -/
def padded (width : Nat) (digits : List Char) : List Char :=
  List.replicate (width - digits.length) '0' ++ digits

/-- A decimal fraction with its point, as in `-0.25`. One whose first digit comes after four zeros
or more behind the point is written with an exponent of at least two digits, as in `2.5e-05`. -/
def writeDecimal (digits : Int) (places : Nat) : String :=
  let sign := if digits < 0 then "-" else ""
  let all := Nat.toDigits 10 digits.natAbs
  if digits ≠ 0 ∧ all.length + 4 ≤ places then
    let fraction := if all.length = 1 then [] else '.' :: all.drop 1
    let exponent := padded 2 (Nat.toDigits 10 (places + 1 - all.length))
    sign ++ String.ofList (all.take 1 ++ fraction ++ 'e' :: '-' :: exponent)
  else
    let scale := Nat.pow 10 places
    let fraction := padded places (Nat.toDigits 10 (digits.natAbs % scale))
    sign ++ toString (digits.natAbs / scale) ++ "." ++ String.ofList fraction

mutual

/-- A datum written out so that texts stay recognisable: they stand between quotes. -/
def literal : Datum → Except DigitLimit String
  | null => .ok "None"
  | bool b => .ok (if b then "True" else "False")
  | int n => Decimal.write n
  | decimal n places => .ok (writeDecimal n places)
  | text s => .ok (Quoted.quote s)
  | list items => do return "[" ++ ", ".intercalate (← literals items) ++ "]"
  | record fields => do return "\x7b" ++ ", ".intercalate (← fieldLiterals fields) ++ "\x7d"

/-- The written forms of several data. -/
def literals : List Datum → Except DigitLimit (List String)
  | [] => .ok []
  | d :: rest => do
    let first ← literal d
    return first :: (← literals rest)

/-- The fields of a record, each as `'key': datum`. -/
def fieldLiterals : List (String × Datum) → Except DigitLimit (List String)
  | [] => .ok []
  | (key, d) :: rest => do
    let first ← literal d
    return (Quoted.quote key ++ ": " ++ first) :: (← fieldLiterals rest)

end

/-- A datum as running text: a text as it is, all else written out. -/
def display : Datum → Except DigitLimit String
  | text s => .ok s
  | d => literal d

/-! ## Equality -/

mutual

/-- Equality of host data: truth values equal the integers that they stand for, and the order of
a record's fields does not matter. -/
def same : Datum → Datum → Bool
  | null, null => true
  | text s, text t => s == t
  | list xs, list ys => sameList xs ys
  | record xs, record ys => xs.length == ys.length && sameFields xs ys
  | decimal m p, decimal n q => m * 10 ^ q == n * 10 ^ p
  | decimal m p, d => (integer? d).any fun n => m == n * 10 ^ p
  | d, decimal n q => (integer? d).any fun m => m * 10 ^ q == n
  | bool b, d => (integer? d).any (· == if b then 1 else 0)
  | int m, d => (integer? d).any (· == m)
  | _, _ => false

/-- Equality of two lists, item by item. -/
def sameList : List Datum → List Datum → Bool
  | [], [] => true
  | x :: xs, y :: ys => same x y && sameList xs ys
  | _, _ => false

/-- Whether every field of the first record stands in the second. -/
def sameFields : List (String × Datum) → List (String × Datum) → Bool
  | [], _ => true
  | (key, x) :: xs, ys =>
    (match ys.lookup key with
      | some y => same x y
      | none => false) && sameFields xs ys

end

instance : BEq Datum := ⟨same⟩

theorem beq_text {d : Datum} {s : String} : (d == .text s) = true ↔ d = .text s := by
  cases d with
  | text t =>
    have hbeq : (text t == text s) = (t == s) := rfl
    rw [hbeq, beq_iff_eq, text.injEq]
  | _ => exact ⟨nofun, nofun⟩

end Datum
end Tama
