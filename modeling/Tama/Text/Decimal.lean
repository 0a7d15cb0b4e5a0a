import Tama.Text.Digit

/-!
# Integers as text

Integers are unbounded, their decimal text is not: neither direction of the conversion accepts
more than 4300 digits. Reading counts leading zeros.
-/

set_option autoImplicit false

namespace Tama

/-- Why an integer and its text cannot be converted. -/
inductive DigitLimit where
  /-- A literal has this many digits. -/
  | reading (digits : Nat)
  /-- The number would be written with too many. -/
  | writing
  deriving DecidableEq, Repr

namespace Decimal

/-- The most digits that a conversion accepts. -/
def maxDigits : Nat := 4300

/-- Reads a run of digits. -/
def read (digits : List Char) : Except DigitLimit Nat :=
  if digits.length ≤ maxDigits then .ok (Digit.number digits) else .error (.reading digits.length)

/-- Writes an integer in decimal digits, with a minus sign when it is negative. -/
def write (n : Int) : Except DigitLimit String :=
  if n.natAbs < Nat.pow 10 maxDigits then .ok (toString n) else .error .writing

theorem read_eq_ok {digits : List Char} (h : digits.length ≤ maxDigits) :
    read digits = .ok (Digit.number digits) := by
  simp [read, h]

theorem write_eq_ok {n : Int} (h : n.natAbs < Nat.pow 10 maxDigits) :
    write n = .ok (toString n) := by
  simp only [write, h, if_true]

end Decimal

/-- The wording of a refused conversion. -/
def DigitLimit.message : DigitLimit → String
  | .reading digits =>
    "Exceeds the limit (4300 digits) for integer string conversion: value has " ++
      toString digits ++ " digits; use sys.set_int_max_str_digits() to increase the limit"
  | .writing =>
    "Exceeds the limit (4300 digits) for integer string conversion; " ++
      "use sys.set_int_max_str_digits() to increase the limit"

end Tama
