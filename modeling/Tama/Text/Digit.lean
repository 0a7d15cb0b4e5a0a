/-!
# Decimal digits

A literal may be written in the decimal digits of any script. The Unicode class of decimal digits
consists of runs of ten code points in ascending value, so a list of the zeros describes it.
Main statements: a digit's value is below ten (`value?_lt`), and the ten ASCII digits are digits
(`isDigit_ascii`).
-/

set_option autoImplicit false

namespace Tama.Digit

/-- The zero of every run of ten decimal digits, by code point. -/
def zeros : List Nat :=
  [0x30, 0x660, 0x6F0, 0x7C0, 0x966, 0x9E6, 0xA66, 0xAE6, 0xB66, 0xBE6, 0xC66, 0xCE6, 0xD66,
   0xDE6, 0xE50, 0xED0, 0xF20, 0x1040, 0x1090, 0x17E0, 0x1810, 0x1946, 0x19D0, 0x1A80, 0x1A90,
   0x1B50, 0x1BB0, 0x1C40, 0x1C50, 0xA620, 0xA8D0, 0xA900, 0xA9D0, 0xA9F0, 0xAA50, 0xABF0,
   0xFF10, 0x104A0, 0x10D30, 0x11066, 0x110F0, 0x11136, 0x111D0, 0x112F0, 0x11450, 0x114D0,
   0x11650, 0x116C0, 0x11730, 0x118E0, 0x11950, 0x11C50, 0x11D50, 0x11DA0, 0x16A60, 0x16AC0,
   0x16B50, 0x1D7CE, 0x1D7D8, 0x1D7E2, 0x1D7EC, 0x1D7F6, 0x1E140, 0x1E2F0, 0x1E950, 0x1FBF0]

/-- The zero of the run that holds a character, if one does. -/
def zero? (c : Char) : Option Nat :=
  zeros.find? fun z => z ≤ c.toNat && c.toNat < z + 10

/-- The value of a decimal digit of any script. -/
def value? (c : Char) : Option Nat :=
  (zero? c).map (c.toNat - ·)

/-- Whether a character is a decimal digit of some script. -/
def isDigit (c : Char) : Bool :=
  (zero? c).isSome

/-- The number that a run of digits denotes, most significant digit first. -/
def number (digits : List Char) : Nat :=
  digits.foldl (fun n c => 10 * n + (value? c).getD 0) 0

theorem value?_isSome (c : Char) : (value? c).isSome = isDigit c := by
  simp [value?, isDigit]

theorem value?_lt {c : Char} {v : Nat} (h : value? c = some v) : v < 10 := by
  obtain ⟨z, hz, rfl⟩ := Option.map_eq_some_iff.1 h
  have hp := List.find?_some hz
  simp only [Bool.and_eq_true, decide_eq_true_eq] at hp
  omega

/-- The ASCII digits lead the list of runs, so their value is their distance from `0`. -/
theorem value?_ascii {c : Char} (lo : '0'.toNat ≤ c.toNat) (hi : c.toNat ≤ '9'.toNat) :
    value? c = some (c.toNat - '0'.toNat) := by
  have h : (decide (0x30 ≤ c.toNat) && decide (c.toNat < 0x30 + 10)) = true := by
    simp only [Bool.and_eq_true, decide_eq_true_eq]
    exact ⟨lo, Nat.lt_succ_of_le hi⟩
  simp only [value?, zero?, zeros, List.find?_cons, h, Option.map_some]
  rfl

theorem isDigit_ascii {c : Char} (lo : '0'.toNat ≤ c.toNat) (hi : c.toNat ≤ '9'.toNat) :
    isDigit c = true := by
  rw [← value?_isSome, value?_ascii lo hi]
  rfl

end Tama.Digit
