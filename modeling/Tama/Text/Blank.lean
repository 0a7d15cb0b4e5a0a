/-!
# Blank characters

Two classes of blank characters: the four that may stand between the words of a program, and the
wider Unicode class that the token stream skips and that a quotation is trimmed of. Main
statement: the first lies within the second (`isBlank_of_isGap`).
-/

set_option autoImplicit false

namespace Tama.Blank

/-- The blanks that may stand between the words of a program: space, tab, line feed and carriage
return. -/
def isGap (c : Char) : Bool :=
  c = ' ' || c = '\t' || c = '\n' || c = '\r'

/-- The Unicode blanks: the control blanks, the four information separators, and every space or
line separator. -/
def isBlank (c : Char) : Bool :=
  let n := c.toNat
  (0x09 ≤ n && n ≤ 0x0D) || (0x1C ≤ n && n ≤ 0x20) || n = 0x85 || n = 0xA0 || n = 0x1680 ||
    (0x2000 ≤ n && n ≤ 0x200A) || n = 0x2028 || n = 0x2029 || n = 0x202F || n = 0x205F || n = 0x3000

/-- Removes the blanks at both ends. -/
def trim (text : List Char) : List Char :=
  ((text.dropWhile isBlank).reverse.dropWhile isBlank).reverse

theorem isBlank_of_isGap {c : Char} (h : isGap c = true) : isBlank c = true := by
  simp only [isGap, Bool.or_eq_true, decide_eq_true_eq] at h
  obtain ((rfl | rfl) | rfl) | rfl := h <;> rfl

@[simp] theorem trim_nil : trim [] = [] := rfl

end Tama.Blank
