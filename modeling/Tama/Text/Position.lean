/-!
# Positions

A position in a text is an offset: the number of characters before it. Lines end at line feeds
and are counted from one, and so are columns. An offset may lie beyond the end; its column then
goes on counting from the last line.
-/

set_option autoImplicit false

namespace Tama.Position

/-- The part of the offset's line that stands before the offset. -/
def lineBefore (text : List Char) (offset : Nat) : List Char :=
  ((text.take offset).reverse.takeWhile (· ≠ '\n')).reverse

/-- The part of the offset's line that stands at and after the offset. -/
def lineAfter (text : List Char) (offset : Nat) : List Char :=
  (text.drop offset).takeWhile (· ≠ '\n')

/-- The number of the line that holds an offset. -/
def line (text : List Char) (offset : Nat) : Nat :=
  (text.take offset).count '\n' + 1

/-- The column of an offset within its line. -/
def column (text : List Char) (offset : Nat) : Nat :=
  (lineBefore text offset).length + (offset - text.length) + 1

/-- The whole line that holds an offset. -/
def lineText (text : List Char) (offset : Nat) : List Char :=
  lineBefore text offset ++ lineAfter text offset

/-- The lines of a text, without their line feeds; there is always at least one. -/
def lines : List Char → List (List Char)
  | [] => [[]]
  | c :: text =>
    match lines text with
    | [] => [[c]]
    | first :: rest => if c = '\n' then [] :: first :: rest else (c :: first) :: rest

theorem lines_ne_nil (text : List Char) : lines text ≠ [] := by
  cases text with
  | nil => simp [lines]
  | cons c text =>
    simp only [lines]
    split
    · simp
    · split <;> simp

/-- A text has one more line than it has line feeds. -/
theorem length_lines (text : List Char) : (lines text).length = text.count '\n' + 1 := by
  induction text with
  | nil => rfl
  | cons c text ih =>
    simp only [lines]
    split
    · rename_i h
      exact absurd h (lines_ne_nil text)
    · rename_i first rest h
      rw [h] at ih
      by_cases hc : c = '\n' <;> simp_all

end Tama.Position
