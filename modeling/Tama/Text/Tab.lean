/-!
# Tab expansion

A program is read with its tabs replaced by spaces up to the next multiple of eight columns. The
column starts again after a line feed and after a carriage return. Main statements: the expanded
text holds no tab (`not_mem_expand`), and a text without tabs is its own expansion
(`expand_eq_self`).
-/

set_option autoImplicit false

namespace Tama.Tab

/-- Columns from one tab stop to the next. -/
def stop : Nat := 8

/-- Expands the tabs of the text that starts at a given column. -/
def expandFrom (column : Nat) : List Char → List Char
  | [] => []
  | c :: text =>
    if c = '\t' then
      let width := stop - column % stop
      List.replicate width ' ' ++ expandFrom (column + width) text
    else if c = '\n' ∨ c = '\r' then c :: expandFrom 0 text
    else c :: expandFrom (column + 1) text

/-- Expands the tabs of a whole text. -/
def expand (text : List Char) : List Char :=
  expandFrom 0 text

theorem not_mem_expandFrom (column : Nat) (text : List Char) :
    '\t' ∉ expandFrom column text := by
  induction text generalizing column with
  | nil => simp [expandFrom]
  | cons c text ih =>
    simp only [expandFrom]
    split
    · simp [ih]
    · split <;> rename_i h _ <;> simp [ih, Ne.symm h]

theorem not_mem_expand (text : List Char) : '\t' ∉ expand text :=
  not_mem_expandFrom 0 text

theorem expandFrom_eq_self (column : Nat) {text : List Char} (h : '\t' ∉ text) :
    expandFrom column text = text := by
  induction text generalizing column with
  | nil => rfl
  | cons c text ih =>
    obtain ⟨hc, ht⟩ : '\t' ≠ c ∧ '\t' ∉ text := by simpa using h
    simp [expandFrom, Ne.symm hc, ih _ ht]

theorem expand_eq_self {text : List Char} (h : '\t' ∉ text) : expand text = text :=
  expandFrom_eq_self 0 h

end Tama.Tab
