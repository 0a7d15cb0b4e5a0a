/-!
# Words

The spelling of names and keywords. A name is made of ASCII letters, digits and underscores and
does not start with a digit.
-/

set_option autoImplicit false

namespace Tama

/-- A reserved word. -/
inductive Keyword where
  | define
  | cond
  | true
  | false
  | null
  deriving DecidableEq, Repr

namespace Keyword

/-- The letters of a keyword. -/
def spelling : Keyword → List Char
  | define => ['d', 'e', 'f']
  | cond => ['i', 'f']
  | true => ['t', 'r', 'u', 'e']
  | false => ['f', 'a', 'l', 's', 'e']
  | null => ['n', 'u', 'l', 'l']

/-- All keywords. -/
def all : List Keyword :=
  [define, cond, true, false, null]

/-- The keyword that a word spells. -/
def ofWord? (word : List Char) : Option Keyword :=
  all.find? fun k => k.spelling = word

theorem ofWord?_spelling (k : Keyword) : ofWord? k.spelling = some k := by
  cases k <;> decide

end Keyword

namespace Word

/-- Whether a character can start a name. -/
def isStart (c : Char) : Bool :=
  ('A' ≤ c && c ≤ 'Z') || ('a' ≤ c && c ≤ 'z') || c = '_'

/-- Whether a character can stand inside a name. -/
def isPart (c : Char) : Bool :=
  isStart c || ('0' ≤ c && c ≤ '9')

/-- Whether a character right after a keyword makes it part of a longer word. -/
def joinsKeyword (c : Char) : Bool :=
  isPart c || c = '$'

theorem isPart_of_isStart {c : Char} (h : isStart c = true) : isPart c = true := by
  simp [isPart, h]

theorem joinsKeyword_of_isPart {c : Char} (h : isPart c = true) : joinsKeyword c = true := by
  simp [joinsKeyword, h]

end Word
end Tama
