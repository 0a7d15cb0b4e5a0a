import Tama.Datum

/-!
# Names

What variables and functions are bound under. Scripts write names as text; a host may also bind
under a number, a truth value or null. Numbers that are equal are the same name, and so are a truth
value and the integer that it stands for; the spelling that came first is kept.
-/

set_option autoImplicit false

namespace Tama

/-- A name. -/
inductive Name where
  | text (s : String)
  | int (n : Int)
  /-- A decimal fraction: `digits / 10 ^ places`. -/
  | decimal (digits : Int) (places : Nat)
  | bool (b : Bool)
  | null
  deriving DecidableEq, Repr

namespace Name

instance : Coe String Name := ⟨text⟩

/-- A decimal fraction in lowest terms, as an integer if it is one. -/
def reduce (digits : Int) : Nat → Name
  | 0 => int digits
  | places + 1 =>
    if digits % 10 = 0 then reduce (digits / 10) places else decimal digits (places + 1)

/-- The representative of all spellings of a name. -/
def canon : Name → Name
  | bool b => int (if b then 1 else 0)
  | decimal digits places => reduce digits places
  | name => name

/-- A name as host data. -/
def toDatum : Name → Datum
  | text s => .text s
  | int n => .int n
  | decimal digits places => .decimal digits places
  | bool b => .bool b
  | null => .null

/-- A name as running text. -/
def display (name : Name) : Except DigitLimit String :=
  name.toDatum.display

@[simp] theorem canon_text (s : String) : (text s).canon = text s := rfl

theorem reduce_ne_text (digits : Int) (places : Nat) (s : String) :
    reduce digits places ≠ text s := by
  induction places generalizing digits with
  | zero => exact nofun
  | succ places ih =>
    rw [reduce]
    split
    · exact ih _
    · exact nofun

/-- A text is spelled in one way only. -/
theorem eq_text_of_canon {name : Name} {s : String} (h : name.canon = text s) : name = text s := by
  cases name with
  | decimal digits places => exact absurd h (reduce_ne_text digits places s)
  | bool b => cases h
  | _ => exact h

@[simp] theorem display_text (s : String) : (text s).display = .ok s := rfl

end Name
end Tama
