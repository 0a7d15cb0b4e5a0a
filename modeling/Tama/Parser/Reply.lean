import Tama.Fault

/-!
# Parsers

A parser reads a prefix of a text and says what is left. One that fails says where and what it
wanted there, and leaves the text to the next alternative. A literal that is too long, or nesting
that is too deep, halts the whole parse: no alternative is tried any more.
-/

set_option autoImplicit false

namespace Tama

/-- What a parser wanted where it failed. -/
inductive Wanted where
  | endOfText
  | integer
  /-- Any of the forms that an operand can take. -/
  | operand
  | symbol (c : Char)
  | keyword
  | name
  deriving DecidableEq, Repr

/-- What halts a parse. -/
inductive Halt where
  /-- A literal has this many digits. -/
  | tooLong (digits : Nat)
  | tooDeep
  deriving DecidableEq, Repr

/-- The fault of a parse that halts. -/
def Halt.fault : Halt → Fault
  | tooLong digits => .digits (.reading digits)
  | tooDeep => .tooDeep

/-- How a parser ends. -/
inductive Reply (α : Type) where
  /-- It read something, and this text is left. -/
  | done (a : α) (rest : List Char)
  /-- It failed where this text is left. -/
  | failed (rest : List Char) (wanted : Wanted)
  | halted (cause : Halt)

/-- A parser over the characters of a text. -/
def Parser (α : Type) : Type :=
  List Char → Reply α

namespace Parser

variable {α β : Type}

instance : Monad Parser where
  pure a := fun cs => .done a cs
  bind p f := fun cs =>
    match p cs with
    | .done a rest => f a rest
    | .failed rest wanted => .failed rest wanted
    | .halted cause => .halted cause

/-- Fails at once. -/
def fail (wanted : Wanted) : Parser α := fun cs =>
  .failed cs wanted

/-- Halts the parse. -/
def halt (cause : Halt) : Parser α := fun _ =>
  .halted cause

/-- Tries a second parser on the same text when the first one fails. -/
def orElse (p q : Parser α) : Parser α := fun cs =>
  match p cs with
  | .failed _ _ => q cs
  | reply => reply

/-- Repeats a parser at most so many times, until it fails. -/
def repeatUpTo (p : Parser α) : Nat → Parser (List α)
  | 0 => pure []
  | n + 1 => fun cs =>
    match p cs with
    | .done a rest =>
      match repeatUpTo p n rest with
      | .done as last => .done (a :: as) last
      | .failed rest wanted => .failed rest wanted
      | .halted cause => .halted cause
    | .failed _ _ => .done [] cs
    | .halted cause => .halted cause

/-- Repeats a parser until it fails. Where each repetition reads something, no more of them can
succeed than there are characters. -/
def many (p : Parser α) : Parser (List α) := fun cs =>
  repeatUpTo p cs.length cs

/-- One item and any number of further ones, each after a separator. -/
def separatedBy (separator : Parser Unit) (p : Parser α) : Parser (List α) := do
  let first ← p
  let rest ← many do
    separator
    p
  return first :: rest

/-- Nothing, where a list could stand. -/
def orEmpty (p : Parser (List α)) : Parser (List α) :=
  orElse p (pure [])

@[simp] theorem pure_apply (a : α) (cs : List Char) : (pure a : Parser α) cs = .done a cs := rfl

theorem bind_apply (p : Parser α) (f : α → Parser β) (cs : List Char) :
    (p >>= f) cs =
      match p cs with
      | .done a rest => f a rest
      | .failed rest wanted => .failed rest wanted
      | .halted cause => .halted cause := rfl

theorem bind_eq_done {p : Parser α} {f : α → Parser β} {cs rest : List Char} {b : β} :
    (p >>= f) cs = .done b rest ↔ ∃ a mid, p cs = .done a mid ∧ f a mid = .done b rest := by
  rw [bind_apply]
  cases p cs with
  | done a mid =>
    refine ⟨fun h => ⟨a, mid, rfl, h⟩, ?_⟩
    rintro ⟨_, _, h, hf⟩
    cases h
    exact hf
  | failed _ _ => simp
  | halted _ => simp

theorem bind_eq_halted {p : Parser α} {f : α → Parser β} {cs : List Char} {cause : Halt} :
    (p >>= f) cs = .halted cause ↔
      p cs = .halted cause ∨ ∃ a mid, p cs = .done a mid ∧ f a mid = .halted cause := by
  rw [bind_apply]
  cases p cs with
  | done a mid =>
    refine ⟨fun h => .inr ⟨a, mid, rfl, h⟩, ?_⟩
    rintro (h | ⟨_, _, h, hf⟩) <;> cases h
    exact hf
  | failed _ _ => simp
  | halted _ => simp

theorem orElse_eq_done {p q : Parser α} {cs rest : List Char} {a : α} :
    orElse p q cs = .done a rest ↔
      p cs = .done a rest ∨ (∃ r w, p cs = .failed r w) ∧ q cs = .done a rest := by
  simp only [orElse]
  cases p cs <;> simp

end Parser
end Tama
