import Mathlib.Data.List.Basic
import Tama.Program
import Tama.Proofs.Grammar.Complete
import Tama.Proofs.Grammar.Nesting
import Tama.Stack

/-!
# The parser accepts exactly its grammar

Soundness and completeness together: a text is read as a program if and only if the grammar derives
it, and then with the trees of the derivation, of which there is one (`read_eq_ok_iff_derives`). The
grammar sets no limit to the nesting. Where the stack does, a text for which it has no room is not
read, and any other as without it.
-/

set_option autoImplicit false

namespace Tama.Grammar

open Tama.Parser

theorem program_eq_done_iff {nesting : Nat} {text : List Char} {trees : List Tree}
    (h : program nesting text ≠ .halted .tooDeep) :
    program nesting text = .done trees [] ↔ Derives text trees :=
  ⟨fun hd => (program_sound hd).2, fun hd => (program_complete nesting hd).resolve_left h⟩

theorem exists_program_iff {text : List Char} {trees : List Tree} :
    (∃ nesting, program nesting text = .done trees []) ↔ Derives text trees := by
  constructor
  · rintro ⟨nesting, h⟩
    exact (program_sound h).2
  · intro h
    refine ⟨text.length + 1, (program_eq_done_iff fun hd => ?_).2 h⟩
    have := program_tooDeep hd
    omega

theorem Derives.unique {text : List Char} {trees others : List Tree} (h : Derives text trees)
    (h' : Derives text others) : trees = others := by
  obtain ⟨nesting, hn⟩ := exists_program_iff.2 h
  rcases program_complete nesting h' with hd | hd <;> rw [hn] at hd <;> cases hd
  rfl

/-- More levels than characters are as good as no limit. -/
theorem program_eq_done_iff_of_lt {nesting : Nat} {text : List Char} {trees : List Tree}
    (h : text.length < nesting) : program nesting text = .done trees [] ↔ Derives text trees :=
  program_eq_done_iff fun hd => absurd (program_tooDeep hd) (Nat.not_le.2 h)

section

variable {source filename : String} {trees : List Tree}

theorem read_eq_ok : Program.read source filename = .ok trees ↔
    Derives (Tab.expand source.toList) trees := by
  rw [← program_eq_done_iff_of_lt (Nat.lt_succ_self _)]
  unfold Program.read Program.readWith unlimited
  simp only
  constructor
  · intro h
    split at h
    · rename_i hp
      cases h
      rw [hp, (program_sound hp).1]
    · cases h
    · cases h
  · intro h
    rw [h]

theorem read_eq_ok_iff_program {nesting : Nat} (h : (Tab.expand source.toList).length < nesting) :
    Program.read source filename = .ok trees ↔
      program nesting (Tab.expand source.toList) = .done trees [] :=
  read_eq_ok.trans (program_eq_done_iff_of_lt h).symm

/-- What is read at some nesting is read. -/
theorem read_of_program {nesting : Nat}
    (h : program nesting (Tab.expand source.toList) = .done trees []) :
    Program.read source filename = .ok trees :=
  read_eq_ok.2 (program_sound h).2

theorem read_ne_tooDeep : Program.read source filename ≠ .error (.fault .tooDeep) := by
  intro h
  unfold Program.read Program.readWith unlimited at h
  simp only at h
  split at h
  · cases h
  · rename_i cause hp
    cases cause with
    | tooLong digits => cases h
    | tooDeep => exact absurd (program_tooDeep hp) (Nat.not_succ_le_self _)
  · cases h

/-! ## Reading on a stack -/

variable {fits : String → Bool}

theorem readWithin_eq_ok : Program.readWithin fits source filename = .ok trees ↔
    fits source = true ∧ Program.read source filename = .ok trees := by
  unfold Program.readWithin
  cases fits source <;> simp

/-- The stack has room for the reading of a text, or that ends for the lack of it. -/
theorem readWithin_eq_tooDeep : Program.readWithin fits source filename = .error (.fault .tooDeep) ↔
    fits source = false := by
  unfold Program.readWithin
  cases fits source <;> simp [read_ne_tooDeep]

/-- A text that is shorter than the stack is deep can be read. -/
theorem isShallow_of_length {levels : Nat} (h : (Tab.expand source.toList).length < levels) :
    Stack.isShallow levels source = true := by
  unfold Stack.isShallow
  split
  · rename_i hd
    exact absurd (program_tooDeep hd) (Nat.not_le.2 h)
  · rfl

end

/-- **The parser accepts exactly its grammar.** A text is read as a program with the given trees if
and only if its expansion derives them, whatever its nesting is; on a stack that sets a limit to
that, if there also is room for it. No text derives two lists of trees. -/
theorem read_eq_ok_iff_derives (source filename : String) (trees : List Tree) :
    ((∃ nesting, program nesting (Tab.expand source.toList) = .done trees []) ↔
      Derives (Tab.expand source.toList) trees) ∧
    (Program.read source filename = .ok trees ↔ Derives (Tab.expand source.toList) trees) ∧
    Program.read source filename ≠ .error (.fault .tooDeep) ∧
    (∀ fits, Program.readWithin fits source filename = .ok trees ↔
      fits source = true ∧ Derives (Tab.expand source.toList) trees) ∧
    ∀ others, Derives (Tab.expand source.toList) trees →
      Derives (Tab.expand source.toList) others → trees = others := by
  refine ⟨exists_program_iff, read_eq_ok, read_ne_tooDeep, fun fits => ?_, fun others =>
    Derives.unique⟩
  rw [readWithin_eq_ok, read_eq_ok]

/-- A call in a sum is read whole, on any stack with room for it. -/
theorem read_call_in_sum :
    Program.read "f(1)+x;" "" = .ok [.add (.call "f" [.int 1]) (.var "x")] ∧
    Program.readWithin (Stack.isShallow 9) "f(1)+x;" "" =
      .ok [.add (.call "f" [.int 1]) (.var "x")] := by
  have h := read_eq_ok_iff_derives "f(1)+x;" "" [.add (.call "f" [.int 1]) (.var "x")]
  have derived := h.1.1 ⟨5, by cbv⟩
  have shallow : Stack.isShallow 9 "f(1)+x;" = true := isShallow_of_length (by decide)
  exact ⟨h.2.1.2 derived, (h.2.2.2.1 _).2 ⟨shallow, derived⟩⟩

end Tama.Grammar
