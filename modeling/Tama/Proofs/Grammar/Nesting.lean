import Tama.Parser.Grammar
import Tama.Proofs.Grammar.Reading

/-!
# How deep a text can nest

An expression inside an expression, and a statement inside a statement, starts after a word or
symbol of the outer one. So a text nests no deeper than it is long, and only a text with at least so
many characters meets a given limit (`program_tooDeep`).
-/

set_option autoImplicit false

namespace Tama.Grammar

open Tama.Parser

/-- A parser that takes up a character where it succeeds, and that the nesting limit never stops. -/
structure Takes {α : Type} (p : Parser α) : Prop where
  length_lt : ∀ text a rest, p text = .done a rest → rest.length < text.length
  not_tooDeep : ∀ text, p text ≠ .halted .tooDeep

/-- A parser that leaves no more than it was given, and that the nesting limit stops on texts with
at least `n` characters only. -/
structure Bounded {α : Type} (p : Parser α) (n : Nat) : Prop where
  length_le : ∀ text a rest, p text = .done a rest → rest.length ≤ text.length
  le_length : ∀ text, p text = .halted .tooDeep → n ≤ text.length

/-! ## Words and symbols -/

theorem Spells.length_lt {text rest : List Char} {w : Lexeme} (h : Spells (skip text) w rest) :
    rest.length < text.length := by
  obtain ⟨-, -, -, -, hlt⟩ := h.exists_start
  exact Nat.lt_of_lt_of_le hlt (length_skip_le text)

theorem takes_symbol (c : Char) : Takes (symbol c) := by
  constructor
  · intro text u rest h
    have := length_skip_le text
    rw [symbol_eq_done h] at this
    exact this
  · intro text h
    unfold symbol at h
    repeat' split at h
    all_goals cases h

theorem takes_keyword (k : Keyword) : Takes (keyword k) := by
  constructor
  · intro text u rest h
    exact (keyword_eq_done h).length_lt
  · intro text h
    unfold keyword at h
    split at h <;> cases h

theorem takes_name : Takes name := by
  constructor
  · intro text x rest h
    obtain ⟨c, tail, hs, -, -, -, rfl⟩ := name_eq_done h
    have h1 := length_skip_le text
    have h2 := (List.dropWhile_sublist Word.isPart (l := tail)).length_le
    rw [hs, List.length_cons] at h1
    omega
  · intro text h
    unfold name at h
    repeat' split at h
    all_goals cases h

theorem takes_integer : Takes integer := by
  constructor
  · intro text n rest h
    unfold integer at h
    simp only at h
    split at h
    · cases h
    · rename_i hd
      split at h
      · cases h
        exact (digits_spell (by simpa using hd)).length_lt
      · cases h
  · intro text h
    unfold integer at h
    simp only at h
    repeat' split at h
    all_goals cases h

theorem takes_openOperand : Takes openOperand := by
  constructor
  · intro text u rest h
    rcases openOperand_cases text with ⟨mid, ho, hs⟩ | ⟨⟨_, _, ho⟩, -⟩ <;> rw [ho] at h
    · cases h
      exact (takes_symbol '(').length_lt text () rest hs
    · cases h
  · intro text h
    rcases openOperand_cases text with ⟨mid, ho, -⟩ | ⟨⟨_, _, ho⟩, -⟩ <;> rw [ho] at h <;> cases h

/-! ## Combinators -/

section
variable {α β : Type} {p q : Parser α} {n : Nat}

theorem Takes.bounded (hp : Takes p) (n : Nat) : Bounded p n :=
  ⟨fun text a rest h => Nat.le_of_lt (hp.length_lt text a rest h),
    fun text h => absurd h (hp.not_tooDeep text)⟩

theorem Bounded.mono {m : Nat} (hp : Bounded p n) (h : m ≤ n) : Bounded p m :=
  ⟨hp.length_le, fun text ht => Nat.le_trans h (hp.le_length text ht)⟩

theorem Bounded.pure (a : α) : Bounded (pure a : Parser α) n := by
  constructor
  · intro text b rest h
    cases h
    exact Nat.le_refl _
  · intro text h
    cases h

theorem Bounded.bind {f : α → Parser β} (hp : Bounded p n) (hf : ∀ a, Bounded (f a) n) :
    Bounded (p >>= f) n := by
  constructor
  · intro text b rest h
    obtain ⟨a, mid, ha, h⟩ := bind_eq_done.1 h
    exact Nat.le_trans ((hf a).length_le mid b rest h) (hp.length_le text a mid ha)
  · intro text h
    rcases bind_eq_halted.1 h with h | ⟨a, mid, ha, h⟩
    · exact hp.le_length text h
    · exact Nat.le_trans ((hf a).le_length mid h) (hp.length_le text a mid ha)

/-- After a character the limit is met one character later. -/
theorem Takes.bind {f : α → Parser β} (hp : Takes p) (hf : ∀ a, Bounded (f a) n) :
    Bounded (p >>= f) (n + 1) := by
  constructor
  · intro text b rest h
    obtain ⟨a, mid, ha, h⟩ := bind_eq_done.1 h
    exact Nat.le_of_lt (Nat.lt_of_le_of_lt ((hf a).length_le mid b rest h)
      (hp.length_lt text a mid ha))
  · intro text h
    rcases bind_eq_halted.1 h with h | ⟨a, mid, ha, h⟩
    · exact absurd h (hp.not_tooDeep text)
    · exact Nat.lt_of_le_of_lt ((hf a).le_length mid h) (hp.length_lt text a mid ha)

theorem Bounded.orElse (hp : Bounded p n) (hq : Bounded q n) :
    Bounded (Parser.orElse p q) n := by
  constructor
  · intro text a rest h
    rcases orElse_eq_done.1 h with h | ⟨-, h⟩
    · exact hp.length_le text a rest h
    · exact hq.length_le text a rest h
  · intro text h
    unfold Parser.orElse at h
    split at h
    · exact hq.le_length text h
    · exact hp.le_length text h

theorem Bounded.repeatUpTo (hp : Bounded p n) (k : Nat) : Bounded (Parser.repeatUpTo p k) n := by
  induction k with
  | zero => exact .pure []
  | succ k ih =>
    constructor
    · intro text as rest h
      unfold Parser.repeatUpTo at h
      split at h
      · rename_i a mid ha
        split at h
        · rename_i as' last hl
          cases h
          exact Nat.le_trans (ih.length_le mid as' rest hl) (hp.length_le text a mid ha)
        · cases h
        · cases h
      · cases h
        exact Nat.le_refl _
      · cases h
    · intro text h
      unfold Parser.repeatUpTo at h
      split at h
      · rename_i a mid ha
        split at h
        · cases h
        · cases h
        · rename_i cause hl
          cases h
          exact Nat.le_trans (ih.le_length mid hl) (hp.length_le text a mid ha)
      · cases h
      · rename_i cause hc
        cases h
        exact hp.le_length text hc

theorem Bounded.many (hp : Bounded p n) : Bounded (Parser.many p) n :=
  ⟨fun text => (hp.repeatUpTo text.length).length_le text,
    fun text => (hp.repeatUpTo text.length).le_length text⟩

theorem Bounded.listed (hp : Bounded p n) :
    Bounded (orEmpty (separatedBy (symbol ',') p)) n := by
  refine .orElse (hp.bind fun a => .bind (.many ?_) fun as => .pure _) (.pure [])
  exact ((takes_symbol ',').bounded n).bind fun _ => hp

end

/-! ## Rules -/

theorem operand_bounded {expression : Parser Tree} {n : Nat} (he : Bounded expression n) :
    Bounded (operand expression) (n + 1) := by
  refine .orElse ?integer (.orElse (.orElse ?true ?false) (.orElse ?null (.orElse ?call
    (.orElse ?var ?paren))))
  case integer => exact takes_integer.bind fun _ => .pure _
  case true => exact (takes_keyword _).bind fun _ => .pure _
  case false => exact (takes_keyword _).bind fun _ => .pure _
  case null => exact (takes_keyword _).bind fun _ => .pure _
  case call =>
    refine takes_name.bind fun f => .bind ?_ fun args => .pure _
    exact ((takes_symbol '(').bounded n).bind fun _ => he.listed.bind fun args =>
      ((takes_symbol ')').bounded n).bind fun _ => .pure args
  case var => exact takes_name.bind fun _ => .pure _
  case paren =>
    exact takes_openOperand.bind fun _ => he.bind fun e =>
      ((takes_symbol ')').bounded n).bind fun _ => .pure e

theorem expressionAt_bounded (depth : Nat) : Bounded (expressionAt depth) depth := by
  induction depth with
  | zero => exact ⟨nofun, fun text _ => Nat.zero_le _⟩
  | succ depth ih =>
    have ho := operand_bounded ih
    refine ho.bind fun first => .bind (.many ?_) fun rest => .pure _
    exact ((takes_symbol '+').bounded _).bind fun _ => ho

section
variable {expression statement : Parser Tree} {n : Nat}

theorem block_bounded (hs : Bounded statement n) : Bounded (block statement) n :=
  ((takes_symbol '{').bounded n).bind fun _ => hs.many.bind fun body =>
    ((takes_symbol '}').bounded n).bind fun _ => .pure body

theorem statementAt_bounded (he : Bounded expression n) {depth : Nat} (hd : depth ≤ n) :
    Bounded (statementAt expression depth) depth := by
  induction depth with
  | zero => exact ⟨nofun, fun text _ => Nat.zero_le _⟩
  | succ depth ih =>
    have hb := block_bounded (ih (Nat.le_of_succ_le hd))
    have he' := he.mono (Nat.le_of_succ_le hd)
    refine .orElse ?definition (.orElse ?conditional (.orElse ?assignment ?expression))
    case definition =>
      refine (takes_keyword _).bind fun _ => (takes_name.bounded depth).bind fun f => ?_
      refine ((takes_symbol _).bounded depth).bind fun _ => ?_
      refine (takes_name.bounded depth).listed.bind fun params => ?_
      exact ((takes_symbol _).bounded depth).bind fun _ => hb.bind fun body => .pure _
    case conditional =>
      refine (takes_keyword _).bind fun _ => ((takes_symbol _).bounded depth).bind fun _ => ?_
      refine he'.bind fun c => ((takes_symbol _).bounded depth).bind fun _ => ?_
      exact hb.bind fun body => .pure _
    case assignment =>
      refine takes_name.bind fun x => ((takes_symbol _).bounded depth).bind fun _ => ?_
      exact he'.bind fun e => ((takes_symbol _).bounded depth).bind fun _ => .pure _
    case expression =>
      exact (he.mono hd).bind fun e => ((takes_symbol _).bounded _).bind fun _ => .pure e

end

/-- A text that is read as a program meets the nesting limit only when it is at least so long. -/
theorem program_tooDeep {nesting : Nat} {text : List Char}
    (h : program nesting text = .halted .tooDeep) : nesting ≤ text.length := by
  have hb := statementAt_bounded (expressionAt_bounded nesting) (Nat.le_refl nesting)
  rcases bind_eq_halted.1 h with h | ⟨body, mid, -, h⟩
  · exact hb.many.le_length text h
  · rcases bind_eq_halted.1 h with h | ⟨u, last, -, h⟩
    · unfold ending at h
      split at h <;> cases h
    · cases h

end Tama.Grammar
