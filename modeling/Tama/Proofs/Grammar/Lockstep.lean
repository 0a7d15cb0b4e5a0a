import Tama.Proofs.Grammar.Local

/-!
# Parsers in lockstep

A parser may run on two texts that stand in some relation: it keeps in step if it reads the same off
both and leaves texts that are again related, or fails on both, or halts on both (`Lockstep`).
Sequences, alternatives and repetitions of such parsers keep in step, and so does an operand whose
lexemes do (`Lockstep.operand`).

The first relation of this kind: two texts are the same but for what is skipped at their start.
Every rule begins with a lexeme, so an operand, an expression and a statement are read off both
alike, and the rest is the same text (`statementAt_skipsFirst`).
-/

set_option autoImplicit false

namespace Tama.Grammar

open Tama.Parser

/-! ## Two replies -/

/-- Two replies have the same result, and the texts that they leave are related. Where one of them
is a failure or a halt, so is the other. -/
inductive Parallel (S : List Char → List Char → Prop) {α : Type} : Reply α → Reply α → Prop
  | done {a : α} {rest rest' : List Char} : S rest rest' →
      Parallel S (.done a rest) (.done a rest')
  | failed {rest rest' : List Char} {wanted wanted' : Wanted} :
      Parallel S (.failed rest wanted) (.failed rest' wanted')
  | halted (cause : Halt) : Parallel S (.halted cause) (.halted cause)

/-- On texts in the relation `R` a parser ends in the same way, and leaves texts in the
relation `S`. -/
def Lockstep (R S : List Char → List Char → Prop) {α : Type} (p : Parser α) : Prop :=
  ∀ text text', R text text' → Parallel S (p text) (p text')

section
variable {α β : Type} {p q : Parser α} {R S T : List Char → List Char → Prop}
variable {text text' rest : List Char}

theorem Parallel.refl (r : Reply α) : Parallel Eq r r := by
  cases r with
  | done a rest => exact .done rfl
  | failed rest wanted => exact .failed
  | halted cause => exact .halted cause

theorem Fails.parallel (h : Fails p text) (h' : Fails p text') :
    Parallel S (p text) (p text') := by
  obtain ⟨rest, wanted, h⟩ := h
  obtain ⟨rest', wanted', h'⟩ := h'
  rw [h, h']
  exact .failed

/-! ## What one run says of the other -/

theorem Lockstep.done (hp : Lockstep R S p) (h : R text text') {a : α}
    (hd : p text = .done a rest) : ∃ rest', p text' = .done a rest' ∧ S rest rest' := by
  have hpar := hp text text' h
  rw [hd] at hpar
  generalize p text' = r at hpar
  cases hpar with
  | done hs => exact ⟨_, rfl, hs⟩

theorem Lockstep.done_right (hp : Lockstep R S p) (h : R text text') {a : α}
    (hd : p text' = .done a rest) : ∃ rest', p text = .done a rest' ∧ S rest' rest := by
  have hpar := hp text text' h
  rw [hd] at hpar
  generalize p text = r at hpar
  cases hpar with
  | done hs => exact ⟨_, rfl, hs⟩

theorem Lockstep.fails (hp : Lockstep R S p) (h : R text text') (hf : Fails p text) :
    Fails p text' := by
  have hpar := hp text text' h
  obtain ⟨rest, wanted, hf⟩ := hf
  rw [hf] at hpar
  generalize hr : p text' = r at hpar
  cases hpar with
  | failed => exact ⟨_, _, hr⟩

/-! ## Combinators -/

theorem Lockstep.pure (a : α) : Lockstep R R (pure a : Parser α) :=
  fun _ _ h => .done h

theorem Lockstep.halt (cause : Halt) : Lockstep R S (Parser.halt cause : Parser α) :=
  fun _ _ _ => .halted cause

theorem Lockstep.refl (p : Parser α) : Lockstep Eq Eq p :=
  fun text _ h => h ▸ Parallel.refl (p text)

theorem Lockstep.bind {f : α → Parser β} (hp : Lockstep R S p) (hf : ∀ a, Lockstep S T (f a)) :
    Lockstep R T (p >>= f) := by
  intro text text' h
  have hpar := hp text text' h
  rw [bind_apply, bind_apply]
  generalize p text = r, p text' = r' at hpar
  cases hpar with
  | done hs => exact hf _ _ _ hs
  | failed => exact .failed
  | halted cause => exact .halted cause

/-- After a parser that leaves the same text there is nothing more to show. -/
theorem Lockstep.first {f : α → Parser β} (hp : Lockstep R Eq p) : Lockstep R Eq (p >>= f) :=
  hp.bind fun a => .refl (f a)

theorem Lockstep.orElse (hp : Lockstep R S p) (hq : Lockstep R S q) :
    Lockstep R S (Parser.orElse p q) := by
  intro text text' h
  have hpar := hp text text' h
  unfold Parser.orElse
  generalize p text = r, p text' = r' at hpar
  cases hpar with
  | done hs => exact .done hs
  | failed => exact hq text text' h
  | halted cause => exact .halted cause

theorem Lockstep.repeatUpTo (hp : Lockstep R R p) (n : Nat) :
    Lockstep R R (Parser.repeatUpTo p n) := by
  induction n with
  | zero => exact .pure []
  | succ n ih =>
    intro text text' h
    have hpar := hp text text' h
    unfold Parser.repeatUpTo
    generalize p text = r, p text' = r' at hpar
    cases hpar with
    | @done a rest rest' hr =>
      have hrest := ih rest rest' hr
      dsimp only
      generalize Parser.repeatUpTo p n rest = r, Parser.repeatUpTo p n rest' = r' at hrest
      cases hrest with
      | done hlast => exact .done hlast
      | failed => exact .failed
      | halted cause => exact .halted cause
    | failed => exact .done h
    | halted cause => exact .halted cause

/-- A repetition may be allowed more items than its text has characters: it has none to read
them off. -/
theorem repeatUpTo_eq_many
    (hlt : ∀ text a rest, p text = .done a rest → rest.length < text.length)
    (hend : Fails p []) {n : Nat} (hn : text.length ≤ n) :
    Parser.repeatUpTo p n text = Parser.many p text := by
  suffices h : ∀ m, text.length ≤ m → Parser.repeatUpTo p n text = Parser.repeatUpTo p m text from
    h text.length (Nat.le_refl _)
  induction n generalizing text with
  | zero =>
    intro m _
    obtain rfl : text = [] := List.eq_nil_of_length_eq_zero (Nat.le_zero.1 hn)
    exact ((Chain.nil []).repeatUpTo hend (Nat.zero_le m)).symm
  | succ n ih =>
    intro m hm
    cases m with
    | zero =>
      obtain rfl : text = [] := List.eq_nil_of_length_eq_zero (Nat.le_zero.1 hm)
      exact (Chain.nil []).repeatUpTo hend (Nat.zero_le (n + 1))
    | succ m =>
      unfold Parser.repeatUpTo
      split
      · rename_i a mid ha
        have := hlt _ _ _ ha
        rw [ih (by omega) m (by omega)]
      · rfl
      · rfl

theorem Lockstep.many (hp : Lockstep R R p)
    (hlt : ∀ text a rest, p text = .done a rest → rest.length < text.length)
    (hend : Fails p []) : Lockstep R R (Parser.many p) := by
  intro text text' h
  rw [← repeatUpTo_eq_many hlt hend (Nat.le_max_left text.length text'.length),
    ← repeatUpTo_eq_many hlt hend (Nat.le_max_right text.length text'.length)]
  exact hp.repeatUpTo _ text text' h

/-- Items after a symbol each. -/
theorem Lockstep.manyAfter {c : Char} (hc : Lockstep R R (symbol c)) (hp : Lockstep R R p)
    (hb : ∀ text a rest, p text = .done a rest → rest.length ≤ text.length) :
    Lockstep R R (Parser.many do symbol c; p) := by
  refine (hc.bind fun _ => hp).many (fun text a rest h => ?_) ?_
  · obtain ⟨u, mid, hs, h⟩ := bind_eq_done.1 h
    exact Nat.lt_of_le_of_lt (hb mid a rest h) ((takes_symbol c).length_lt text u mid hs)
  · have hnil : Fails (symbol c) [] := ⟨[], _, rfl⟩
    exact hnil.bind

end

/-- An operand opens in step where the symbol is read in step. A gap right before it only changes
what a missing operand is called. -/
theorem lockstep_openOperand {R S : List Char → List Char → Prop}
    (h : Lockstep R S (symbol '(')) : Lockstep R S openOperand := by
  intro text text' hr
  have hs := h text text' hr
  rcases openOperand_cases text with ⟨rest, ho, hp⟩ | ⟨ho, _, _, hp⟩
  · rcases openOperand_cases text' with ⟨rest', ho', hp'⟩ | ⟨-, _, _, hp'⟩
    · rwa [ho, ho', ← hp, ← hp']
    · rw [hp, hp'] at hs
      cases hs
  · rcases openOperand_cases text' with ⟨rest', -, hp'⟩ | ⟨ho', -⟩
    · rw [hp, hp'] at hs
      cases hs
    · exact ho.parallel ho'

/-- An operand is read in step where its first lexeme is, and what follows that. -/
theorem Lockstep.operand {R S : List Char → List Char → Prop} {expression : Parser Tree}
    (hinteger : Lockstep R S integer) (hkeyword : ∀ k, Lockstep R S (keyword k))
    (hname : Lockstep R S name) (hopen : Lockstep R S (symbol '('))
    (hargs : Lockstep S S (callArguments expression))
    (hinside : Lockstep S S (do let e ← expression; symbol ')'; return e)) :
    Lockstep R S (operand expression) := by
  refine .orElse ?integer (.orElse (.orElse ?true ?false) (.orElse ?null (.orElse ?call
    (.orElse ?var ?paren))))
  case integer => exact hinteger.bind fun n => .pure _
  case true => exact (hkeyword _).bind fun _ => .pure _
  case false => exact (hkeyword _).bind fun _ => .pure _
  case null => exact (hkeyword _).bind fun _ => .pure _
  case call => exact hname.bind fun f => hargs.bind fun args => .pure _
  case var => exact hname.bind fun x => .pure _
  case paren => exact (lockstep_openOperand hopen).bind fun _ => hinside

/-! ## Texts that differ in what is skipped first -/

/-- A parser skips first: what it skips there makes no difference. -/
abbrev SkipsFirst {α : Type} (p : Parser α) : Prop :=
  Lockstep (fun text text' => skip text = skip text') Eq p

theorem skipsFirst_of_eq {α : Type} {p : Parser α}
    (h : ∀ text text', skip text = skip text' → p text = p text') : SkipsFirst p :=
  fun text text' hs => h text text' hs ▸ Parallel.refl (p text)

theorem symbol_skipsFirst (c : Char) : SkipsFirst (symbol c) :=
  skipsFirst_of_eq fun _ _ h => by simp only [symbol, h]

theorem keyword_skipsFirst (k : Keyword) : SkipsFirst (keyword k) :=
  skipsFirst_of_eq fun _ _ h => by simp only [keyword, h]

theorem name_skipsFirst : SkipsFirst name :=
  skipsFirst_of_eq fun _ _ h => by simp only [name, h]

theorem integer_skipsFirst : SkipsFirst integer :=
  skipsFirst_of_eq fun _ _ h => by simp only [integer, h]

theorem operand_skipsFirst (expression : Parser Tree) : SkipsFirst (operand expression) :=
  .operand integer_skipsFirst keyword_skipsFirst name_skipsFirst (symbol_skipsFirst '(') (.refl _)
    (.refl _)

theorem expressionAt_skipsFirst (depth : Nat) : SkipsFirst (expressionAt depth) := by
  cases depth with
  | zero => exact .halt .tooDeep
  | succ depth => exact (operand_skipsFirst (expressionAt depth)).first

theorem statementAt_skipsFirst {expression : Parser Tree} (he : SkipsFirst expression)
    (depth : Nat) : SkipsFirst (statementAt expression depth) := by
  cases depth with
  | zero => exact .halt .tooDeep
  | succ depth =>
    refine .orElse ?definition (.orElse ?conditional (.orElse ?assignment he.first))
    case definition => exact (keyword_skipsFirst _).first
    case conditional => exact (keyword_skipsFirst _).first
    case assignment => exact name_skipsFirst.first

/-- Items stay what they are where other gaps and comments stand before the first of them. -/
theorem Chain.skipsFirst {α : Type} {p : Parser α} (hp : SkipsFirst p)
    {text text' rest : List Char} {as : List α} (h : Chain p text as rest)
    (hs : skip text = skip text') : ∃ rest', Chain p text' as rest' ∧ skip rest = skip rest' := by
  cases h with
  | nil => exact ⟨text', .nil text', hs⟩
  | cons ha hrest =>
    obtain ⟨mid, ha', rfl⟩ := hp.done hs ha
    exact ⟨rest, .cons ha' hrest, rfl⟩

end Tama.Grammar
