import Tama.Parser.Grammar
import Tama.Proofs.Grammar.Reading

/-!
# What the parser reads is in the grammar

`Sound p G`: where the parser `p` succeeds, it has read lexemes that `G` allows for its result. The
lexemes of a text are built from its end, so the statement takes those of the text that is left and
puts others in front of them; what follows a word is then known when the word is looked at.

Main statement: `program_sound`.
-/

set_option autoImplicit false

namespace Tama.Grammar

open Tama.Parser

/-- Whatever a parser reads, the grammar allows. -/
def Sound {α : Type} (p : Parser α) (G : List Lexeme → α → Prop) : Prop :=
  ∀ (text rest : List Char) (a : α), p text = .done a rest → ∀ ws : List Lexeme,
    Lexed rest ws → ∃ vs, G vs a ∧ Lexed text (vs ++ ws)

/-- Something after a lexeme. -/
def After {α : Type} (w : Lexeme) (G : List Lexeme → α → Prop) : List Lexeme → α → Prop :=
  fun ws a => ∃ vs, ws = w :: vs ∧ G vs a

/-! ## Combinators -/

section
variable {α : Type} {p q : Parser α} {G : List Lexeme → α → Prop}

theorem Sound.orElse (hp : Sound p G) (hq : Sound q G) : Sound (Parser.orElse p q) G := by
  intro text rest a h ws hr
  rcases orElse_eq_done.1 h with h | ⟨-, h⟩
  · exact hp _ _ _ h _ hr
  · exact hq _ _ _ h _ hr

theorem Sound.repeatUpTo (hp : Sound p G) (n : Nat) : Sound (Parser.repeatUpTo p n) (Star G) := by
  induction n with
  | zero =>
    intro text rest as h ws hr
    cases h
    exact ⟨[], .nil, hr⟩
  | succ n ih =>
    intro text rest as h ws hr
    unfold Parser.repeatUpTo at h
    split at h
    · rename_i a mid ha
      split at h
      · rename_i as' last hl
        cases h
        obtain ⟨vs, hvs, hm⟩ := ih _ _ _ hl _ hr
        obtain ⟨us, hus, ht⟩ := hp _ _ _ ha _ hm
        exact ⟨us ++ vs, .cons hus hvs, by rwa [List.append_assoc]⟩
      · cases h
      · cases h
    · cases h
      exact ⟨[], .nil, hr⟩
    · cases h

theorem Sound.many (hp : Sound p G) : Sound (Parser.many p) (Star G) := by
  intro text rest as h ws hr
  exact hp.repeatUpTo text.length _ _ _ h _ hr

theorem Sound.afterSymbol (hp : Sound p G) {c : Char} (hc : c ∈ symbols) :
    Sound (do symbol c; p) (After (.symbol c) G) := by
  intro text rest a h ws hr
  obtain ⟨u, mid, hs, h⟩ := bind_eq_done.1 h
  obtain ⟨vs, hvs, hm⟩ := hp _ _ _ h _ hr
  exact ⟨_, ⟨vs, rfl, hvs⟩, symbol_done hc hs hm⟩

theorem Separated.of_star {ws vs : List Lexeme} {a : α} {as : List α} (ha : G ws a)
    (h : Star (After (.symbol ',') G) vs as) : Separated G (ws ++ vs) (a :: as) := by
  induction h generalizing ws a with
  | nil => simpa using Separated.one ha
  | cons hb _ ih =>
    obtain ⟨us, rfl, hb⟩ := hb
    exact .cons ha (ih hb)

theorem Sound.separatedBy (hp : Sound p G) :
    Sound (Parser.separatedBy (symbol ',') p) (Separated G) := by
  intro text rest as h ws hr
  obtain ⟨a, mid, ha, h⟩ := bind_eq_done.1 h
  obtain ⟨as', last, has, h⟩ := bind_eq_done.1 h
  cases h
  obtain ⟨vs, hvs, hm⟩ := (hp.afterSymbol (by decide)).many _ _ _ has _ hr
  obtain ⟨us, hus, ht⟩ := hp _ _ _ ha _ hm
  exact ⟨us ++ vs, .of_star hus hvs, by rwa [List.append_assoc]⟩

theorem Sound.listed (hp : Sound p G) :
    Sound (orEmpty (Parser.separatedBy (symbol ',') p)) (Listed G) := by
  intro text rest as h ws hr
  rcases orElse_eq_done.1 h with h | ⟨-, h⟩
  · obtain ⟨vs, hvs, ht⟩ := hp.separatedBy _ _ _ h _ hr
    exact ⟨vs, .some hvs, ht⟩
  · cases h
    exact ⟨[], .none, hr⟩

end

/-! ## Expressions -/

theorem boolean_sound : Sound boolean Operand := by
  apply Sound.orElse
  · intro text rest t h ws hr
    obtain ⟨u, mid, hk, h⟩ := bind_eq_done.1 h
    cases h
    exact ⟨_, .true, keyword_done hk hr⟩
  · intro text rest t h ws hr
    obtain ⟨u, mid, hk, h⟩ := bind_eq_done.1 h
    cases h
    exact ⟨_, .false, keyword_done hk hr⟩

section
variable {expression : Parser Tree} (he : Sound expression Expression)
include he

theorem call_sound : Sound (call expression) Operand := by
  intro text rest t h ws hr
  obtain ⟨f, m₁, hf, h⟩ := bind_eq_done.1 h
  obtain ⟨args, m₂, hargs, h⟩ := bind_eq_done.1 h
  cases h
  obtain ⟨u, m₃, hopen, hargs⟩ := bind_eq_done.1 hargs
  obtain ⟨args, m₄, hlist, hargs⟩ := bind_eq_done.1 hargs
  obtain ⟨u', m₅, hclose, hargs⟩ := bind_eq_done.1 hargs
  cases hargs
  obtain ⟨vs, hvs, hl⟩ := he.listed _ _ _ hlist _ (symbol_done (by decide) hclose hr)
  exact ⟨_, .call f hvs, by simpa using name_done hf (symbol_done (by decide) hopen hl)⟩

theorem parenthesized_sound : Sound (parenthesized expression) Operand := by
  intro text rest t h ws hr
  obtain ⟨u, m₁, hopen, h⟩ := bind_eq_done.1 h
  obtain ⟨e, m₂, hexp, h⟩ := bind_eq_done.1 h
  obtain ⟨u', m₃, hclose, h⟩ := bind_eq_done.1 h
  cases h
  have hs : symbol '(' text = .done () m₁ := by
    rcases openOperand_cases text with ⟨m, ho, hs⟩ | ⟨⟨_, _, ho⟩, -⟩ <;> rw [ho] at hopen
    · cases hopen
      exact hs
    · cases hopen
  obtain ⟨vs, hvs, hl⟩ := he _ _ _ hexp _ (symbol_done (by decide) hclose hr)
  exact ⟨_, .parenthesized hvs, by simpa using symbol_done (by decide) hs hl⟩

theorem operand_sound : Sound (operand expression) Operand := by
  refine .orElse ?integer (.orElse boolean_sound (.orElse ?null (.orElse (call_sound he)
    (.orElse ?var (parenthesized_sound he)))))
  case integer =>
    intro text rest t h ws hr
    obtain ⟨n, mid, hn, h⟩ := bind_eq_done.1 h
    cases h
    obtain ⟨digits, rfl, ht⟩ := integer_done hn hr
    exact ⟨_, .integer digits, ht⟩
  case null =>
    intro text rest t h ws hr
    obtain ⟨u, mid, hk, h⟩ := bind_eq_done.1 h
    cases h
    exact ⟨_, .null, keyword_done hk hr⟩
  case var =>
    intro text rest t h ws hr
    obtain ⟨x, mid, hx, h⟩ := bind_eq_done.1 h
    cases h
    exact ⟨_, .var x, name_done hx hr⟩

end

theorem Sum.of_star {ws vs : List Lexeme} {t : Tree} {ts : List Tree} (ht : Expression ws t)
    (h : Star (After (.symbol '+') Operand) vs ts) : Expression (ws ++ vs) (Tree.sum t ts) := by
  induction h generalizing ws t with
  | nil => simpa [Tree.sum] using ht
  | cons ha _ ih =>
    obtain ⟨us, rfl, ha⟩ := ha
    simpa [Tree.sum] using ih (.add ht ha)

theorem addition_sound {operand : Parser Tree} (ho : Sound operand Operand) :
    Sound (addition operand) Expression := by
  intro text rest t h ws hr
  obtain ⟨first, mid, hfirst, h⟩ := bind_eq_done.1 h
  obtain ⟨ts, last, hts, h⟩ := bind_eq_done.1 h
  cases h
  obtain ⟨vs, hvs, hm⟩ := (ho.afterSymbol (by decide)).many _ _ _ hts _ hr
  obtain ⟨us, hus, ht⟩ := ho _ _ _ hfirst _ hm
  exact ⟨us ++ vs, .of_star (.operand hus) hvs, by rwa [List.append_assoc]⟩

theorem expressionAt_sound (depth : Nat) : Sound (expressionAt depth) Expression := by
  induction depth with
  | zero =>
    intro text rest t h
    cases h
  | succ depth ih => exact addition_sound (operand_sound ih)

/-! ## Statements -/

/-- A semicolon makes these lexemes a statement that stands for the tree. -/
def UpToSemicolon (ws : List Lexeme) (t : Tree) : Prop :=
  Statement (ws ++ [.symbol ';']) t

/-- An assignment up to its semicolon. -/
def assigned (expression : Parser Tree) : Parser Tree := do
  let x ← name
  symbol '='
  let e ← expression
  return .assignment x e

/-- With the semicolon this is the assignment. -/
theorem assignment_eq (expression : Parser Tree) :
    assignment expression = expressionStatement (assigned expression) := by
  funext text
  simp only [assignment, expressionStatement, assigned, bind_apply]
  cases name text with
  | failed rest wanted => rfl
  | halted cause => rfl
  | done x rest =>
    simp only
    cases symbol '=' rest with
    | failed rest wanted => rfl
    | halted cause => rfl
    | done u mid =>
      simp only
      cases expression mid <;> rfl

theorem parameter_sound : Sound name Parameter := by
  intro text rest x h ws hr
  exact ⟨_, .name x, name_done h hr⟩

section
variable {expression statement : Parser Tree} (he : Sound expression Expression)
  (hs : Sound statement Statement)

include hs in
theorem block_sound {text rest : List Char} {body : List Tree}
    (h : block statement text = .done body rest) {ws : List Lexeme} (hr : Lexed rest ws) :
    ∃ vs, Star Statement vs body ∧ Lexed text (.symbol '{' :: (vs ++ .symbol '}' :: ws)) := by
  obtain ⟨u, m₁, hopen, h⟩ := bind_eq_done.1 h
  obtain ⟨body, m₂, hbody, h⟩ := bind_eq_done.1 h
  obtain ⟨u', m₃, hclose, h⟩ := bind_eq_done.1 h
  cases h
  obtain ⟨vs, hvs, hl⟩ := hs.many _ _ _ hbody _ (symbol_done (by decide) hclose hr)
  exact ⟨vs, hvs, symbol_done (by decide) hopen hl⟩

include hs in
theorem functionDefinition_sound : Sound (functionDefinition statement) Statement := by
  intro text rest t h ws hr
  obtain ⟨u, m₁, hdef, h⟩ := bind_eq_done.1 h
  obtain ⟨f, m₂, hf, h⟩ := bind_eq_done.1 h
  obtain ⟨u', m₃, hopen, h⟩ := bind_eq_done.1 h
  obtain ⟨params, m₄, hparams, h⟩ := bind_eq_done.1 h
  obtain ⟨u'', m₅, hclose, h⟩ := bind_eq_done.1 h
  obtain ⟨body, m₆, hbody, h⟩ := bind_eq_done.1 h
  cases h
  obtain ⟨bs, hbs, hl⟩ := block_sound hs hbody hr
  obtain ⟨ps, hps, hl⟩ := parameter_sound.listed _ _ _ hparams _ (symbol_done (by decide) hclose hl)
  refine ⟨_, .definition f hps hbs, ?_⟩
  simpa using keyword_done hdef (name_done hf (symbol_done (by decide) hopen hl))

include he hs in
theorem conditional_sound : Sound (conditional expression statement) Statement := by
  intro text rest t h ws hr
  obtain ⟨u, m₁, hif, h⟩ := bind_eq_done.1 h
  obtain ⟨u', m₂, hopen, h⟩ := bind_eq_done.1 h
  obtain ⟨c, m₃, hc, h⟩ := bind_eq_done.1 h
  obtain ⟨u'', m₄, hclose, h⟩ := bind_eq_done.1 h
  obtain ⟨body, m₅, hbody, h⟩ := bind_eq_done.1 h
  cases h
  obtain ⟨bs, hbs, hl⟩ := block_sound hs hbody hr
  obtain ⟨cs, hcs, hl⟩ := he _ _ _ hc _ (symbol_done (by decide) hclose hl)
  refine ⟨_, .conditional hcs hbs, ?_⟩
  simpa using keyword_done hif (symbol_done (by decide) hopen hl)

include he in
theorem assigned_sound : Sound (assigned expression) UpToSemicolon := by
  intro text rest t h ws hr
  obtain ⟨x, m₁, hx, h⟩ := bind_eq_done.1 h
  obtain ⟨u, m₂, heq, h⟩ := bind_eq_done.1 h
  obtain ⟨e, m₃, hexp, h⟩ := bind_eq_done.1 h
  cases h
  obtain ⟨es, hes, hl⟩ := he _ _ _ hexp _ hr
  refine ⟨.name x :: .symbol '=' :: es, .assignment x hes, ?_⟩
  simpa using name_done hx (symbol_done (by decide) heq hl)

include he in
theorem expression_upToSemicolon : Sound expression UpToSemicolon := by
  intro text rest e h ws hr
  obtain ⟨es, hes, hl⟩ := he _ _ _ h _ hr
  exact ⟨es, .expression hes, hl⟩

/-- With its semicolon it is a statement. -/
theorem ended_sound {head : Parser Tree} (hh : Sound head UpToSemicolon) :
    Sound (expressionStatement head) Statement := by
  intro text rest t h ws hr
  obtain ⟨t', m₁, ht, h⟩ := bind_eq_done.1 h
  obtain ⟨u, m₂, hend, h⟩ := bind_eq_done.1 h
  cases h
  obtain ⟨vs, hvs, hl⟩ := hh _ _ _ ht _ (symbol_done (by decide) hend hr)
  exact ⟨_, hvs, by simpa using hl⟩

include he in
theorem assignment_sound : Sound (assignment expression) Statement := by
  rw [assignment_eq]
  exact ended_sound (assigned_sound he)

include he in
theorem expressionStatement_sound : Sound (expressionStatement expression) Statement :=
  ended_sound (expression_upToSemicolon he)

include he in
theorem statementAt_sound (depth : Nat) : Sound (statementAt expression depth) Statement := by
  induction depth with
  | zero =>
    intro text rest t h
    cases h
  | succ depth ih =>
    exact .orElse (functionDefinition_sound ih) (.orElse (conditional_sound he ih)
      (.orElse (assignment_sound he) (expressionStatement_sound he)))

end

/-! ## Programs -/

/-- Whatever is read as a program is one. -/
theorem program_sound {nesting : Nat} {text rest : List Char} {trees : List Tree}
    (h : program nesting text = .done trees rest) : rest = [] ∧ Derives text trees := by
  obtain ⟨body, mid, hbody, h⟩ := bind_eq_done.1 h
  obtain ⟨u, last, hend, h⟩ := bind_eq_done.1 h
  cases h
  obtain ⟨rfl, hm⟩ := ending_done hend
  have hs := statementAt_sound (expressionAt_sound nesting) nesting
  obtain ⟨vs, hvs, ht⟩ := hs.many _ _ _ hbody _ hm
  exact ⟨rfl, vs, by simpa using ht, hvs⟩

end Tama.Grammar
