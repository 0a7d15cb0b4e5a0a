import Tama.Proofs.Grammar.Joined
import Tama.Proofs.Grammar.Parting
import Tama.Proofs.Grammar.Progress

/-!
# A single expression, and a program that is one

An expression can be read alone, or as the statement of a program, with a semicolon on a line of its
own behind it. The readers of an expression keep in step on the two texts: none of them takes a
semicolon, and what is skipped at the end of the first text is skipped in the second one up to the
semicolon (`expressionAt_terminated`). So the expression ends where its text does exactly if the
semicolon comes next, and it is the only statement exactly then (`readExpression_iff_read`).
-/

set_option autoImplicit false

namespace Tama

/-- The tags of the trees that stand for expressions. -/
def Tree.expressionTags : List String :=
  ["INT", "BOOL", "NULL", "VARIABLE", "ADD", "FUNCTION_CALL"]

namespace Grammar

open Tama.Parser

/-! ## Texts with a semicolon behind them -/

/-- The second text is the first one with a semicolon on a line of its own behind it. -/
def Terminated (text text' : List Char) : Prop :=
  text' = text ++ '\n' :: [';']

section
variable {text text' rest : List Char}

theorem Terminated.skip_cases (h : Terminated text text') :
    (skip text = [] ∧ skip text' = [';']) ∨
    ∃ c tail, skip text = c :: tail ∧ skip text' = c :: (tail ++ '\n' :: [';']) := by
  subst h
  cases hs : skip text with
  | nil => exact .inl ⟨rfl, skip_append_line_of_nil hs⟩
  | cons c tail => exact .inr ⟨c, tail, rfl, skip_append_line_of_cons hs⟩

/-- The semicolon is not skipped. -/
theorem Terminated.skip_ne_nil (h : Terminated text text') : skip text' ≠ [] := by
  rcases h.skip_cases with ⟨-, hs⟩ | ⟨c, tail, -, hs⟩ <;> simp [hs]

theorem finishes_nil : Finishes [] := by
  intro inComment c hc
  cases inComment <;> cases hc

theorem finishes_semicolon : Finishes ('\n' :: [';']) := by
  intro inComment c hc
  have hskip : skipFrom inComment ('\n' :: [';']) = [';'] := by cases inComment <;> decide
  rw [hskip] at hc
  cases hc
  rfl

theorem terminated_iff : Terminated text text' ↔ Parted [] ('\n' :: [';']) text text' := by
  simp [Terminated, Parted]

end

/-- An expression is read in step with a semicolon behind its text. -/
theorem expressionAt_terminated (depth : Nat) :
    Lockstep Terminated Terminated (expressionAt depth) := by
  have hsame : Terminated = Parted [] ('\n' :: [';']) :=
    funext fun text => funext fun text' => propext terminated_iff
  rw [hsame]
  exact expressionAt_parted finishes_nil finishes_semicolon depth

/-! ## Statements -/

/-- What a parser reads has a property. -/
def Gives {α : Type} (P : α → Prop) (p : Parser α) : Prop :=
  ∀ text a rest, p text = .done a rest → P a

theorem Gives.pure {α : Type} {P : α → Prop} {a : α} (h : P a) : Gives P (pure a : Parser α) := by
  intro text b rest hb
  cases hb
  exact h

theorem Gives.bind {α β : Type} {P : β → Prop} {p : Parser α} {f : α → Parser β}
    (hf : ∀ a, Gives P (f a)) : Gives P (p >>= f) := by
  intro text b rest h
  obtain ⟨a, mid, -, h⟩ := bind_eq_done.1 h
  exact hf a mid b rest h

/-- A node has this tag. -/
def Tagged (tag : String) (t : Tree) : Prop :=
  t.tag = .ok (.text tag)

section
variable (expression statement : Parser Tree)

theorem functionDefinition_tagged :
    Gives (Tagged "FUNCTION_DEF") (functionDefinition statement) :=
  .bind fun _ => .bind fun _ => .bind fun _ => .bind fun _ => .bind fun _ => .bind fun _ =>
    .pure rfl

theorem conditional_tagged : Gives (Tagged "IF") (conditional expression statement) :=
  .bind fun _ => .bind fun _ => .bind fun _ => .bind fun _ => .bind fun _ => .pure rfl

theorem assignment_tagged : Gives (Tagged "ASSIGNMENT") (assignment expression) :=
  .bind fun _ => .bind fun _ => .bind fun _ => .bind fun _ => .pure rfl

variable {expression statement} {depth : Nat} {text rest : List Char} {tag : String} {t : Tree}

/-- A statement with another tag than those of the statements with blocks ends with a semicolon. -/
theorem statementAt_of_tag (htag : Tagged tag t) (hblock : tag ∉ ["FUNCTION_DEF", "IF"])
    (h : statementAt expression depth text = .done t rest) :
    assignment expression text = .done t rest ∨
      expressionStatement expression text = .done t rest := by
  have other : ∀ tag', tag' ∈ ["FUNCTION_DEF", "IF"] → ¬ Tagged tag' t := by
    intro tag' hmem htag'
    cases htag.symm.trans htag'
    exact hblock hmem
  cases depth with
  | zero => cases h
  | succ depth =>
    rcases orElse_eq_done.1 h with h | ⟨-, h⟩
    · exact absurd (functionDefinition_tagged _ _ _ _ h) (other _ (by simp))
    rcases orElse_eq_done.1 h with h | ⟨-, h⟩
    · exact absurd (conditional_tagged _ _ _ _ _ h) (other _ (by simp))
    · exact (orElse_eq_done.1 h).imp_right And.right

/-- A statement with the tag of an expression is an expression. -/
theorem expressionStatement_of_tag (he : ∃ tag ∈ Tree.expressionTags, Tagged tag t)
    (h : statementAt expression depth text = .done t rest) :
    expressionStatement expression text = .done t rest := by
  obtain ⟨tag, hmem, htag⟩ := he
  have hblock : ∀ tag ∈ Tree.expressionTags, tag ∉ ["FUNCTION_DEF", "IF"] := by decide
  refine (statementAt_of_tag htag (hblock tag hmem) h).resolve_left fun h => ?_
  cases htag.symm.trans (assignment_tagged _ _ _ _ h)
  exact absurd hmem (by decide)

end

section
variable {nesting : Nat} {text rest : List Char} {e : Tree}

theorem wholeExpression_eq_done {last : List Char} : wholeExpression nesting text = .done e last ↔
    last = [] ∧ ∃ rest, expressionAt nesting text = .done e rest ∧ skip rest = [] := by
  constructor
  · intro h
    obtain ⟨e', rest, he, h⟩ := bind_eq_done.1 h
    obtain ⟨u, mid, hend, h⟩ := bind_eq_done.1 h
    cases h
    obtain ⟨hlast, hlexed⟩ := ending_done hend
    exact ⟨hlast, rest, he, lexes_nil_iff.1 hlexed.lexes⟩
  · rintro ⟨rfl, rest, he, hskip⟩
    rw [wholeExpression, bind_apply, he]
    simp only [bind_apply, ending, hskip]
    rfl

/-- What ends with its text is a statement with the semicolon. -/
theorem statement_of_expression (h : expressionAt nesting text = .done e rest)
    (hrest : skip rest = []) :
    statementAt (expressionAt nesting) nesting (text ++ '\n' :: [';']) = .done e [] := by
  obtain ⟨mid, hmid, rfl⟩ := (expressionAt_terminated nesting).done rfl h
  have hskip : skip (rest ++ '\n' :: [';']) = [';'] := skip_append_line_of_nil hrest
  have hat : At expressionEnds (rest ++ '\n' :: [';']) := ⟨';', by decide, by rw [hskip]; rfl⟩
  have hbare := expressionAt_bare hmid hat
  cases nesting with
  | zero => cases h
  | succ nesting =>
    rw [hbare.statementAt_eq, expressionStatement, bind_apply, hmid]
    simp only [bind_apply, symbol_of_skip hskip]
    rfl

/-- An expression that is a statement with the semicolon ends with its text. -/
theorem expression_of_statement
    (h : expressionStatement (expressionAt nesting) (text ++ '\n' :: [';']) = .done e rest)
    (hrest : skip rest = []) :
    ∃ last, expressionAt nesting text = .done e last ∧ skip last = [] := by
  obtain ⟨e', mid, he, h⟩ := bind_eq_done.1 h
  obtain ⟨u, after, hsemi, h⟩ := bind_eq_done.1 h
  cases h
  obtain ⟨last, hlast, hmid⟩ := (expressionAt_terminated nesting).done_right rfl he
  refine ⟨last, hlast, ?_⟩
  rcases hmid.skip_cases with ⟨hnil, -⟩ | ⟨c, tail, -, hs⟩
  · exact hnil
  · -- the semicolon that was read is another one, so the last one is left
    rw [symbol_eq_done hsemi] at hs
    obtain ⟨-, rfl⟩ := List.cons.inj hs
    have hterminated : Terminated tail (tail ++ '\n' :: [';']) := rfl
    exact absurd hrest hterminated.skip_ne_nil

/-- An expression ends with its text exactly if it is the only statement with the semicolon. -/
theorem expressionAt_iff_program (hn : 0 < nesting)
    (he : ∃ tag ∈ Tree.expressionTags, Tagged tag e) :
    (∃ rest, expressionAt nesting text = .done e rest ∧ skip rest = []) ↔
      program nesting (text ++ '\n' :: [';']) = .done [e] [] := by
  rw [program_eq_done hn]
  constructor
  · rintro ⟨rest, hexp, hrest⟩
    exact ⟨[], .cons (statement_of_expression hexp hrest) (.nil []), rfl⟩
  · rintro ⟨gap, hchain, hgap⟩
    cases hchain with
    | cons hstatement hnil =>
      cases hnil
      exact expression_of_statement (expressionStatement_of_tag he hstatement) hgap

end

/-! ## Sources -/

theorem readExpression_eq_ok {source filename : String} {e : Tree} {nesting : Nat}
    (h : (Tab.expand source.toList).length < nesting) :
    Program.readExpression source filename = .ok e ↔
      ∃ rest, expressionAt nesting (Tab.expand source.toList) = .done e rest ∧
        skip rest = [] := by
  unfold Program.readExpression Program.readWith unlimited
  simp only [wholeExpression_stable (Nat.lt_succ_self _) h]
  constructor
  · intro h
    split at h
    · rename_i hp
      cases h
      exact (wholeExpression_eq_done.1 hp).2
    · cases h
    · cases h
  · intro h
    rw [wholeExpression_eq_done.2 ⟨rfl, h⟩]

/-- **The two entry points agree.** A text is read alone as an expression exactly if, with a
semicolon on a line of its own behind it, it is a program with this expression for its only
statement. -/
theorem readExpression_iff_read (source filename : String) (e : Tree)
    (he : ∃ tag ∈ Tree.expressionTags, e.tag = .ok (.text tag)) :
    Program.readExpression source filename = .ok e ↔
      Program.read (source ++ "\n;") filename = .ok [e] := by
  have hexpand : Tab.expand (source ++ "\n;").toList =
      Tab.expand source.toList ++ '\n' :: [';'] := by
    have h := Tab.expand_append_line source.toList [';']
    rw [String.toList_append]
    exact h
  -- the nesting of the longer text is enough for both
  obtain ⟨n, hn⟩ : ∃ n, (Tab.expand (source ++ "\n;").toList).length < n := ⟨_, Nat.lt_succ_self _⟩
  have hfirst : (Tab.expand source.toList).length < n := by
    rw [hexpand, List.length_append] at hn
    omega
  rw [readExpression_eq_ok hfirst, read_eq_ok_iff_program hn, hexpand]
  exact expressionAt_iff_program (Nat.zero_lt_of_lt hn) he

/-- The semicolon stands behind the comment, not in it. -/
theorem readExpression_iff_read_behind_comment :
    Program.readExpression "f(1) // call;" "" = .ok (.call "f" [.int 1]) ∧
      Program.read ("f(1) // call;" ++ "\n;") "" = .ok [.call "f" [.int 1]] := by
  have program : program 5 (Tab.expand ("f(1) // call;" ++ "\n;").toList) =
      .done [.call "f" [.int 1]] [] := by cbv
  have read : Program.read ("f(1) // call;" ++ "\n;") "" = .ok [.call "f" [.int 1]] :=
    read_of_program program
  have tagged : ∃ tag ∈ Tree.expressionTags, (Tree.call "f" [.int 1]).tag = .ok (.text tag) :=
    ⟨"FUNCTION_CALL", by decide, rfl⟩
  exact ⟨(readExpression_iff_read "f(1) // call;" "" _ tagged).2 read, read⟩

end Grammar
end Tama
