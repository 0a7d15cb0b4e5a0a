import Tama.Proofs.Grammar.Acceptance
import Tama.Proofs.Grammar.Expansion

/-!
# Texts joined by line feeds

A line feed ends a comment and a word, and the columns of tabs start again after it. So the lexemes
of two texts joined by one are those of the first and then those of the second
(`Lexes.append_line`), and where both are programs the joined text is the program of all their
statements (`Derives.append_line`).
-/

set_option autoImplicit false

namespace Tama

theorem Tab.expandFrom_append_line (column : Nat) (text more : List Char) :
    expandFrom column (text ++ '\n' :: more) = expandFrom column text ++ '\n' :: expand more := by
  obtain ⟨column', h⟩ := expandFrom_append column text
  have hline : expandFrom column' ('\n' :: more) = '\n' :: expand more := by
    simp [expandFrom, expand]
  rw [h, hline]

theorem Tab.expand_append_line (text more : List Char) :
    expand (text ++ '\n' :: more) = expand text ++ '\n' :: expand more :=
  expandFrom_append_line 0 text more

namespace Grammar

open Tama.Parser

variable {text rest more : List Char} {w : Lexeme} {ws vs : List Lexeme}

/-! ## Lexemes -/

theorem Skips.append_line (h : Skips text rest) :
    Skips (text ++ '\n' :: more) (rest ++ '\n' :: more) := by
  induction h with
  | refl text => exact .refl _
  | gap hc _ ih => exact .gap hc ih
  | @comment body text rest hb ht _ ih =>
    rw [List.append_assoc]
    exact .comment hb (ht.append (notNext_cons.2 (by decide))) ih

/-- After what is skipped to its end, a text goes on with the next line. -/
theorem skip_append_line_of_nil (h : skip text = []) :
    skip (text ++ '\n' :: more) = skip more := by
  have hskips := skips_skip text
  rw [h] at hskips
  have hline : Skips (text ++ '\n' :: more) ('\n' :: more) := hskips.append_line
  have hgap : Skips ('\n' :: more) more := .gap (by decide) (.refl more)
  rw [hline.skip_eq, hgap.skip_eq]

/-- Where a text is not skipped to its end, the next line changes nothing. -/
theorem skip_append_line_of_cons {c : Char} {tail : List Char} (h : skip text = c :: tail) :
    skip (text ++ '\n' :: more) = c :: (tail ++ '\n' :: more) := by
  obtain ⟨hgap, hcomment⟩ := not_skipped_of_skip h
  have hskips := skips_skip text
  rw [h] at hskips
  rw [hskips.append_line.skip_eq]
  refine skip_cons hgap ?_
  cases tail with
  | nil => simpa using hcomment
  | cons d tail => simpa using hcomment

theorem Spells.append_line (h : Spells text w rest) :
    Spells (text ++ '\n' :: more) w (rest ++ '\n' :: more) := by
  obtain ⟨word, rfl, -, hfollow⟩ := h.exists_word
  rw [List.append_assoc]
  refine hfollow _ fun c hc => ?_
  cases rest with
  | nil =>
    cases hc
    exact .inr (by decide)
  | cons d rest => exact .inl hc

/-- What may be skipped does not change the lexemes. -/
theorem Lexes.append_line (h : Lexes text ws) (h' : Lexes more vs) :
    Lexes (text ++ '\n' :: more) (ws ++ vs) := by
  induction h with
  | @nil text hs =>
    have hskips : Skips (text ++ '\n' :: more) ('\n' :: more) := hs.append_line
    have hgap : Skips ('\n' :: more) more := .gap (by decide) (.refl more)
    exact hskips.lexes_iff.2 (hgap.lexes_iff.2 h')
  | cons hs hw _ ih => exact .cons hs.append_line hw.append_line ih

/-! ## Programs -/

theorem Star.append {α : Type} {G : List Lexeme → α → Prop} {as bs : List α} (h : Star G ws as)
    (h' : Star G vs bs) : Star G (ws ++ vs) (as ++ bs) := by
  induction h with
  | nil => exact h'
  | cons ha _ ih =>
    rw [List.append_assoc]
    exact .cons ha ih

theorem Derives.append_line {trees others : List Tree} (h : Derives text trees)
    (h' : Derives more others) : Derives (text ++ '\n' :: more) (trees ++ others) := by
  obtain ⟨ws, hlexed, hstar⟩ := h
  obtain ⟨vs, hlexed', hstar'⟩ := h'
  refine ⟨ws ++ vs, ⟨hlexed.lexes.append_line hlexed'.lexes, fun w hw => ?_⟩,
    hstar.append hstar'⟩
  exact (List.mem_append.1 hw).elim (hlexed.readable w) (hlexed'.readable w)

/-- A source text is a program that stands for these trees. -/
abbrev SourceDerives (source : String) (trees : List Tree) : Prop :=
  Derives (Tab.expand source.toList) trees

theorem SourceDerives.empty : SourceDerives "" [] :=
  ⟨[], ⟨.nil (.refl _), by simp⟩, .nil⟩

theorem SourceDerives.append {source other : String} {trees others : List Tree}
    (h : SourceDerives source trees) (h' : SourceDerives other others) :
    SourceDerives (source ++ "\n" ++ other) (trees ++ others) := by
  have htext : (source ++ "\n" ++ other).toList = source.toList ++ '\n' :: other.toList := by
    simp
  rw [SourceDerives, htext, Tab.expand_append_line]
  exact h.append_line h'

/-- The statements of several texts joined by line feeds are those of each, one after the other. -/
theorem SourceDerives.intercalate {sources : List String} {trees : List (List Tree)}
    (h : List.Forall₂ SourceDerives sources trees) :
    SourceDerives ("\n".intercalate sources) trees.flatten := by
  induction h with
  | nil => exact .empty
  | @cons source ts rest tss h hrest ih =>
    cases hrest with
    | nil => simpa using h
    | cons _ _ =>
      rw [String.intercalate_cons_cons]
      exact h.append ih

end Grammar
end Tama
