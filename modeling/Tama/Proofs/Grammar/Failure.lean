import Tama.Proofs.Grammar.Nesting
import Tama.Proofs.ParseError

/-!
# Where a parser fails

A parser goes through its text from left to right, whatever the rule: it leaves an end of the text,
and where it fails, it fails in front of a character that is not skipped, or at the end of the text
(`Onward`). So a failure is never inside a gap or a comment.
-/

set_option autoImplicit false

namespace Tama.Grammar

open Tama.Parser

/-- A parser that leaves an end of its text, and that fails behind gaps and comments. -/
structure Onward {α : Type} (p : Parser α) : Prop where
  done : ∀ text a rest, p text = .done a rest → rest <:+ text
  failed : ∀ text rest wanted, p text = .failed rest wanted → rest <:+ text ∧ skip rest = rest

/-! ## Words and symbols -/

theorem Skips.suffix {text rest : List Char} (h : Skips text rest) : rest <:+ text := by
  induction h with
  | refl text => exact List.suffix_refl text
  | gap _ _ ih => exact ih.trans (List.suffix_cons ..)
  | comment _ _ _ ih => exact ih.trans (List.suffix_append ..)

theorem Spells.suffix {text rest : List Char} {w : Lexeme} (h : Spells text w rest) :
    rest <:+ text := by
  cases h with
  | symbol _ => exact List.suffix_cons ..
  | _ => exact List.suffix_append ..

theorem skip_suffix (text : List Char) : skip text <:+ text :=
  (skips_skip text).suffix

/-- A parser that looks at what is not skipped, and fails there. -/
theorem Onward.of_skip {α : Type} {p : Parser α}
    (hd : ∀ text a rest, p text = .done a rest → rest <:+ skip text)
    (hf : ∀ text rest wanted, p text = .failed rest wanted → rest = skip text) : Onward p := by
  constructor
  · exact fun text a rest h => (hd text a rest h).trans (skip_suffix text)
  · intro text rest wanted h
    rw [hf text rest wanted h]
    exact ⟨skip_suffix text, skip_skip text⟩

theorem symbol_onward (c : Char) : Onward (symbol c) := by
  refine .of_skip (fun text u rest h => ?_) (fun text rest wanted h => ?_)
  · rw [symbol_eq_done h]
    exact List.suffix_cons ..
  · unfold symbol at h
    split at h
    · rename_i hs
      split at h <;> cases h
      exact hs.symm
    · rename_i hs
      cases h
      exact hs.symm

theorem keyword_onward (k : Keyword) : Onward (keyword k) := by
  refine .of_skip (fun text u rest h => (keyword_eq_done h).suffix) (fun text rest wanted h => ?_)
  unfold keyword at h
  split at h <;> cases h
  rfl

theorem name_onward : Onward name := by
  refine .of_skip (fun text x rest h => ?_) (fun text rest wanted h => ?_)
  · obtain ⟨c, tail, hs, -, -, -, rfl⟩ := name_eq_done h
    rw [hs]
    exact (List.dropWhile_suffix _).trans (List.suffix_cons ..)
  · unfold name at h
    split at h
    · rename_i hs
      split at h <;> cases h
      exact hs.symm
    · rename_i hs
      cases h
      exact hs.symm

theorem integer_onward : Onward integer := by
  refine .of_skip (fun text n rest h => ?_) (fun text rest wanted h => ?_)
  · obtain ⟨digits, -, -, hs⟩ := integer_spells h
    exact hs.suffix
  · unfold integer at h
    simp only at h
    split at h
    · cases h
      rfl
    · split at h <;> cases h

theorem openOperand_onward : Onward openOperand := by
  refine .of_skip (fun text u rest h => ?_) (fun text rest wanted h => ?_)
  · unfold openOperand at h
    split at h
    · rename_i hs
      cases h
      rw [hs]
      exact List.suffix_cons ..
    · cases h
  · unfold openOperand at h
    split at h <;> cases h
    rfl

theorem ending_onward : Onward ending := by
  refine .of_skip (fun text u rest h => ?_) (fun text rest wanted h => ?_)
  · unfold ending at h
    split at h <;> cases h
    exact List.nil_suffix
  · unfold ending at h
    split at h <;> cases h
    rfl

/-! ## Combinators -/

namespace Onward

variable {α β : Type} {p q : Parser α}

theorem pure (a : α) : Onward (pure a : Parser α) := by
  constructor
  · intro text b rest h
    cases h
    exact List.suffix_refl _
  · intro text rest wanted h
    cases h

theorem bind {f : α → Parser β} (hp : Onward p) (hf : ∀ a, Onward (f a)) :
    Onward (p >>= f) := by
  constructor
  · intro text b rest h
    obtain ⟨a, mid, ha, h⟩ := bind_eq_done.1 h
    exact ((hf a).done mid b rest h).trans (hp.done text a mid ha)
  · intro text rest wanted h
    rw [bind_apply] at h
    split at h
    · rename_i a mid ha
      obtain ⟨hrest, hskip⟩ := (hf a).failed mid rest wanted h
      exact ⟨hrest.trans (hp.done text a mid ha), hskip⟩
    · rename_i rest' wanted' hfail
      cases h
      exact hp.failed text rest wanted hfail
    · cases h

theorem orElse (hp : Onward p) (hq : Onward q) : Onward (Parser.orElse p q) := by
  constructor
  · intro text a rest h
    rcases orElse_eq_done.1 h with h | ⟨-, h⟩
    · exact hp.done text a rest h
    · exact hq.done text a rest h
  · intro text rest wanted h
    unfold Parser.orElse at h
    split at h
    · exact hq.failed text rest wanted h
    · exact hp.failed text rest wanted h

theorem repeatUpTo (hp : Onward p) (n : Nat) : Onward (Parser.repeatUpTo p n) := by
  induction n with
  | zero => exact .pure []
  | succ n ih =>
    constructor
    · intro text as rest h
      unfold Parser.repeatUpTo at h
      split at h
      · rename_i a mid ha
        split at h <;> cases h
        rename_i as' hl
        exact (ih.done mid as' rest hl).trans (hp.done text a mid ha)
      · cases h
        exact List.suffix_refl _
      · cases h
    · intro text rest wanted h
      unfold Parser.repeatUpTo at h
      split at h
      · rename_i a mid ha
        split at h <;> cases h
        rename_i hl
        obtain ⟨hrest, hskip⟩ := ih.failed mid rest wanted hl
        exact ⟨hrest.trans (hp.done text a mid ha), hskip⟩
      · cases h
      · cases h

theorem many (hp : Onward p) : Onward (Parser.many p) :=
  ⟨fun text => (hp.repeatUpTo text.length).done text,
    fun text => (hp.repeatUpTo text.length).failed text⟩

theorem listed (hp : Onward p) : Onward (orEmpty (separatedBy (symbol ',') p)) := by
  refine .orElse (hp.bind fun a => .bind (.many ?_) fun as => .pure _) (.pure [])
  exact (symbol_onward ',').bind fun _ => hp

end Onward

/-! ## Rules -/

theorem operand_onward {expression : Parser Tree} (he : Onward expression) :
    Onward (operand expression) := by
  refine .orElse ?integer (.orElse (.orElse ?true ?false) (.orElse ?null (.orElse ?call
    (.orElse ?var ?paren))))
  case integer => exact integer_onward.bind fun _ => .pure _
  case true => exact (keyword_onward _).bind fun _ => .pure _
  case false => exact (keyword_onward _).bind fun _ => .pure _
  case null => exact (keyword_onward _).bind fun _ => .pure _
  case call =>
    refine name_onward.bind fun f => .bind ?_ fun args => .pure _
    exact (symbol_onward '(').bind fun _ => he.listed.bind fun args =>
      (symbol_onward ')').bind fun _ => .pure args
  case var => exact name_onward.bind fun _ => .pure _
  case paren =>
    exact openOperand_onward.bind fun _ => he.bind fun e =>
      (symbol_onward ')').bind fun _ => .pure e

theorem expressionAt_onward (depth : Nat) : Onward (expressionAt depth) := by
  induction depth with
  | zero => exact ⟨nofun, nofun⟩
  | succ depth ih =>
    have ho := operand_onward ih
    refine ho.bind fun first => .bind (.many ?_) fun rest => .pure _
    exact (symbol_onward '+').bind fun _ => ho

section
variable {expression statement : Parser Tree}

theorem block_onward (hs : Onward statement) : Onward (block statement) :=
  (symbol_onward '{').bind fun _ => hs.many.bind fun body =>
    (symbol_onward '}').bind fun _ => .pure body

theorem statementAt_onward (he : Onward expression) (depth : Nat) :
    Onward (statementAt expression depth) := by
  induction depth with
  | zero => exact ⟨nofun, nofun⟩
  | succ depth ih =>
    have hb := block_onward ih
    refine .orElse ?definition (.orElse ?conditional (.orElse ?assignment ?expression))
    case definition =>
      refine (keyword_onward _).bind fun _ => name_onward.bind fun f => ?_
      refine (symbol_onward _).bind fun _ => name_onward.listed.bind fun params => ?_
      exact (symbol_onward _).bind fun _ => hb.bind fun body => .pure _
    case conditional =>
      refine (keyword_onward _).bind fun _ => (symbol_onward _).bind fun _ => ?_
      exact he.bind fun c => (symbol_onward _).bind fun _ => hb.bind fun body => .pure _
    case assignment =>
      refine name_onward.bind fun x => (symbol_onward _).bind fun _ => ?_
      exact he.bind fun e => (symbol_onward _).bind fun _ => .pure _
    case expression => exact he.bind fun e => (symbol_onward _).bind fun _ => .pure e

end

theorem program_onward (nesting : Nat) : Onward (program nesting) :=
  (statementAt_onward (expressionAt_onward nesting) nesting).many.bind fun body =>
    ending_onward.bind fun _ => .pure body

theorem wholeExpression_onward (nesting : Nat) : Onward (wholeExpression nesting) :=
  (expressionAt_onward nesting).bind fun e => ending_onward.bind fun _ => .pure e

theorem Onward.unlimited {α : Type} {p : Nat → Parser α} (h : ∀ nesting, Onward (p nesting)) :
    Onward (Parser.unlimited p) :=
  ⟨fun text => (h _).done text, fun text => (h _).failed text⟩

/-! ## Reports -/

/-- A syntax error is the report of a failure in the expanded source, in front of what is not
skipped. -/
theorem readWith_failure {α : Type} {p : Parser α} (hp : Onward p) {source filename : String}
    {e : ParseError} (h : Program.readWith p source filename = .error (.syntaxError e)) :
    ∃ before rest wanted, Tab.expand source.toList = before ++ rest ∧ skip rest = rest ∧
      p (before ++ rest) = .failed rest wanted ∧
      ParseFailure.report ⟨before ++ rest, before.length, wanted.message⟩ source filename =
        some e := by
  obtain ⟨rest, wanted, hfailed, hreport⟩ := Program.readWith_syntaxError h
  obtain ⟨⟨before, htext⟩, hskip⟩ := hp.failed _ rest wanted hfailed
  rw [← htext] at hfailed hreport
  rw [List.length_append, Nat.add_sub_cancel] at hreport
  exact ⟨before, rest, wanted, htext.symm, hskip, hfailed, hreport⟩

end Tama.Grammar
