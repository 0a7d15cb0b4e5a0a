import Tama.Proofs.Grammar.Acceptance
import Tama.Proofs.Grammar.Tokens
import Tama.Proofs.Run

/-!
# Braces

Every delimiter that stands outside the comments of a text is a token of it (`countP_tokens`). Those
inside make the rest of what the text has (`count_eq`). The grammar opens a block and closes it, so
a program has as many opening braces among its tokens as closing ones (`read_balanced`), however
many its comments have.
-/

set_option autoImplicit false

namespace Tama.Lexer

open Grammar Run

/-! ## Comments -/

/-- The comment at the end of a line. -/
def commentOf (line : List Char) : List Char :=
  line.drop (stripComment line).length

/-- A text without its comments and line feeds. -/
def uncommented (text : List Char) : List Char :=
  (Position.lines text).flatMap stripComment

/-- The comments of a text. -/
def comments (text : List Char) : List Char :=
  (Position.lines text).flatMap commentOf

variable {c : Char} {text : List Char}

theorem stripComment_append_commentOf (line : List Char) :
    stripComment line ++ commentOf line = line := by
  induction line with
  | nil => rfl
  | cons c line ih =>
    rw [commentOf, stripComment]
    split
    · rfl
    · exact congrArg (c :: ·) ih

theorem count_lines (hc : c ≠ '\n') (text : List Char) :
    (Position.lines text).flatten.count c = text.count c := by
  induction text with
  | nil => rfl
  | cons d text ih =>
    by_cases hd : d = '\n'
    · subst hd
      rw [Position.lines_newline, List.flatten_cons, List.nil_append, ih,
        List.count_cons_of_ne (Ne.symm hc)]
    · obtain ⟨first, rest, htext, h⟩ := Position.lines_cons hd text
      rw [htext] at ih
      rw [h, List.flatten_cons, List.cons_append, List.count_cons, List.count_cons,
        ← List.flatten_cons, ih]

/-- A character stands in a text as often as in its comments and outside of them. -/
theorem count_eq (hc : c ≠ '\n') (text : List Char) :
    text.count c = (uncommented text).count c + (comments text).count c := by
  rw [← count_lines hc, uncommented, comments]
  induction Position.lines text with
  | nil => rfl
  | cons line rest ih =>
    have hline := congrArg (List.count c) (stripComment_append_commentOf line)
    rw [List.count_append] at hline
    rw [List.flatten_cons, List.flatMap_cons, List.flatMap_cons, List.count_append,
      List.count_append, List.count_append, ih, ← hline]
    omega

theorem comments_append_newline (text more : List Char) :
    comments (text ++ '\n' :: more) = comments text ++ comments more := by
  rw [comments, Position.lines_append_newline, List.flatMap_append]
  rfl

/-! ## Tokens -/

theorem isDelimiter_spec (h : isDelimiter c = true) : Digit.isDigit c = false ∧
    Word.isPart c = false ∧ Blank.isBlank c = false ∧ isOperator c = false := by
  have hall : ['(', ')', '\x7b', '\x7d', ',', ';'].all (fun d => !Digit.isDigit d &&
      !Word.isPart d && !Blank.isBlank d && !isOperator d) = true := by decide
  have hc := List.all_eq_true.1 hall c (of_decide_eq_true h)
  simpa [and_assoc] using hc

theorem count_eq_zero {p : Char → Bool} (hc : p c = false) {word : List Char}
    (h : ∀ d ∈ word, p d = true) : word.count c = 0 := by
  refine List.count_eq_zero_of_not_mem fun hm => ?_
  rw [h c hm] at hc
  cases hc

/-- A delimiter stands in a token exactly when it is the token. -/
theorem count_of_munch? (hc : isDelimiter c = true) {d : Char} {cs part rest : List Char}
    {l : Tama.Lexeme} (h : munch? d cs = some (.ok l, part, rest)) :
    (d :: part).count c = if l = .delimiter c then 1 else 0 := by
  obtain ⟨hdigit, hpart, -, hop⟩ := isDelimiter_spec hc
  rcases munch?_cases d cs with ⟨hd, hm⟩ | ⟨hd, hm⟩ | ⟨-, hm⟩ | ⟨-, -, -, hm⟩ <;> rw [hm] at h
  · obtain ⟨hl, hrest⟩ := Prod.mk.inj (Option.some.inj h)
    obtain ⟨rfl, -⟩ := Prod.mk.inj hrest
    have hint : l ≠ .delimiter c := by
      rintro rfl
      rw [Decimal.read] at hl
      split at hl <;> cases hl
    rw [if_neg hint]
    exact count_eq_zero hdigit (List.forall_mem_cons.2 ⟨hd, List.all_eq_true.1 List.all_takeWhile⟩)
  · obtain ⟨hl, hrest⟩ := Prod.mk.inj (Option.some.inj h)
    obtain ⟨rfl, -⟩ := Prod.mk.inj hrest
    have hword : l ≠ .delimiter c := by
      rintro rfl
      rw [ofWord] at hl
      split at hl <;> cases hl
    rw [if_neg hword]
    exact count_eq_zero hpart
      (List.forall_mem_cons.2 ⟨Word.isPart_of_isStart hd, List.all_eq_true.1 List.all_takeWhile⟩)
  · cases h
    rw [List.count_singleton, Grammar.Lexeme.token]
    by_cases hd : isOperator d = true
    · have hne : d ≠ c := by
        rintro rfl
        rw [hop] at hd
        cases hd
      simp [hd, hne]
    · simp [hd]
  · cases h

theorem scanLine_counted (hc : isDelimiter c = true) (filename : String) (line column : Nat)
    (cs : List Char) :
    Post (fun ts : List Token => ts.countP (·.lexeme = .delimiter c) = cs.count c)
      (fun _ => True) (scanLine filename line column cs) := by
  fun_induction scanLine filename line column cs with
  | case1 => exact .ok rfl
  | case2 _ d cs hblank ih =>
    have hne : d ≠ c := by
      rintro rfl
      rw [(isDelimiter_spec hc).2.2.1] at hblank
      cases hblank
    rwa [List.count_cons_of_ne hne]
  | case3 => exact .error trivial
  | case4 => exact .error trivial
  | case5 _ d cs hblank lexeme part rest hm _ ih =>
    have hcount := count_of_munch? hc hm
    refine ih.bind fun tokens ht => .ok ?_
    rw [← munch?_append hm, ← List.cons_append, List.count_append, hcount, List.countP_cons, ht,
      Nat.add_comm]
    simp only [decide_eq_true_eq]

theorem scanLines_counted (hc : isDelimiter c = true) (filename : String) (line : Nat)
    (texts : List (List Char)) :
    Post (fun ts : List Token =>
      ts.countP (·.lexeme = .delimiter c) = (texts.flatMap stripComment).count c)
      (fun _ => True) (scanLines filename line texts) := by
  induction texts generalizing line with
  | nil => exact .ok rfl
  | cons text rest ih =>
    refine (scanLine_counted hc filename line 1 (stripComment text)).bind fun tokens ht => ?_
    refine (ih (line + 1)).bind fun others ho => .ok ?_
    rw [List.countP_append, ht, ho, List.flatMap_cons, List.count_append]

/-- A delimiter is a token as often as it stands outside the comments. -/
theorem countP_tokens (hc : isDelimiter c = true) {source filename : String} {tokens : List Token}
    (h : tokenize source filename = .ok tokens) :
    tokens.countP (·.lexeme = .delimiter c) = (uncommented source.toList).count c := by
  have hpost := scanLines_counted hc filename 1 (Position.lines source.toList)
  rw [tokenize] at h
  rw [h] at hpost
  cases hpost with
  | ok h => exact h

end Tama.Lexer

namespace Tama.Grammar

/-! ## Programs -/

/-- Lexemes with as many opening braces as closing ones. -/
def Balanced (ws : List Lexeme) : Prop :=
  ws.count (.symbol '\x7b') = ws.count (.symbol '\x7d')

namespace Balanced

variable {ws vs : List Lexeme}

theorem nil : Balanced [] :=
  rfl

theorem append (h : Balanced ws) (h' : Balanced vs) : Balanced (ws ++ vs) := by
  rw [Balanced, List.count_append, List.count_append, h, h']

theorem cons {w : Lexeme} (hw : w ≠ .symbol '\x7b' ∧ w ≠ .symbol '\x7d') (h : Balanced ws) :
    Balanced (w :: ws) := by
  rwa [Balanced, List.count_cons_of_ne hw.1, List.count_cons_of_ne hw.2]

theorem block (h : Balanced ws) : Balanced (.symbol '\x7b' :: (ws ++ [.symbol '\x7d'])) := by
  have hopen : Lexeme.symbol '\x7b' ≠ .symbol '\x7d' := by decide
  have hother : [Lexeme.symbol '\x7d'].count (.symbol '\x7b') = 0 := by decide
  rw [Balanced, List.count_cons_self, List.count_append, hother, List.count_cons_of_ne hopen,
    List.count_append, h, List.count_singleton_self]

theorem symbol {c : Char} (hc : c ≠ '\x7b' ∧ c ≠ '\x7d') : Balanced [.symbol c] :=
  .cons (by simpa using hc) .nil

end Balanced

theorem Separated.parameters_balanced {ws : List Lexeme} {ps : List String}
    (h : Separated Parameter ws ps) : Balanced ws := by
  induction h with
  | one h =>
    cases h
    exact .cons (by simp) .nil
  | cons h _ ih =>
    cases h
    exact .cons (by simp) (.cons (by simp) ih)

theorem Listed.parameters_balanced {ws : List Lexeme} {ps : List String}
    (h : Listed Parameter ws ps) : Balanced ws := by
  cases h with
  | none => exact .nil
  | some h => exact h.parameters_balanced

mutual

theorem Operand.balanced {ws : List Lexeme} {t : Tree} : Operand ws t → Balanced ws
  | .integer _ => .cons (by simp) .nil
  | .true => .cons (by simp) .nil
  | .false => .cons (by simp) .nil
  | .null => .cons (by simp) .nil
  | .call _ h => .cons (by simp) (.cons (by simp) (h.balanced.append (.symbol (by decide))))
  | .var _ => .cons (by simp) .nil
  | .parenthesized h => .cons (by simp) ((Sum.balanced h).append (.symbol (by decide)))

theorem Sum.balanced {ws : List Lexeme} {t : Tree} : Sum Operand ws t → Balanced ws
  | .operand h => Operand.balanced h
  | .add hl hr => (Sum.balanced hl).append (.cons (by simp) (Operand.balanced hr))

theorem Listed.balanced {ws : List Lexeme} {ts : List Tree} :
    Listed (Sum Operand) ws ts → Balanced ws
  | .none => .nil
  | .some h => Separated.balanced h

theorem Separated.balanced {ws : List Lexeme} {ts : List Tree} :
    Separated (Sum Operand) ws ts → Balanced ws
  | .one h => Sum.balanced h
  | .cons h hs => (Sum.balanced h).append (.cons (by simp) (Separated.balanced hs))

end

mutual

theorem Statement.balanced {ws : List Lexeme} {t : Tree} : Statement ws t → Balanced ws
  | .definition f hp hb => .cons (by simp) (.cons (by simp) (.cons (by simp)
      (hp.parameters_balanced.append (.cons (by simp) (.block (Star.balanced hb))))))
  | .conditional hc hb => .cons (by simp) (.cons (by simp)
      ((Sum.balanced hc).append (.cons (by simp) (.block (Star.balanced hb)))))
  | .assignment x h => .cons (by simp) (.cons (by simp)
      ((Sum.balanced h).append (.symbol (by decide))))
  | .expression h => (Sum.balanced h).append (.symbol (by decide))

theorem Star.balanced {ws : List Lexeme} {ts : List Tree} :
    Star Statement ws ts → Balanced ws
  | .nil => .nil
  | .cons h hs => (Statement.balanced h).append (Star.balanced hs)

end

theorem token_eq_delimiter_iff {c : Char} (hc : Lexer.isDelimiter c = true) (w : Lexeme) :
    w.token = .delimiter c ↔ w = .symbol c := by
  cases w with
  | symbol d =>
    rw [Lexeme.token]
    by_cases hd : Lexer.isOperator d = true
    · have hne : d ≠ c := by
        rintro rfl
        rw [(Lexer.isDelimiter_spec hc).2.2.2] at hd
        cases hd
      simp [hd, hne]
    · simp [hd]
  | _ => simp [Lexeme.token]

/-- The braces outside the comments of a program are balanced. -/
theorem read_balanced {source filename : String} {trees : List Tree}
    (h : Program.read source filename = .ok trees) :
    (Lexer.uncommented source.toList).count '\x7b' =
      (Lexer.uncommented source.toList).count '\x7d' := by
  obtain ⟨ws, hws, hs⟩ := read_eq_ok.1 h
  obtain ⟨tokens, htokens, hmap⟩ :=
    tokens_of_lexes (lexes_expandFrom.1 hws.lexes) hws.readable filename 1 1
  rw [← Lexer.tokenize_eq_scanFrom] at htokens
  have hcount : ∀ c, Lexer.isDelimiter c = true →
      (Lexer.uncommented source.toList).count c = ws.count (.symbol c) := by
    intro c hc
    calc
      (Lexer.uncommented source.toList).count c = tokens.countP (·.lexeme = .delimiter c) :=
        (Lexer.countP_tokens hc htokens).symm
      _ = (tokens.map Token.lexeme).countP (· = .delimiter c) := by
        rw [List.countP_map]
        rfl
      _ = ws.countP (·.token = .delimiter c) := by
        rw [hmap, List.countP_map]
        rfl
      _ = ws.count (.symbol c) := by
        simp only [token_eq_delimiter_iff hc, List.count, beq_eq_decide]
  rw [hcount _ (by decide), hcount _ (by decide)]
  exact hs.balanced

end Tama.Grammar
