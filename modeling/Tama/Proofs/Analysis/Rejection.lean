import Tama.Proofs.Analysis
import Tama.Proofs.Grammar.Acceptance
import Tama.Proofs.Tree.Subtrees

/-!
# What analysis rejects

On what the parser returns, analysis finds fault with nothing but the parameters of function
definitions. It looks at these at every depth and in source order, rejects the first definition in
which a name comes twice, and names the first parameter that does. Only the stack can run out before
(`program_judged`); it does for a sum with too many terms (`flat_sum_tooDeep`).

`Judged ts fits x`: the outcome `x` is what has to come of going through the trees `ts`, for which
the stack has room if `fits` holds. The parts of an analysis are judged one after the other
(`Judged.bind`), so a definition is only reported when there is nothing to report to its left.
-/

set_option autoImplicit false

namespace Tama

/-! ## Distinct parameters -/

/-- The definitions among some trees have distinct parameters. -/
def Tree.Distinct (ts : List Tree) : Prop :=
  ∀ f params body, .definition f params body ∈ ts → params.Nodup

namespace Tree.Distinct

variable {t : Tree} {ts us : List Tree}

theorem nil : Distinct [] := by
  rintro f params body ⟨⟩

theorem append (h : Distinct ts) (h' : Distinct us) : Distinct (ts ++ us) :=
  fun f params body hm => (List.mem_append.1 hm).elim (h f params body) (h' f params body)

theorem not_of_repeated {f p : String} {params : List String} {body before after : List Tree}
    (h : FirstRepeated p params) : ¬ Distinct (before ++ .definition f params body :: after) :=
  fun hd => h.not_nodup
    (hd f params body (List.mem_append_right _ List.mem_cons_self))

/-- Nothing is defined in an expression. -/
theorem of_isExpression (h : t.IsExpression) : Distinct t.subtrees := by
  intro f params body hm
  cases h.of_mem_subtrees hm

end Tree.Distinct

namespace Analysis

open Tama.Tree

/-! ## Judgements -/

/-- What has to come of an analysis that goes through some trees: a result if the definitions among
them have distinct parameters and the stack has room for them, and otherwise a report of the first
definition that has not, unless the stack runs out. -/
inductive Judged {α : Type} (ts : List Tree) (fits : Prop) : Except AnalysisFailure α → Prop
  | accepted {a : α} : Distinct ts → fits → Judged ts fits (.ok a)
  | rejected {f p : String} {params : List String} {body before after : List Tree} :
      ts = before ++ .definition f params body :: after → Distinct before →
      FirstRepeated p params → Judged ts fits (.error (.semantic
        ⟨.duplicateParameter p f, "FUNCTION_DEF", .definition f params body⟩))
  | tooDeep : ¬ fits → Judged ts fits (.error (.fault .tooDeep))

namespace Judged

variable {α β : Type} {t : Tree} {ts us : List Tree} {fits fits' : Prop}
  {x : Except AnalysisFailure α}

theorem congr (h : fits ↔ fits') (hx : Judged ts fits x) : Judged ts fits' x :=
  propext h ▸ hx

/-- Trees with nothing to report may come before. -/
theorem behind (h : Distinct ts) (hx : Judged us fits x) : Judged (ts ++ us) fits x := by
  cases hx with
  | accepted hd hf => exact .accepted (h.append hd) hf
  | @rejected f p params body before after heq hd hp =>
    have heq' : ts ++ us = (ts ++ before) ++ .definition f params body :: after := by
      rw [heq, List.append_assoc]
    exact .rejected heq' (h.append hd) hp
  | tooDeep hf => exact .tooDeep hf

theorem bind {g : α → Except AnalysisFailure β} (hx : Judged ts fits x)
    (hg : ∀ a, Judged us fits' (g a)) : Judged (ts ++ us) (fits ∧ fits') (x.bind g) := by
  cases hx with
  | accepted hd hf => exact ((hg _).behind hd).congr (and_iff_right hf).symm
  | @rejected f p params body before after heq hd hp =>
    have heq' : ts ++ us = before ++ .definition f params body :: (after ++ us) := by
      rw [heq, List.append_assoc, List.cons_append]
    exact .rejected heq' hd hp
  | tooDeep hf => exact .tooDeep fun h => hf h.1

theorem map {g : α → β} (hx : Judged ts fits x) :
    Judged ts fits (x.bind fun a => .ok (g a)) := by
  rw [← List.append_nil ts]
  exact (hx.bind fun a => .accepted .nil trivial).congr (and_iff_left trivial)

/-- Frames are reserved before anything is looked at. -/
theorem reserved {frames room : Nat} (hx : Judged ts fits x) :
    Judged ts (frames ≤ room ∧ fits) ((within frames room ()).bind fun _ => x) := by
  by_cases h : frames ≤ room
  · rw [within_of_le h]
    exact hx.congr (and_iff_right h).symm
  · rw [within_of_lt (Nat.not_le.1 h)]
    exact .tooDeep fun hf => h hf.1

/-- A tree that is no definition, or one with distinct parameters, is passed by. -/
theorem cons (h : ∀ f params body, t = .definition f params body → params.Nodup)
    (hx : Judged ts fits x) : Judged (t :: ts) fits x :=
  behind (fun f params body hm => h f params body (List.mem_singleton.1 hm).symm) hx

end Judged

/-! ## Analyses -/

theorem expression_judged {t : Tree} (h : t.IsExpression) (room : Nat) :
    Judged t.subtrees (t.expressionFrames ≤ room) (expression room t).outcome := by
  obtain ⟨e, -, he⟩ := exists_gives h
  rw [he]
  unfold within
  split
  · rename_i hf
    exact .accepted (.of_isExpression h) hf
  · rename_i hf
    exact .tooDeep hf

theorem block_judged_of {body : List Tree} (room : Nat)
    (h : ∀ t ∈ body, ∀ room, Judged t.subtrees (t.statementFrames ≤ room)
      (statement room t).outcome) :
    Judged (subtreesAll body) (blockFrames body ≤ room) (block room body).outcome := by
  induction body with
  | nil => exact .accepted .nil (Nat.zero_le room)
  | cons t rest ih =>
    rw [block_cons_outcome, blockFrames]
    refine Judged.congr Nat.max_le.symm ((h t List.mem_cons_self room).bind fun s => ?_)
    exact (ih fun t ht => h t (List.mem_cons_of_mem _ ht)).map

theorem statement_judged {t : Tree} (h : t.IsStatement) (room : Nat) :
    Judged t.subtrees (t.statementFrames ≤ room) (statement room t).outcome := by
  induction h generalizing room with
  | @expression t h =>
    have hpos := t.two_le_expressionFrames
    rw [statement_expression_outcome h, h.statement_frames]
    exact (expression_judged h (room - 1)).reserved.congr (by omega)
  | @assignment x e h =>
    have hpos := e.two_le_expressionFrames
    rw [statement_assignment_outcome, subtrees, statementFrames]
    exact .cons (by rintro _ _ _ ⟨⟩)
      ((expression_judged h (room - 1)).map.reserved.congr (by omega))
  | @conditional c body hc _ ih =>
    have hpos := c.two_le_expressionFrames
    rw [statement_conditional_outcome, subtrees, statementFrames]
    refine .cons (by rintro _ _ _ ⟨⟩) (Judged.congr ?_ (.reserved
      ((expression_judged hc (room - 1)).bind fun c => (block_judged_of (room - 3) ih).map)))
    omega
  | @definition f params body _ ih =>
    rw [statement_definition_outcome]
    rcases distinctParameters_outcome f params body with ⟨hd, ho⟩ | ⟨p, hp, ho⟩
    · rw [ho, subtrees, statementFrames]
      refine .cons ?_ ((block_judged_of (room - 4) ih).map.reserved.congr (by omega))
      rintro g qs b ⟨⟩
      exact hd
    · rw [ho, subtrees, statementFrames]
      exact (Judged.rejected (List.nil_append _).symm .nil hp).reserved.congr
        (and_iff_right_of_imp (Nat.le_of_add_left_le ·))

/-! ## Sums with many terms -/

/-- `1+1+1` and so on, with so many additions. -/
def flatSum : Nat → Tree
  | 0 => .int 1
  | n + 1 => .add (flatSum n) (.int 1)

/-- The text of such a sum. -/
def flatText : Nat → List Char
  | 0 => ['1']
  | n + 1 => flatText n ++ ['+', '1']

/-- Its lexemes. -/
def flatLexemes : Nat → List Grammar.Lexeme
  | 0 => [.integer ['1']]
  | n + 1 => flatLexemes n ++ [.symbol '+', .integer ['1']]

theorem flatSum_isExpression (n : Nat) : (flatSum n).IsExpression := by
  induction n with
  | zero => exact .int 1
  | succ n ih => exact .add ih (.int 1)

/-- Every addition takes a frame, although nothing nests in the text. -/
theorem flatSum_frames (n : Nat) : (flatSum n).expressionFrames = n + 2 := by
  induction n with
  | zero => rfl
  | succ n ih =>
    rw [flatSum, add_frames, ih]
    simp only [expressionFrames]
    omega

theorem flatLexemes_readable (n : Nat) : ∀ w ∈ flatLexemes n, w.Readable := by
  have hone : (Grammar.Lexeme.integer ['1']).Readable := (by decide : 1 ≤ Decimal.maxDigits)
  induction n with
  | zero => exact fun w hw => List.mem_singleton.1 hw ▸ hone
  | succ n ih =>
    intro w hw
    simp only [flatLexemes, List.mem_append, List.mem_cons, List.not_mem_nil, or_false] at hw
    rcases hw with hw | rfl | rfl
    · exact ih w hw
    · trivial
    · exact hone

theorem flatText_lexes (n : Nat) {rest : List Char} {ws : List Grammar.Lexeme}
    (hrest : Grammar.NotNext Digit.isDigit rest) (h : Grammar.Lexes rest ws) :
    Grammar.Lexes (flatText n ++ rest) (flatLexemes n ++ ws) := by
  have hdigit : ∀ c ∈ ['1'], Digit.isDigit c = true := List.forall_mem_singleton.2 (by decide)
  have hone : ∀ {rest ws}, Grammar.NotNext Digit.isDigit rest → Grammar.Lexes rest ws →
      Grammar.Lexes (['1'] ++ rest) (.integer ['1'] :: ws) := fun hrest h =>
    .cons (.refl _) (.integer (List.cons_ne_nil _ _) hdigit hrest) h
  induction n generalizing rest ws with
  | zero => exact hone hrest h
  | succ n ih =>
    rw [flatText, flatLexemes, List.append_assoc, List.append_assoc]
    have hplus : Grammar.NotNext Digit.isDigit ('+' :: '1' :: rest) := by
      rintro _ ⟨⟩
      decide
    exact ih hplus (.cons (.refl _) (.symbol (by decide)) (hone hrest h))

theorem flatLexemes_expression (n : Nat) : Grammar.Expression (flatLexemes n) (flatSum n) := by
  have hone : Grammar.Operand [.integer ['1']] (.int 1) := .integer ['1']
  induction n with
  | zero => exact .operand hone
  | succ n ih => exact .add ih hone

/-- Such a sum may stand in front of any program. -/
theorem derives_flatText (n : Nat) {rest : List Char} {trees : List Tree}
    (h : Grammar.Derives rest trees) :
    Grammar.Derives (flatText n ++ ';' :: rest) (flatSum n :: trees) := by
  obtain ⟨ws, ⟨hlexes, hreadable⟩, hstar⟩ := h
  have hsemicolon : Grammar.NotNext Digit.isDigit (';' :: rest) := by
    rintro _ ⟨⟩
    decide
  refine ⟨(flatLexemes n ++ [.symbol ';']) ++ ws, ⟨?_, fun w hw => ?_⟩,
    .cons (.expression (flatLexemes_expression n)) hstar⟩
  · rw [List.append_assoc]
    exact flatText_lexes n hsemicolon (.cons (.refl _) (.symbol (by decide)) hlexes)
  · simp only [List.mem_append, List.mem_singleton] at hw
    rcases hw with (hw | rfl) | hw
    · exact flatLexemes_readable n w hw
    · trivial
    · exact hreadable w hw

theorem tab_not_mem_flatText (n : Nat) : '\t' ∉ flatText n := by
  induction n with
  | zero => decide
  | succ n ih =>
    rw [flatText, List.mem_append]
    exact fun h => h.elim ih (by decide)

theorem read_flatText (n : Nat) {rest : List Char} {trees : List Tree} (htab : '\t' ∉ rest)
    (h : Grammar.Derives rest trees) (filename : String) :
    Program.read (String.ofList (flatText n ++ ';' :: rest)) filename =
      .ok (flatSum n :: trees) := by
  have htabs : '\t' ∉ flatText n ++ ';' :: rest := by
    rw [List.mem_append, List.mem_cons]
    rintro (h | h | h)
    · exact tab_not_mem_flatText n h
    · exact absurd h (by decide)
    · exact htab h
  rw [Grammar.read_eq_ok, String.toList_ofList, Tab.expand_eq_self htabs]
  exact derives_flatText n h

/-- A program that begins with a sum of too many terms is not analyzed, whatever comes behind. -/
theorem program_flatSum {n room : Nat} (h : room < n + 6) (rest : List Tree) :
    (program room (flatSum n :: rest)).outcome = .error (.fault .tooDeep) := by
  have hstatement : (statement (room - 3) (flatSum n)).outcome = .error (.fault .tooDeep) := by
    have hsum := flatSum_isExpression n
    obtain ⟨e, -, he⟩ := exists_gives hsum
    rw [statement_gives hsum he, hsum.statement_frames, flatSum_frames, within_of_lt (by omega)]
  rw [program_outcome, block_cons_outcome, hstatement]
  by_cases hprogram : 3 ≤ room
  · rw [within_of_le hprogram]
    rfl
  · rw [within_of_lt (Nat.not_le.1 hprogram)]
    rfl

/-! ## The main statement -/

/-- A report of the first definition in source order whose parameters are not distinct, with its
name and the first parameter that has come before. -/
def ReportsFirst (trees : List Tree) (x : Except AnalysisFailure Ast) : Prop :=
  ∃ before f params body after p e,
    subtreesAll trees = before ++ .definition f params body :: after ∧
    Distinct before ∧ FirstRepeated p params ∧ x = .error (.semantic e) ∧
    e.node = .definition f params body ∧
    e.cause.message = "Duplicate parameter '" ++ p ++ "' in definition of '" ++ f ++ "'" ∧
    e.message = "Semantic error in " ++ "FUNCTION_DEF" ++ ": " ++ e.cause.message

/-- **Analysis rejects exactly the repeated parameters.** On a stack with room for it, what the
parser returns is analyzed to a program if and only if the parameters of every definition in it are
distinct; otherwise the error is about the first definition where they are not. On a stack without,
the analysis runs out of it, unless such an error is found before. -/
theorem program_judged {nesting : Nat} {text : List Char} {trees : List Tree}
    (h : Parser.program nesting text = .done trees []) (room : Nat) :
    (blockFrames trees + 3 ≤ room →
      ((∃ body, (program room trees).outcome = .ok (.source body)) ↔
        Distinct (subtreesAll trees)) ∧
      (¬ Distinct (subtreesAll trees) → ReportsFirst trees (program room trees).outcome)) ∧
    (room < blockFrames trees + 3 → (program room trees).outcome = .error (.fault .tooDeep) ∨
      ¬ Distinct (subtreesAll trees) ∧ ReportsFirst trees (program room trees).outcome) := by
  have hs := (Grammar.exists_program_iff.1 ⟨nesting, h⟩).isStatement
  have hj : Judged (subtreesAll trees) (blockFrames trees + 3 ≤ room)
      (program room trees).outcome := by
    rw [program_outcome]
    exact (block_judged_of _ fun t ht => statement_judged (hs t ht)).map.reserved.congr (by omega)
  have hsource : ∀ ast, (program room trees).outcome = .ok ast → ∃ body, ast = .source body := by
    intro ast ha
    obtain ⟨-, body, -, rfl⟩ := program_eq_ok.1 ha
    exact ⟨body, rfl⟩
  generalize (program room trees).outcome = x at hj hsource ⊢
  cases hj with
  | accepted hd hf =>
    obtain ⟨body, rfl⟩ := hsource _ rfl
    exact ⟨fun _ => ⟨⟨fun _ => hd, fun _ => ⟨body, rfl⟩⟩, fun hn => absurd hd hn⟩,
      fun hlt => absurd hf (Nat.not_le.2 hlt)⟩
  | @rejected f p params body before after heq hd hp =>
    have hn : ¬ Distinct (subtreesAll trees) := heq ▸ Distinct.not_of_repeated hp
    have hreport : ReportsFirst trees (.error (.semantic
        ⟨.duplicateParameter p f, "FUNCTION_DEF", .definition f params body⟩)) :=
      ⟨before, f, params, body, after, p, _, heq, hd, hp, rfl, rfl, rfl, rfl⟩
    exact ⟨fun _ => ⟨⟨nofun, fun hd => absurd hd hn⟩, fun _ => hreport⟩,
      fun _ => .inr ⟨hn, hreport⟩⟩
  | tooDeep hf => exact ⟨fun hle => absurd hle hf, fun _ => .inl rfl⟩

/-- Of two definitions with repeated parameters the first one is reported, although it stands deeper
than the other. -/
theorem program_judged_of_nested :
    Parser.program 9 "if (a) { def f(x, y, x) { } } def g(z, z) { }".toList =
      .done [.conditional (.var "a") [.definition "f" ["x", "y", "x"] []],
        .definition "g" ["z", "z"] []] [] ∧
    ∃ e, (program 11 [.conditional (.var "a") [.definition "f" ["x", "y", "x"] []],
        .definition "g" ["z", "z"] []]).outcome = .error (.semantic e) ∧
      e.node = .definition "f" ["x", "y", "x"] [] := by
  have hparse : Parser.program 9 "if (a) { def f(x, y, x) { } } def g(z, z) { }".toList =
      .done [.conditional (.var "a") [.definition "f" ["x", "y", "x"] []],
        .definition "g" ["z", "z"] []] [] := by cbv
  have hrepeat : ∀ {ts}, .definition "f" ["x", "y", "x"] [] ∈ ts → ¬ Distinct ts :=
    fun hm hd => absurd (hd _ _ _ hm) (by decide)
  obtain ⟨before, f, params, body, after, p, e, heq, hd, -, ho, hnode, -⟩ :=
    ((program_judged hparse 11).1 (by decide)).2 (hrepeat (by simp [subtreesAll, subtrees]))
  refine ⟨hparse, e, ho, hnode.trans ?_⟩
  -- The definition of `f` stands third, behind trees that define nothing.
  simp only [subtreesAll, subtrees, List.nil_append, List.append_nil, List.cons_append] at heq
  rcases before with _ | ⟨_, _ | ⟨_, _ | ⟨t, before⟩⟩⟩
  · simp at heq
  · simp at heq
  · simp only [List.cons_append, List.nil_append, List.cons.injEq] at heq
    exact heq.2.2.1.symm
  · simp only [List.cons_append, List.cons.injEq] at heq
    exact absurd hd (hrepeat (by simp [heq.2.2.1]))

/-- The stack runs out in the analysis of `1+1+…+1;` with twenty thousand terms, under either
recursion limit, although the text is read and nothing is defined in it; and with
`def f(x,x){}` behind it, before that is looked at. -/
theorem flat_sum_tooDeep :
    Program.read (String.ofList (flatText 19999 ++ ";".toList)) "" = .ok [flatSum 19999] ∧
    Distinct (subtreesAll [flatSum 19999]) ∧
    Program.read (String.ofList (flatText 19999 ++ ";def f(x,x)\x7b\x7d".toList)) "" =
      .ok [flatSum 19999, .definition "f" ["x", "x"] []] ∧
    ∀ stack ∈ [Stacks.standard.initial, Stacks.standard.raised],
      (program stack.analysis [flatSum 19999]).outcome = .error (.fault .tooDeep) ∧
      (program stack.analysis [flatSum 19999, .definition "f" ["x", "x"] []]).outcome =
        .error (.fault .tooDeep) := by
  have hempty : Grammar.Derives [] [] := ⟨[], ⟨.nil (.refl []), nofun⟩, .nil⟩
  have hdefinition : Grammar.Derives "def f(x,x)\x7b\x7d".toList
      [.definition "f" ["x", "x"] []] := Grammar.exists_program_iff.1 ⟨5, by cbv⟩
  have htoo : ∀ stack ∈ [Stacks.standard.initial, Stacks.standard.raised],
      stack.analysis < 19999 + 6 := by
    simp [Stacks.standard, Stack.ofLimit]
  refine ⟨read_flatText 19999 (by decide) hempty "", ?_,
    read_flatText 19999 (by decide) hdefinition "", fun stack hstack =>
      ⟨program_flatSum (htoo stack hstack) _, program_flatSum (htoo stack hstack) _⟩⟩
  rw [subtreesAll, subtreesAll, List.append_nil]
  exact .of_isExpression (flatSum_isExpression 19999)

end Analysis
end Tama
