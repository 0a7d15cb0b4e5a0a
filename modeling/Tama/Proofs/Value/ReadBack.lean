import Tama.Proofs.Eval.Standard
import Tama.Proofs.Grammar.Entry
import Tama.Proofs.Text.Words
import Tama.Proofs.Token.Scan

/-!
# Printed values

What a script prints is a literal of the language again, but for a negative integer: no literal has
a sign (`Literal`). Such a literal is read, analyzed and evaluated to the value that was printed,
and the text of a negative integer is refused by the parser and by the lexer. Main statement:
`printed_values_read_back`.
-/

set_option autoImplicit false

namespace Tama

open Run Tama.Parser Grammar

variable {ι σ : Type}

/-! ## Integers -/

namespace Decimal

theorem toList_toString_natCast (n : Nat) : (toString (n : Int)).toList = Nat.toDigits 10 n := by
  change (Int.repr n).toList = _
  simp [Int.repr, Nat.repr_eq_ofList_toDigits]

theorem toList_toString_negSucc (n : Nat) :
    (toString (Int.negSucc n)).toList = '-' :: Nat.toDigits 10 (n + 1) := by
  change (Int.repr (Int.negSucc n)).toList = _
  simp [Int.repr, Nat.repr_eq_ofList_toDigits]

theorem lt_pow_of_length {limit n : Nat} (hlimit : 0 < limit)
    (h : (Nat.toDigits 10 n).length ≤ limit) : n < Nat.pow 10 limit :=
  (Nat.length_toDigits_le_iff (by decide) hlimit).1 h

/-- An integer is written unless it has too many digits. -/
theorem write_of_length {n : Int} (h : (Nat.toDigits 10 n.natAbs).length ≤ maxDigits) :
    write n = .ok (toString n) :=
  write_eq_ok (lt_pow_of_length (by decide) h)

theorem toDigits_inj {m n : Nat} (h : Nat.toDigits 10 m = Nat.toDigits 10 n) : m = n := by
  rw [← Digit.number_toDigits m, h, Digit.number_toDigits]

end Decimal

/-- A value whose integer, if it is one, does not have too many digits to be written. -/
def Value.Short (v : Value) : Prop :=
  ∀ n : Int, v = .int n → (Nat.toDigits 10 n.natAbs).length ≤ Decimal.maxDigits

/-! ## Literals -/

/-- The values that have a literal, with the tree and the node of that. -/
inductive Literal : Value → Tree → Ast → Prop
  | int (n : Nat) : Literal (.int n) (.int n) (.int n)
  | bool (b : Bool) : Literal (.bool b) (.bool b) (.bool b)
  | null : Literal .null .null .null

/-- All values have a literal but the negative integers. -/
theorem Value.Canonical.literal_or_negative {v : Value} (hv : v.Canonical) :
    (∃ tree node, Literal v tree node) ∨ ∃ n, v = .int (Int.negSucc n) := by
  cases hv with
  | int n =>
    cases n with
    | ofNat n => exact .inl ⟨_, _, .int n⟩
    | negSucc n => exact .inr ⟨n, rfl⟩
  | bool b => exact .inl ⟨_, _, .bool b⟩
  | null => exact .inl ⟨_, _, .null⟩

namespace Literal

variable {v w : Value} {tree : Tree} {node other : Ast}

theorem value_unique (h : Literal v tree node) (h' : Literal w tree other) : v = w := by
  cases h <;> cases h' <;> rfl

/-! ### Text -/

theorem operand_toDigits (expression : Parser Tree) {n : Nat}
    (h : (Nat.toDigits 10 n).length ≤ Decimal.maxDigits) :
    operand expression (Nat.toDigits 10 n) = .done (.int n) [] := by
  have hdigits : ∀ c ∈ Nat.toDigits 10 n, Digit.isDigit c = true := fun c hc =>
    Digit.isDigit_ascii (Digit.ascii_of_mem_toDigits hc).1 (Digit.ascii_of_mem_toDigits hc).2
  have hspells : Spells (Nat.toDigits 10 n ++ []) (.integer (Nat.toDigits 10 n)) [] :=
    .integer Nat.toDigits_ne_nil hdigits nofun
  rw [List.append_nil] at hspells
  have hstart : Spells (skip (Nat.toDigits 10 n)) (.integer (Nat.toDigits 10 n)) [] := by
    rwa [hspells.skip_eq]
  have hinteger := integer_of_spells h hstart
  rw [Digit.number_toDigits] at hinteger
  exact operand_of_integer expression hinteger

theorem operand_spelling (expression : Parser Tree) (k : Keyword) {t : Tree}
    (hk : literal? k = some t) :
    operand expression k.spelling = .done t [] := by
  have hspells : Spells (k.spelling ++ []) (.keyword k) [] := .keyword k nofun
  rw [List.append_nil] at hspells
  exact operand_of_keyword expression hk (keyword_of_spells (hspells.skip_eq.symm ▸ hspells))

/-- The text of a value is its literal. -/
theorem operand_format (h : Literal v tree node) (hv : v.Short) :
    ∃ source, v.format = .ok source ∧ '\t' ∉ source.toList ∧
      ∀ expression, operand expression source.toList = .done tree [] := by
  cases h with
  | int n =>
    have hn := hv n rfl
    refine ⟨toString (n : Int), ?_, ?_, fun expression => ?_⟩
    · rw [Value.format, Decimal.write_of_length hn]
      rfl
    · rw [Decimal.toList_toString_natCast]
      intro htab
      exact absurd (Digit.ascii_of_mem_toDigits htab).1 (by decide)
    · rw [Decimal.toList_toString_natCast]
      exact operand_toDigits expression hn
  | bool b =>
    cases b with
    | false => exact ⟨"false", rfl, by decide, fun e => operand_spelling e .false rfl⟩
    | true => exact ⟨"true", rfl, by decide, fun e => operand_spelling e .true rfl⟩
  | null => exact ⟨"null", rfl, by decide, fun e => operand_spelling e .null rfl⟩

/-! ### Reading, analysis and evaluation -/

/-- The text of a value is read as its literal. -/
theorem readExpression_format (h : Literal v tree node) (hv : v.Short) :
    ∃ source, v.format = .ok source ∧
      ∀ filename, Program.readExpression source filename = .ok tree := by
  obtain ⟨source, hsource, htab, hoperand⟩ := h.operand_format hv
  refine ⟨source, hsource, fun filename => ?_⟩
  rw [readExpression_eq_ok (Nat.lt_succ_self _), Tab.expand_eq_self htab]
  refine ⟨[], ?_, rfl⟩
  rw [expressionAt, addition, Parser.bind_apply, hoperand]
  rfl

theorem readExpression_of_format (h : Literal v tree node) (hv : v.Short) {source : String}
    (hsource : v.format = .ok source) (filename : String) :
    Program.readExpression source filename = .ok tree := by
  obtain ⟨_, hformat, hread⟩ := h.readExpression_format hv
  cases hformat.symm.trans hsource
  exact hread filename

theorem analyzed (h : Literal v tree node) (room : Nat) :
    (Analysis.expression (room + 2) tree).outcome = .ok node ∧
      (Analysis.program (room + 6) [tree]).outcome = .ok (.source [node]) := by
  cases h <;> exact ⟨rfl, rfl⟩

theorem form (h : Literal v tree node) :
    node.form = .literal (.ok v) ∧ ∃ kind, node.kind = .text kind := by
  cases h <;> exact ⟨rfl, _, rfl⟩

theorem canonical (h : Literal v tree node) : v.Canonical := by
  cases h with
  | int n => exact .int n
  | bool b => exact .bool b
  | null => exact .null

theorem eval_eq (h : Literal v tree node) (host : Host ι σ) (debug : Bool) (depth : Nat)
    (env : Env ι) (s : σ) : ∃ kind, Eval.eval (Callback.call host) debug (depth + 1) node env s =
      (⟨Eval.visited debug kind, .ok (v, env)⟩, s) := by
  obtain ⟨hform, kind, hkind⟩ := h.form
  refine ⟨kind, ?_⟩
  have hvisit := Eval.trace_apply (Eval.traceLines_visit debug kind) s
  simp only [Eval.eval, Eval.node, hkind, hform]
  rw [bind_apply_ok hvisit, lift_bind rfl]
  simp

/-- A literal yields its value, as an expression and as the only statement of a program. -/
theorem evaluates (h : Literal v tree node) {root : Ast} (hroot : root ∈ [node, .source [node]])
    (host : Host ι σ) (debug : Bool) (env : Env ι) (s : σ) :
    ∃ lines, (debug = false → lines = []) ∧
      Eval.evaluate host debug root env s = (⟨lines, .ok (v, env)⟩, s) := by
  obtain ⟨depth, hdepth⟩ : ∃ depth, Eval.maxDepth = depth + 1 + 1 := ⟨4998, rfl⟩
  suffices heval : ∃ lines, (debug = false → lines = []) ∧
      Eval.eval (Callback.call host) debug (depth + 1 + 1) root env s =
        (⟨lines, .ok (v, env)⟩, s) by
    obtain ⟨lines, hlines, heval⟩ := heval
    refine ⟨lines, hlines, ?_⟩
    rw [Eval.evaluate, hdepth, heval]
  have hsilent : ∀ kind, debug = false → Eval.visited debug kind = [] := fun kind hdebug => by
    rw [Eval.visited, hdebug, if_neg Bool.false_ne_true]
  rw [List.mem_pair] at hroot
  rcases hroot with rfl | rfl
  · obtain ⟨kind, heval⟩ := h.eval_eq host debug (depth + 1) env s
    exact ⟨_, hsilent kind, heval⟩
  · obtain ⟨kind, heval⟩ := h.eval_eq host debug depth env s
    have hvisit := Eval.trace_apply (Eval.traceLines_visit debug "Source") s
    refine ⟨Eval.visited debug "Source" ++ Eval.visited debug kind, fun hdebug => ?_, ?_⟩
    · rw [hsilent _ hdebug, hsilent _ hdebug]
      rfl
    · rw [Eval.eval, Eval.node]
      simp only [Ast.kind, Ast.form]
      rw [bind_apply_ok hvisit, lift_bind rfl, Eval.statements, Eval.sequence, bind_apply_ok heval]
      dsimp only
      rw [Eval.if_failed h.canonical.failed, if_neg Bool.false_ne_true, Eval.sequence]
      simp

end Literal

/-! ## Negative integers -/

/-- A text is no expression, and no token starts at its beginning. -/
def Refused (source : String) : Prop :=
  ∀ filename, (∃ e, Program.readExpression source filename = .error (.syntaxError e)) ∧
    ∃ span, Lexer.tokenize source filename = .error (.unknown '-' span)

theorem fails_unlimited {α : Type} {p : Nat → Parser α} {text : List Char}
    (h : ∀ nesting, Fails (p (nesting + 1)) text) : Fails (Parser.unlimited p) text :=
  h text.length

theorem readWith_of_fails {α : Type} {p : Parser α} {source : String}
    (h : Fails p (Tab.expand source.toList)) (filename : String) :
    ∃ e, Program.readWith p source filename = .error (.syntaxError e) := by
  obtain ⟨rest, wanted, h⟩ := h
  simp only [Program.readWith, h]
  exact ⟨_, rfl⟩

/-- A sign begins nothing that the language has. -/
theorem refused_of_minus {source : String} {digits : List Char} (h : source.toList = '-' :: digits)
    (htab : '\t' ∉ digits) : Refused source := by
  have hsource : '\t' ∉ source.toList := by
    rw [h, List.mem_cons]
    exact fun hmem => hmem.elim (by decide) htab
  have hskip : skip source.toList = '-' :: digits := by
    rw [h]
    rfl
  have hidle : Idle source.toList := by
    constructor <;> rw [hskip]
    · exact notNext_cons.2 (by decide)
    · exact notNext_cons.2 (by decide)
    · simp
  intro filename
  constructor
  · refine readWith_of_fails ?_ filename
    rw [Tab.expand_eq_self hsource]
    exact fails_unlimited fun nesting => (hidle.expressionAt_fails nesting).bind
  · rw [Lexer.tokenize_eq_scanFrom, h,
      Lexer.scanFrom_cons (by decide) (by decide) fun hslash => absurd hslash.1 (by decide)]
    exact ⟨_, rfl⟩

theorem refused_of_negative {source : String} {n : Nat}
    (h : source.toList = '-' :: Nat.toDigits 10 n) : Refused source :=
  refused_of_minus h fun htab => absurd (Digit.ascii_of_mem_toDigits htab).1 (by decide)

theorem Refused.ne_ok {source : String} (h : Refused source) (filename : String) (tree : Tree) :
    Program.readExpression source filename ≠ .ok tree := by
  intro hread
  obtain ⟨e, herror⟩ := (h filename).1
  cases herror.symm.trans hread

theorem format_negSucc {n : Nat} (h : (Value.int (Int.negSucc n)).Short) :
    ∃ source, (Value.int (Int.negSucc n)).format = .ok source ∧
      source.toList = '-' :: Nat.toDigits 10 (n + 1) := by
  refine ⟨toString (Int.negSucc n), ?_, Decimal.toList_toString_negSucc n⟩
  rw [Value.format, Decimal.write_of_length (h _ rfl)]
  rfl

theorem toList_of_format_negSucc {n : Nat} (h : (Value.int (Int.negSucc n)).Short) {source : String}
    (hsource : (Value.int (Int.negSucc n)).format = .ok source) :
    source.toList = '-' :: Nat.toDigits 10 (n + 1) := by
  obtain ⟨_, hformat, htext⟩ := format_negSucc h
  cases hformat.symm.trans hsource
  exact htext

/-! ## Different values -/

/-- Values with the same text are the same: a literal is read as one tree only, and a negative
integer is told by its digits. -/
theorem Value.Canonical.eq_of_format {v w : Value} (hv : v.Canonical) (hw : w.Canonical)
    (hvshort : v.Short) (hwshort : w.Short) {source : String} (h : v.format = .ok source)
    (h' : w.format = .ok source) : v = w := by
  rcases hv.literal_or_negative with ⟨tree, node, hv⟩ | ⟨n, rfl⟩ <;>
    rcases hw.literal_or_negative with ⟨tree', node', hw⟩ | ⟨m, rfl⟩
  · have hread := hv.readExpression_of_format hvshort h ""
    cases hread.symm.trans (hw.readExpression_of_format hwshort h' "")
    exact hv.value_unique hw
  · have hrefused := refused_of_negative (toList_of_format_negSucc hwshort h')
    exact absurd (hv.readExpression_of_format hvshort h "") (hrefused.ne_ok "" tree)
  · have hrefused := refused_of_negative (toList_of_format_negSucc hvshort h)
    exact absurd (hw.readExpression_of_format hwshort h' "") (hrefused.ne_ok "" tree')
  · have hdigits := (toList_of_format_negSucc hvshort h).symm.trans
      (toList_of_format_negSucc hwshort h')
    rw [List.cons.injEq] at hdigits
    rw [Nat.succ_inj.1 (Decimal.toDigits_inj hdigits.2)]

/-! ## The main statement -/

/-- A text is an expression that is analyzed and evaluated to a value, in any environment, which it
leaves as it is; the analysis takes two frames of the stack, or six within a program. -/
def ReadsBack (ι σ : Type) (v : Value) (source : String) : Prop :=
  ∀ filename, ∃ tree node, Program.readExpression source filename = .ok tree ∧
    (∀ room, (Analysis.expression (room + 2) tree).outcome = .ok node ∧
      (Analysis.program (room + 6) [tree]).outcome = .ok (.source [node])) ∧
    ∀ root ∈ [node, .source [node]], ∀ (host : Host ι σ) (debug : Bool) (env : Env ι) (s : σ),
      ∃ lines, (debug = false → lines = []) ∧
        Eval.evaluate host debug root env s = (⟨lines, .ok (v, env)⟩, s)

/-- **Printed values read back.** The text of a value is an expression with that value, unless the
value is a negative integer: that has no literal. Different values have different texts. -/
theorem printed_values_read_back (ι σ : Type) {v : Value} (hv : v.Canonical) (hshort : v.Short) :
    ∃ source, v.format = .ok source ∧
      ((∀ n : Int, v = .int n → 0 ≤ n) → ReadsBack ι σ v source) ∧
      (∀ n : Int, v = .int n → n < 0 → Refused source) ∧
      ∀ w : Value, w.Canonical → w.Short → w ≠ v → w.format ≠ .ok source := by
  rcases hv.literal_or_negative with ⟨tree, node, hliteral⟩ | ⟨n, rfl⟩
  · obtain ⟨source, hsource, hread⟩ := hliteral.readExpression_format hshort
    refine ⟨source, hsource, fun _ filename => ?_, fun n hn hneg => ?_,
      fun w hw hwshort hne h => ?_⟩
    · exact ⟨tree, node, hread filename, hliteral.analyzed,
        fun root hroot host debug env s => hliteral.evaluates hroot host debug env s⟩
    · cases hliteral with
      | int m =>
        cases hn
        omega
      | bool b => cases hn
      | null => cases hn
    · exact hne (hw.eq_of_format hv hwshort hshort h hsource)
  · obtain ⟨source, hsource, htext⟩ := format_negSucc hshort
    refine ⟨source, hsource, fun hpos => ?_, fun _ _ _ => refused_of_negative htext,
      fun w hw hwshort hne h => hne (hw.eq_of_format hv hwshort hshort h hsource)⟩
    exact absurd (hpos _ rfl) (Int.not_le.2 (Int.negSucc_lt_zero n))

/-- An integer and a negative one. -/
theorem printed_integers_read_back :
    ReadsBack Empty Unit (.int 12) "12" ∧ Refused "-3" := by
  have hshort : ∀ n : Int, (Nat.toDigits 10 n.natAbs).length ≤ 2 → (Value.int n).Short := by
    rintro n hn _ ⟨⟩
    exact Nat.le_trans hn (by decide)
  have hformat : ∀ n : Int, (Nat.toDigits 10 n.natAbs).length ≤ 2 →
      (Value.int n).format = .ok (toString n) := by
    intro n hn
    rw [Value.format, Decimal.write_of_length (Nat.le_trans hn (by decide))]
    rfl
  constructor
  · obtain ⟨source, hsource, hreads, -⟩ :=
      printed_values_read_back Empty Unit (.int 12) (hshort 12 (by decide))
    cases (hformat 12 (by decide)).symm.trans hsource
    refine hreads ?_
    rintro _ ⟨⟩
    decide
  · obtain ⟨source, hsource, -, hrefused, -⟩ :=
      printed_values_read_back Empty Unit (.int (-3)) (hshort (-3) (by decide))
    cases (hformat (-3) (by decide)).symm.trans hsource
    exact hrefused (-3) rfl (by decide)

end Tama
