import Tama.Proofs.Grammar.Local

/-!
# Statements are read whatever follows

An expression is read in the same way where the text goes on with the same gaps and then the same
symbol (`expressionAt_local`), a statement whatever follows it (`programStatement_closed`). An
alternative that fails before the right one is tried does so on its first lexeme or its second, and
these stand in what is read: how an operand starts settles what it is (`operand_cases`), and that it
is neither a keyword's statement nor an assignment (`Bare`).
-/

set_option autoImplicit false

namespace Tama.Grammar

open Tama.Parser

/-! ## The first lexeme of an operand -/

section
variable (expression : Parser Tree) {text rest : List Char}

theorem operand_of_integer {n : Nat} (h : integer text = .done n rest) :
    operand expression text = .done (.int n) rest :=
  orElse_of_done (by rw [bind_apply, h]; rfl)

theorem integer_fails_of_isStart {c : Char} {tail : List Char} (h : skip text = c :: tail)
    (hc : Word.isStart c = true) : Fails integer text :=
  integer_fails_of_head (by rw [h]; exact notNext_cons.2 (Word.isDigit_of_isStart hc))

theorem integer_fails_of_keyword {k : Keyword} (h : Spells (skip text) (.keyword k) rest) :
    Fails integer text := by
  obtain ⟨c, tail, hs, hc⟩ := isStart_of_keyword h
  exact integer_fails_of_isStart hs hc

/-- The value of a keyword that is a literal. -/
def literal? : Keyword → Option Tree
  | .true => some (.bool true)
  | .false => some (.bool false)
  | .null => some .null
  | _ => none

theorem operand_of_keyword {k : Keyword} {t : Tree} (hk : literal? k = some t)
    (h : keyword k text = .done () rest) : operand expression text = .done t rest := by
  have hw := keyword_eq_done h
  have hother : ∀ k', k ≠ k' → Fails (keyword k') text := fun k' hne =>
    keyword_fails_of fun mid hw' => hne (Lexeme.keyword.inj (hw.unique hw').1)
  have hdone : ∀ t, (keyword k >>= fun _ => (pure t : Parser Tree)) text = .done t rest :=
    fun t => by rw [bind_apply, h]; rfl
  refine (orElse_of_fails (integer_fails_of_keyword hw).bind).trans ?_
  cases k <;> cases hk
  case true => exact orElse_of_done (orElse_of_done (hdone _))
  case false =>
    exact orElse_of_done ((orElse_of_fails (hother .true (by decide)).bind).trans (hdone _))
  case null =>
    have hbool : Fails boolean text :=
      (hother .true (by decide)).bind.orElse (hother .false (by decide)).bind
    exact (orElse_of_fails hbool).trans (orElse_of_done (hdone _))

/-- Where no integer and no keyword stands, an operand is a call, a variable or in parentheses. -/
theorem operand_of_fails (hi : Fails integer text) (hk : ∀ k, Fails (keyword k) text) :
    operand expression text = Parser.orElse (call expression)
      (Parser.orElse (do return .var (← name)) (parenthesized expression)) text := by
  have hbool : Fails boolean text := (hk .true).bind.orElse (hk .false).bind
  exact (orElse_of_fails hi.bind).trans
    ((orElse_of_fails hbool).trans (orElse_of_fails (hk .null).bind))

theorem operand_of_call {t : Tree} (h : call expression text = .done t rest) :
    operand expression text = .done t rest := by
  obtain ⟨x, mid, hx, -⟩ := bind_eq_done.1 h
  obtain ⟨c, tail, hs, hc, -⟩ := name_eq_done hx
  rw [operand_of_fails expression (integer_fails_of_isStart hs hc) (keyword_fails_of_name hx)]
  exact orElse_of_done h

theorem operand_of_name {x : String} (h : name text = .done x rest)
    (hcall : Fails (symbol '(') rest) : operand expression text = .done (.var x) rest := by
  obtain ⟨c, tail, hs, hc, -⟩ := name_eq_done h
  have hfails : Fails (call expression) text := by
    obtain ⟨r, w, hf⟩ := hcall
    exact ⟨r, w, by rw [call, bind_apply, h]; simp only [callArguments, bind_apply, hf]⟩
  rw [operand_of_fails expression (integer_fails_of_isStart hs hc) (keyword_fails_of_name h)]
  refine (orElse_of_fails hfails).trans (orElse_of_done ?_)
  rw [bind_apply, h]
  rfl

theorem operand_of_open (h : (skip text).head? = some '(') :
    operand expression text = parenthesized expression text := by
  have hs := symbols_spec '(' (by decide)
  obtain ⟨tail, h⟩ := List.head?_eq_some_iff.1 h
  have hd : NotNext Digit.isDigit (skip text) := h ▸ notNext_cons.2 hs.1
  have hw : NotNext Word.isStart (skip text) := h ▸ notNext_cons.2 hs.2
  have hname : Fails name text := name_fails_of_head hw
  rw [operand_of_fails expression (integer_fails_of_head hd) (keyword_fails_of_head hw)]
  exact (orElse_of_fails (p := call expression) hname.bind).trans (orElse_of_fails hname.bind)

theorem Idle.operand_fails (h : Idle text) : Fails (operand expression) text := by
  have hname : Fails name text := name_fails_of_head h.word
  have hopen : Fails openOperand text := by
    rcases openOperand_cases text with ⟨mid, -, hs⟩ | ⟨ho, -⟩
    · exact absurd (by rw [symbol_eq_done hs]; rfl) h.parenthesis
    · exact ho
  rw [Fails, operand_of_fails expression (integer_fails_of_head h.digit)
    (keyword_fails_of_head h.word)]
  exact Fails.orElse hname.bind (Fails.orElse hname.bind hopen.bind)

/-- How an operand starts, and what it is then. -/
theorem operand_cases {t : Tree} (h : operand expression text = .done t rest) :
    (∃ n, integer text = .done n rest ∧ t = .int n) ∨
    (∃ k, keyword k text = .done () rest ∧ literal? k = some t) ∨
    (∃ x mid, name text = .done x mid ∧ (call expression text = .done t rest ∨
      Fails (call expression) text ∧ t = .var x ∧ rest = mid)) ∨
    (skip text).head? = some '(' ∧ parenthesized expression text = .done t rest := by
  have keyword_case : ∀ {k : Keyword} {v : Tree}, literal? k = some v →
      (keyword k >>= fun _ => (pure v : Parser Tree)) text = .done t rest →
      ∃ k, keyword k text = .done () rest ∧ literal? k = some t := by
    intro k v hk h
    obtain ⟨u, mid, hu, h⟩ := bind_eq_done.1 h
    cases h
    exact ⟨k, hu, hk⟩
  rcases orElse_eq_done.1 h with h | ⟨-, h⟩
  · obtain ⟨n, mid, hn, h⟩ := bind_eq_done.1 h
    cases h
    exact .inl ⟨n, hn, rfl⟩
  rcases orElse_eq_done.1 h with h | ⟨-, h⟩
  · rcases orElse_eq_done.1 h with h | ⟨-, h⟩
    · exact .inr (.inl (keyword_case rfl h))
    · exact .inr (.inl (keyword_case rfl h))
  rcases orElse_eq_done.1 h with h | ⟨-, h⟩
  · exact .inr (.inl (keyword_case rfl h))
  rcases orElse_eq_done.1 h with h | ⟨hcall, h⟩
  · obtain ⟨x, mid, hx, -⟩ := bind_eq_done.1 h
    exact .inr (.inr (.inl ⟨x, mid, hx, .inl h⟩))
  rcases orElse_eq_done.1 h with h | ⟨-, h⟩
  · obtain ⟨x, mid, hx, h⟩ := bind_eq_done.1 h
    cases h
    exact .inr (.inr (.inl ⟨x, _, hx, .inr ⟨hcall, rfl, rfl⟩⟩))
  · refine .inr (.inr (.inr ⟨?_, h⟩))
    obtain ⟨u, mid, ho, -⟩ := bind_eq_done.1 h
    rcases openOperand_cases text with ⟨_, -, hs⟩ | ⟨⟨_, _, hf⟩, -⟩
    · rw [symbol_eq_done hs, List.head?_cons]
    · rw [hf] at ho
      cases ho

end

/-! ## Expressions -/

/-- What can come after an expression. -/
def expressionEnds : List Char :=
  [',', ')', ';']

theorem Idle.expressionAt_fails {text : List Char} (h : Idle text) (depth : Nat) :
    Fails (expressionAt (depth + 1)) text :=
  (h.operand_fails (expressionAt depth)).bind

theorem expressionAt_refuses (depth : Nat) : Refuses (expressionAt depth) := by
  cases depth with
  | zero => exact .inl fun _ => rfl
  | succ depth => exact .inr fun _ h => h.expressionAt_fails depth

section
variable {expression : Parser Tree} (he : Local expression (Before expressionEnds))
include he

theorem parenthesized_closed : Closed (parenthesized expression) := by
  have hclose : ∀ e : Tree, Closed (symbol ')' >>= fun _ => (pure e : Parser Tree)) :=
    fun e => (symbol_closed (by decide)).map _
  refine openOperand_closed.bind fun _ => ?_
  exact he.bind_symbol hclose (by decide)

variable (hb : ∀ text a rest, expression text = .done a rest → rest.length ≤ text.length)
  (hr : Refuses expression)
include hb hr

theorem call_closed : Closed (call expression) := by
  have hlist := he.listed hb (by decide) hr
  have hclose : ∀ args : List Tree, Closed (symbol ')' >>= fun _ => (pure args : Parser _)) :=
    fun args => (symbol_closed (by decide)).map _
  have hargs : Closed (callArguments expression) :=
    (symbol_closed (by decide)).bind fun _ => hlist.bind_symbol hclose (by simp)
  exact name_local.bind fun f => hargs.map _

theorem operand_local : Local (operand expression) (Before ('+' :: expressionEnds)) := by
  intro text rest rest' t h ⟨hat, halike⟩
  rcases operand_cases expression h with ⟨n, hn, rfl⟩ | ⟨k, hk, ht⟩ | ⟨x, mid, hx, h⟩ | ⟨hs, h⟩
  · obtain ⟨word, htext, hbegin, hn'⟩ := integer_local text rest rest' n hn halike
    exact ⟨word, htext, hbegin, operand_of_integer expression hn'⟩
  · obtain ⟨word, htext, hbegin, hk'⟩ := keyword_local k text rest rest' () hk halike
    exact ⟨word, htext, hbegin, operand_of_keyword expression ht hk'⟩
  · rcases h with h | ⟨-, rfl, rfl⟩
    · obtain ⟨word, htext, hbegin, h'⟩ := call_closed he hb hr text rest rest' t h trivial
      exact ⟨word, htext, hbegin, operand_of_call expression h'⟩
    · -- a call is tried first; it fails because no parenthesis comes after the name
      obtain ⟨word, htext, hbegin, hx'⟩ := name_local text rest rest' x hx halike
      have hopen : Fails (symbol '(') rest' := by
        obtain ⟨c, hc, hs⟩ := hat.alike halike
        refine symbol_fails_of_head fun he => ?_
        rw [hs] at he
        exact absurd (Option.some.inj he ▸ hc) (by decide)
      exact ⟨word, htext, hbegin, operand_of_name expression hx' hopen⟩
  · obtain ⟨word, htext, hbegin, h'⟩ := parenthesized_closed he text rest rest' t h trivial
    refine ⟨word, htext, hbegin, ?_⟩
    rw [operand_of_open expression (hbegin.head?_skip.trans hs)]
    exact h'

end

theorem addition_local {operand : Parser Tree}
    (ho : Local operand (Before ('+' :: expressionEnds)))
    (hb : ∀ text a rest, operand text = .done a rest → rest.length ≤ text.length) :
    Local (addition operand) (Before expressionEnds) := by
  have hmany : Local (Parser.many do symbol '+'; operand) (Before expressionEnds) :=
    ho.manyAfter hb (by decide) (by decide) (List.subset_cons_self ..)
  refine ho.bind_of (fun first => hmany.map _) fun a t mid mid' rest rest' h hend halike => ?_
  obtain ⟨ts, last, hts, h⟩ := bind_eq_done.1 h
  cases h
  exact ⟨at_of_manyAfter hts hend.1, halike⟩

theorem expressionAt_local (depth : Nat) :
    Local (expressionAt depth) (Before expressionEnds) := by
  induction depth with
  | zero =>
    intro text rest rest' t h
    cases h
  | succ depth ih =>
    have hb := (expressionAt_bounded depth).length_le
    exact addition_local (operand_local ih hb (expressionAt_refuses depth))
      (operand_bounded (expressionAt_bounded depth)).length_le

/-! ## Statements -/

/-- A text does not start as a statement does that is no expression: with one of the keywords, or
with a name that is assigned to. -/
structure Bare (text : List Char) : Prop where
  keyword_fails : ∀ k, literal? k = none → Fails (keyword k) text
  not_assigned : Fails name text ∨ ∃ x rest, name text = .done x rest ∧ Fails (symbol '=') rest

theorem Bare.assignment_fails {text : List Char} (h : Bare text) (expression : Parser Tree) :
    Fails (assignment expression) text := by
  rcases h.not_assigned with hf | ⟨x, rest, hx, r, w, hf⟩
  · exact hf.bind
  · exact ⟨r, w, by rw [assignment, bind_apply, hx]; simp only [bind_apply, hf]⟩

/-- Where no other statement starts, an expression is read. -/
theorem Bare.statementAt_eq {text : List Char} (h : Bare text) (expression : Parser Tree)
    (depth : Nat) :
    statementAt expression (depth + 1) text = expressionStatement expression text := by
  refine (orElse_of_fails (h.keyword_fails .define rfl).bind).trans ?_
  refine (orElse_of_fails (h.keyword_fails .cond rfl).bind).trans ?_
  exact orElse_of_fails (h.assignment_fails expression)

theorem operand_bare {expression : Parser Tree} {text rest : List Char} {t : Tree}
    (h : operand expression text = .done t rest) (hend : At ('+' :: expressionEnds) rest) :
    Bare text := by
  rcases operand_cases expression h with ⟨n, hn, -⟩ | ⟨k, hk, hv⟩ | ⟨x, mid, hx, h⟩ | ⟨hs, -⟩
  · obtain ⟨digits, -, -, hw⟩ := integer_spells hn
    have hstart : NotNext Word.isStart (skip text) := by
      intro c hc
      obtain ⟨tail, hs⟩ := List.head?_eq_some_iff.1 hc
      cases hword : Word.isStart c with
      | false => rfl
      | true =>
        obtain ⟨_, _, hf⟩ := integer_fails_of_isStart hs hword
        rw [hn] at hf
        cases hf
    exact ⟨fun k _ => keyword_fails_of_head hstart k, .inl (name_fails_of_head hstart)⟩
  · have hw := keyword_eq_done hk
    refine ⟨fun k' hk' => keyword_fails_of fun mid hw' => ?_, .inl (name_fails_of_keyword hw)⟩
    rw [← Lexeme.keyword.inj (hw.unique hw').1, hv] at hk'
    cases hk'
  · refine ⟨fun k _ => keyword_fails_of_name hx k, .inr ⟨x, mid, hx, ?_⟩⟩
    rcases h with h | ⟨-, -, rfl⟩
    · obtain ⟨y, last, hy, h⟩ := bind_eq_done.1 h
      rw [hx] at hy
      cases hy
      obtain ⟨args, last, hargs, -⟩ := bind_eq_done.1 h
      obtain ⟨u, after, ho, -⟩ := bind_eq_done.1 hargs
      exact symbol_fails_of_head (by simp [symbol_eq_done ho])
    · exact symbol_fails_of_at hend (by decide)
  · obtain ⟨tail, hs⟩ := List.head?_eq_some_iff.1 hs
    have hw : NotNext Word.isStart (skip text) :=
      hs ▸ notNext_cons.2 (symbols_spec '(' (by decide)).2
    exact ⟨fun k _ => keyword_fails_of_head hw k, .inl (name_fails_of_head hw)⟩

theorem expressionAt_bare {depth : Nat} {text rest : List Char} {t : Tree}
    (h : expressionAt depth text = .done t rest) (hend : At expressionEnds rest) : Bare text := by
  cases depth with
  | zero => cases h
  | succ depth =>
    obtain ⟨first, mid, hfirst, h⟩ := bind_eq_done.1 h
    obtain ⟨ts, last, hts, h⟩ := bind_eq_done.1 h
    cases h
    exact operand_bare hfirst (at_of_manyAfter hts hend)

section
variable {expression statement : Parser Tree} (he : Local expression (Before expressionEnds))

include he in
theorem assignment_closed : Closed (assignment expression) := by
  have hclose : ∀ x : String, ∀ e, Closed (symbol ';' >>= fun _ => pure (Tree.assignment x e)) :=
    fun x e => (symbol_closed (by decide)).map _
  refine name_local.bind fun x => ?_
  refine (symbol_closed (by decide)).bind fun _ => ?_
  exact he.bind_symbol (hclose x) (by decide)

include he in
theorem expressionStatement_closed : Closed (expressionStatement expression) :=
  he.bind_symbol (fun _ => (symbol_closed (by decide)).map _) (by decide)

variable (hs : Closed statement) (hr : Refuses statement)

include hs hr in
theorem block_closed : Closed (block statement) := by
  have hbody : Local (Parser.many statement) (Before ['}']) :=
    Local.many hs (fun _ _ _ => hs.length_lt) (fun _ _ _ _ _ _ => trivial)
      (fun _ _ _ => trivial) fun _ _ h hat => hr.fails h (hat.idle (by decide) (by decide))
  refine (symbol_closed (by decide)).bind fun _ => ?_
  exact hbody.bind_symbol (fun _ => (symbol_closed (by decide)).map _) (by simp)

include hs hr in
theorem functionDefinition_closed : Closed (functionDefinition statement) := by
  have hname : Local name (Before [',', ')']) := name_local.mono fun _ _ h => h.2
  have hparams : Local (orEmpty (separatedBy (symbol ',') name)) (Before [')']) :=
    hname.listed
      (fun text x rest h => Nat.le_of_lt (takes_name.length_lt text x rest h)) (by simp)
      (.inr fun _ h => name_fails_of_head h.word)
  refine (keyword_local _).bind fun _ => ?_
  refine name_local.bind fun f => ?_
  refine (symbol_closed (by decide)).bind fun _ => ?_
  refine hparams.bind_symbol (fun params => ?_) (by simp)
  refine (symbol_closed (by decide)).bind fun _ => ?_
  exact (block_closed hs hr).map _

include he hs hr in
theorem conditional_closed : Closed (conditional expression statement) := by
  refine (keyword_local _).bind fun _ => ?_
  refine (symbol_closed (by decide)).bind fun _ => ?_
  refine he.bind_symbol (fun condition => ?_) (by decide)
  refine (symbol_closed (by decide)).bind fun _ => ?_
  exact (block_closed hs hr).map _

end

theorem Idle.statementAt_fails {expression : Parser Tree} {text : List Char} (h : Idle text)
    (he : Fails expression text) (depth : Nat) :
    Fails (statementAt expression (depth + 1)) text := by
  refine .orElse ?definition (.orElse ?conditional (.orElse ?assignment he.bind))
  case definition => exact (keyword_fails_of_head h.word _).bind
  case conditional => exact (keyword_fails_of_head h.word _).bind
  case assignment => exact (name_fails_of_head h.word).bind

/-- No statement of a program is read where nothing starts that an operand starts with. -/
theorem Idle.programStatement_fails {nesting : Nat} (hn : 0 < nesting) {text : List Char}
    (h : Idle text) : Fails (statementAt (expressionAt nesting) nesting) text := by
  obtain ⟨n, rfl⟩ := Nat.exists_eq_succ_of_ne_zero (Nat.pos_iff_ne_zero.1 hn)
  exact h.statementAt_fails (h.expressionAt_fails n) n

theorem statementAt_refuses {expression : Parser Tree}
    (hr : ∀ text, Idle text → Fails expression text) (depth : Nat) :
    Refuses (statementAt expression depth) := by
  cases depth with
  | zero => exact .inl fun _ => rfl
  | succ depth => exact .inr fun text h => h.statementAt_fails (hr text h) depth

/-- **A statement is read in the same way whatever follows it.** -/
theorem statementAt_closed {expression : Parser Tree}
    (he : Local expression (Before expressionEnds))
    (hbare : ∀ text rest t, expression text = .done t rest → At expressionEnds rest → Bare text)
    (hr : ∀ text, Idle text → Fails expression text) (depth : Nat) :
    Closed (statementAt expression depth) := by
  induction depth with
  | zero =>
    intro text rest rest' t h
    cases h
  | succ depth ih =>
    have hblock := statementAt_refuses hr depth
    intro text rest rest' t h _
    -- with other characters behind it, the form that was read has to be read again, and the forms
    -- that are tried before it have to fail again
    rcases orElse_eq_done.1 h with h | ⟨-, h⟩
    · obtain ⟨word, htext, hbegin, h'⟩ :=
        functionDefinition_closed ih hblock text rest rest' t h trivial
      exact ⟨word, htext, hbegin, orElse_of_done h'⟩
    rcases orElse_eq_done.1 h with h | ⟨-, h⟩
    · obtain ⟨word, htext, hbegin, h'⟩ :=
        conditional_closed he ih hblock text rest rest' t h trivial
      refine ⟨word, htext, hbegin, (orElse_of_fails ?_).trans (orElse_of_done h')⟩
      obtain ⟨u, mid, hk, -⟩ := bind_eq_done.1 h'
      refine (keyword_fails_of fun last hw => ?_).bind
      cases (Lexeme.keyword.inj (hw.unique (keyword_eq_done hk)).1)
    rcases orElse_eq_done.1 h with h | ⟨-, h⟩
    · obtain ⟨word, htext, hbegin, h'⟩ := assignment_closed he text rest rest' t h trivial
      obtain ⟨x, mid, hx, -⟩ := bind_eq_done.1 h'
      have hk := keyword_fails_of_name hx
      refine ⟨word, htext, hbegin, (orElse_of_fails (hk _).bind).trans ?_⟩
      exact (orElse_of_fails (hk _).bind).trans (orElse_of_done h')
    · obtain ⟨word, htext, hbegin, h'⟩ := expressionStatement_closed he text rest rest' t h trivial
      obtain ⟨e, mid, hexp, hmid⟩ := bind_eq_done.1 h'
      obtain ⟨u, last, hsemi, -⟩ := bind_eq_done.1 hmid
      have hat : At expressionEnds mid := ⟨';', by decide, by rw [symbol_eq_done hsemi]; rfl⟩
      have hb := hbare _ _ _ hexp hat
      exact ⟨word, htext, hbegin, (hb.statementAt_eq expression depth).trans h'⟩

/-- The statements of a program are read in the same way whatever follows them. -/
theorem programStatement_closed (nesting : Nat) :
    Closed (statementAt (expressionAt nesting) nesting) := by
  cases nesting with
  | zero =>
    intro text rest rest' t h
    cases h
  | succ nesting =>
    exact statementAt_closed (expressionAt_local _) (fun _ _ _ => expressionAt_bare)
      (fun _ h => h.expressionAt_fails nesting) _

end Tama.Grammar
