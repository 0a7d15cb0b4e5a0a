import Tama.Proofs.Grammar.Lockstep
import Tama.Proofs.Grammar.Tokens

/-!
# The token stream settles the trees

A parser of the grammar sees tokens only: on two texts with the same tokens it ends in the same way
and leaves the same tokens of both, so it also meets the nesting limit on both or on neither
(`SeesTokens`). Its readers look at one token each, and a repetition ends where the tokens do. A
program has a token stream, so every text with the same tokens is that program
(`tokens_determine_trees`).

A repetition allows for as many items as the text has characters, and on a text without any it does
not try a first one. That could tell two texts apart which both end in an open block, so these are
left out (`Same`); a program is no such text.
-/

set_option autoImplicit false

namespace Tama.Grammar

open Tama.Parser

/-! ## Two texts -/

/-- Two texts have the same tokens, the last of which opens no block. -/
def Same (text text' : List Char) : Prop :=
  ∃ ws vs, Lexed text ws ∧ Lexed text' vs ∧ vs.map Lexeme.token = ws.map Lexeme.token ∧
    ws.getLast? ≠ some (.symbol '{')

/-- A parser ends on two texts in the same way, and leaves the same tokens of both. -/
inductive Matches {α : Type} : Reply α → Reply α → Prop
  | done {a : α} {rest rest' : List Char} : Same rest rest' →
      Matches (.done a rest) (.done a rest')
  | failed {rest rest' : List Char} {wanted wanted' : Wanted} :
      Matches (.failed rest wanted) (.failed rest' wanted')
  | halted (cause : Halt) : Matches (.halted cause) (.halted cause)

/-- A parser sees tokens only. -/
def SeesTokens {α : Type} (p : Parser α) : Prop :=
  ∀ text text', Same text text' → Matches (p text) (p text')

theorem matches_iff {α : Type} {r r' : Reply α} : Matches r r' ↔ Parallel Same r r' := by
  constructor <;> intro h <;> cases h with
  | done h => exact .done h
  | failed => exact .failed
  | halted cause => exact .halted cause

/-- To see tokens only is to keep in step on texts with the same tokens. -/
theorem seesTokens_iff {α : Type} {p : Parser α} : SeesTokens p ↔ Lockstep Same Same p :=
  forall₃_congr fun _ _ _ => matches_iff

theorem Fails.matches {α : Type} {p : Parser α} {text text' : List Char} (h : Fails p text)
    (h' : Fails p text') : Matches (p text) (p text') :=
  matches_iff.2 (h.parallel h')

/-- Both texts are at their end, or a lexeme comes next in both, with the same token. -/
theorem Same.nil_or_cons {text text' : List Char} (h : Same text text') :
    Lexed text [] ∧ Lexed text' [] ∨
    ∃ w us v us', Lexed text (w :: us) ∧ Lexed text' (v :: us') ∧ v.token = w.token ∧
      ∀ rest rest', Lexed rest us → Lexed rest' us' → Same rest rest' := by
  obtain ⟨ws, vs, h, h', hmap, hlast⟩ := h
  cases ws with
  | nil =>
    rw [List.map_eq_nil_iff.1 hmap] at h'
    exact .inl ⟨h, h'⟩
  | cons w us =>
    obtain ⟨v, us', rfl, hv, hus⟩ := List.map_eq_cons_iff.1 hmap
    refine .inr ⟨w, us, v, us', h, h', hv, fun rest rest' hr hr' => ⟨us, us', hr, hr', hus, ?_⟩⟩
    cases us with
    | nil => nofun
    | cons u us => simpa using hlast

/-! ## Readers -/

theorem Lexeme.eq_of_token {v w : Lexeme} (h : v.token = w.token)
    (hw : ∀ digits, w ≠ .integer digits) : v = w := by
  cases v <;> cases w <;> grind [Lexeme.token]

/-- A parser that looks at the next token and takes up its lexeme, or fails. -/
theorem seesTokens_of_view {α : Type} {p : Parser α} (view : Tama.Lexeme → Option α)
    (reads : ∀ text w ws a, view w.token = some a → Lexed text (w :: ws) →
      ∃ rest, p text = .done a rest ∧ Lexed rest ws)
    (fails : ∀ text ws, Lexed text ws → (∀ w ∈ ws.head?, view w.token = none) → Fails p text) :
    SeesTokens p := by
  intro text text' h
  rcases h.nil_or_cons with ⟨h, h'⟩ | ⟨w, us, v, us', h, h', hv, hrest⟩
  · exact (fails text [] h nofun).matches (fails text' [] h' nofun)
  · cases hw : view w.token with
    | none =>
      refine (fails text _ h ?_).matches (fails text' _ h' ?_)
      · simpa using hw
      · simpa [hv] using hw
    | some a =>
      obtain ⟨rest, hp, hr⟩ := reads text w us a hw h
      obtain ⟨rest', hp', hr'⟩ := reads text' v us' a (hv ▸ hw) h'
      rw [hp, hp']
      exact .done (hrest rest rest' hr hr')

/-- A parser that takes up one lexeme, which is no literal. -/
theorem seesTokens_of_lexeme {p : Parser Unit} (w : Lexeme) (hw : ∀ digits, w ≠ .integer digits)
    (reads : ∀ text ws, Lexed text (w :: ws) → ∃ rest, p text = .done () rest ∧ Lexed rest ws)
    (fails : ∀ text ws, Lexed text ws → ws.head? ≠ some w → Fails p text) : SeesTokens p := by
  refine seesTokens_of_view (fun l => if l = w.token then some () else none)
    (fun text v ws u hv h => ?_) (fun text ws h hne => fails text ws h fun he => ?_)
  · obtain rfl : v = w := Lexeme.eq_of_token (by simpa using hv) hw
    exact reads text ws h
  · simpa using hne _ he

theorem symbol_seesTokens {c : Char} (hc : c ∈ symbols) : SeesTokens (symbol c) :=
  seesTokens_of_lexeme (.symbol c) nofun (fun _ _ => symbol_reads) fun _ _ => symbol_fails hc

theorem keyword_seesTokens (k : Keyword) : SeesTokens (keyword k) :=
  seesTokens_of_lexeme (.keyword k) nofun (fun _ _ => keyword_reads) fun _ _ => keyword_fails

/-- The name that a token is, if it is one. -/
def name? : Tama.Lexeme → Option String
  | .identifier x => some x
  | _ => none

/-- The number that a token is, if it is one. -/
def number? : Tama.Lexeme → Option Nat
  | .int n => some n
  | _ => none

theorem name_seesTokens : SeesTokens name := by
  refine seesTokens_of_view name? (fun text w ws x hw h => ?_) (fun text ws h hw => ?_)
  · obtain rfl : w = .name x := by
      cases w <;> grind [name?, Lexeme.token]
    exact name_reads h
  · refine name_fails h fun x he => ?_
    simpa [Lexeme.token, name?] using hw _ he

theorem integer_seesTokens : SeesTokens integer := by
  refine seesTokens_of_view number? (fun text w ws n hw h => ?_) (fun text ws h hw => ?_)
  · obtain ⟨digits, rfl, rfl⟩ : ∃ digits, w = .integer digits ∧ n = Digit.number digits := by
      cases w <;> grind [number?, Lexeme.token]
    exact integer_reads h
  · refine integer_fails h fun digits he => ?_
    simpa [Lexeme.token, number?] using hw _ he

theorem ending_seesTokens : SeesTokens ending := by
  intro text text' h
  rcases h.nil_or_cons with ⟨h, h'⟩ | ⟨w, us, v, us', h, h', -⟩
  · rw [ending_reads h, ending_reads h']
    have hend : Lexed [] [] := ⟨lexes_nil_iff.2 rfl, nofun⟩
    exact .done ⟨[], [], hend, hend, rfl, nofun⟩
  · have stuck : ∀ {text : List Char} {w : Lexeme} {us : List Lexeme}, Lexed text (w :: us) →
        Fails ending text := by
      intro text w us h
      refine fails_of (fun cause hp => ?_) fun u rest hp => ?_
      · unfold ending at hp
        split at hp <;> cases hp
      · cases h.lexes.unique (ending_done hp).2.lexes
    exact (stuck h).matches (stuck h')

/-! ## Combinators -/

section
variable {α β : Type} {p q : Parser α}

theorem SeesTokens.pure (a : α) : SeesTokens (pure a : Parser α) :=
  fun _ _ h => .done h

theorem SeesTokens.halt (cause : Halt) : SeesTokens (halt cause : Parser α) :=
  fun _ _ _ => .halted cause

theorem matches_bind {f : α → Parser β} {text text' : List Char}
    (hp : Matches (p text) (p text'))
    (hf : ∀ a rest rest', p text = .done a rest → Same rest rest' →
      Matches (f a rest) (f a rest')) : Matches ((p >>= f) text) ((p >>= f) text') := by
  rw [bind_apply, bind_apply]
  generalize hr : p text = r, p text' = r' at hp
  cases hp with
  | done h => exact hf _ _ _ hr h
  | failed => exact .failed
  | halted cause => exact .halted cause

theorem SeesTokens.bind {f : α → Parser β} (hp : SeesTokens p) (hf : ∀ a, SeesTokens (f a)) :
    SeesTokens (p >>= f) :=
  fun text text' h => matches_bind (hp text text' h) fun a rest rest' _ => hf a rest rest'

theorem SeesTokens.orElse (hp : SeesTokens p) (hq : SeesTokens q) :
    SeesTokens (Parser.orElse p q) :=
  seesTokens_iff.2 ((seesTokens_iff.1 hp).orElse (seesTokens_iff.1 hq))

/-- A repetition ends with the tokens, whatever the texts allow for, where the parser takes up a
lexeme each time and fails at the end. -/
theorem SeesTokens.repeatUpTo {G : List Lexeme → α → Prop} (hp : SeesTokens p) (hs : Sound p G)
    (hne : ∀ ws a, G ws a → ws ≠ []) (hend : ∀ text, Lexed text [] → Fails p text) (n m : Nat)
    {text text' : List Char} {ws : List Lexeme} (h : Same text text') (ht : Lexed text ws)
    (hn : ws.length ≤ n) (hm : ws.length ≤ m) :
    Matches (Parser.repeatUpTo p n text) (Parser.repeatUpTo p m text') := by
  -- at the end of both texts a parser that is still to be tried fails
  have finish : ∀ k text, Lexed text [] → Parser.repeatUpTo p k text = .done [] text := by
    intro k text h
    cases k with
    | zero => rfl
    | succ k =>
      obtain ⟨rest, wanted, hp⟩ := hend text h
      simp only [Parser.repeatUpTo, hp]
  induction n generalizing m text text' ws with
  | zero =>
    rcases h.nil_or_cons with ⟨h₀, h₀'⟩ | ⟨w, us, _, _, h₀, -⟩
    · rw [finish _ text h₀, finish _ text' h₀']
      exact .done h
    · cases ht.lexes.unique h₀.lexes
      cases hn
  | succ n ih =>
    rcases h.nil_or_cons with ⟨h₀, h₀'⟩ | ⟨w, us, _, _, h₀, -⟩
    · rw [finish _ text h₀, finish _ text' h₀']
      exact .done h
    cases ht.lexes.unique h₀.lexes
    obtain ⟨m, rfl⟩ : ∃ k, m = k + 1 := ⟨m - 1, by simp only [List.length_cons] at hm; omega⟩
    have hmatch := hp text text' h
    unfold Parser.repeatUpTo
    generalize hr : p text = r, p text' = r' at hmatch ⊢
    cases hmatch with
    | @done a rest rest' hsame =>
      obtain ⟨ws₁, vs₁, h₁, -⟩ := id hsame
      obtain ⟨vs, hvs, hsound⟩ := hs text rest a hr ws₁ h₁
      have hlt : ws₁.length < (w :: us).length := by
        have hpos := List.length_pos_iff.2 (hne vs a hvs)
        rw [ht.lexes.unique hsound.lexes, List.length_append]
        omega
      have hrest := ih m hsame h₁ (by omega) (by omega)
      dsimp only
      generalize Parser.repeatUpTo p n rest = r, Parser.repeatUpTo p m rest' = r' at hrest ⊢
      cases hrest with
      | done hlast => exact .done hlast
      | failed => exact .failed
      | halted cause => exact .halted cause
    | failed => exact .done h
    | halted cause => exact .halted cause

theorem SeesTokens.many {G : List Lexeme → α → Prop} (hp : SeesTokens p) (hs : Sound p G)
    (hne : ∀ ws a, G ws a → ws ≠ []) (hend : ∀ text, Lexed text [] → Fails p text) :
    SeesTokens (Parser.many p) := by
  intro text text' h
  obtain ⟨ws, vs, ht, ht', hsame, -⟩ := id h
  have hlength : vs.length = ws.length := by simpa using congrArg List.length hsame
  have hn := ht.lexes.length_le
  have hm := ht'.lexes.length_le
  exact hp.repeatUpTo hs hne hend text.length text'.length h ht hn (hlength ▸ hm)

/-- Items after a symbol each. -/
theorem SeesTokens.manyAfter {G : List Lexeme → α → Prop} (hp : SeesTokens p) (hs : Sound p G)
    {c : Char} (hc : c ∈ symbols) : SeesTokens (Parser.many (do symbol c; p)) := by
  refine ((symbol_seesTokens hc).bind fun _ => hp).many (hs.afterSymbol hc) ?_ fun text h => ?_
  · rintro _ a ⟨vs, rfl, -⟩
    nofun
  · exact (symbol_fails hc h nofun).bind

theorem SeesTokens.listed {G : List Lexeme → α → Prop} (hp : SeesTokens p) (hs : Sound p G) :
    SeesTokens (orEmpty (separatedBy (symbol ',') p)) := by
  refine .orElse (hp.bind fun a => ?_) (.pure [])
  exact (hp.manyAfter hs (by decide)).bind fun as => .pure (a :: as)

end

/-! ## Rules -/

section
variable {expression : Parser Tree} (he : SeesTokens expression) (hs : Sound expression Expression)

include he hs in
theorem operand_seesTokens : SeesTokens (operand expression) := by
  have hsymbol : ∀ {c : Char}, c ∈ symbols → Lockstep Same Same (symbol c) :=
    fun hc => seesTokens_iff.1 (symbol_seesTokens hc)
  have hlisted := seesTokens_iff.1 (he.listed hs)
  have hargs : Lockstep Same Same (callArguments expression) :=
    (hsymbol (by decide)).bind fun _ => hlisted.bind fun args =>
      (hsymbol (by decide)).bind fun _ => .pure args
  have hinside := (seesTokens_iff.1 he).bind fun e =>
    (hsymbol (c := ')') (by decide)).bind fun _ => .pure e
  exact seesTokens_iff.2 (.operand (seesTokens_iff.1 integer_seesTokens)
    (fun k => seesTokens_iff.1 (keyword_seesTokens k)) (seesTokens_iff.1 name_seesTokens)
    (hsymbol (by decide)) hargs hinside)

end

theorem expressionAt_seesTokens (depth : Nat) : SeesTokens (expressionAt depth) := by
  induction depth with
  | zero => exact .halt .tooDeep
  | succ depth ih =>
    have ho := operand_seesTokens ih (expressionAt_sound depth)
    refine ho.bind fun first => .bind ?_ fun rest => .pure _
    exact ho.manyAfter (operand_sound (expressionAt_sound depth)) (by decide)

/-- A block is opened by a brace, which is not the last token. -/
theorem block_seesTokens {statement : Parser Tree}
    (hs : ∀ text text', Same text text' → ¬ Lexed text [] →
      Matches (Parser.many statement text) (Parser.many statement text')) :
    SeesTokens (block statement) := by
  intro text text' h
  refine matches_bind (symbol_seesTokens (by decide) text text' h) fun u mid mid' hopen hmid => ?_
  have hopened : ¬ Lexed mid [] := by
    intro hm
    obtain ⟨ws, -, ht, -, -, hlast⟩ := h
    rw [ht.lexes.unique (symbol_done (by decide) hopen hm).lexes] at hlast
    exact hlast rfl
  refine matches_bind (hs mid mid' hmid hopened) fun body last last' _ hlast => ?_
  exact ((symbol_seesTokens (by decide)).bind fun _ => .pure body) last last' hlast

theorem many_halt_matches {text text' : List Char} (h : Same text text') (hne : ¬ Lexed text []) :
    Matches (Parser.many (halt .tooDeep : Parser Tree) text)
      (Parser.many (halt .tooDeep) text') := by
  have halts : ∀ {text : List Char} {w : Lexeme} {us : List Lexeme}, Lexed text (w :: us) →
      Parser.many (halt .tooDeep : Parser Tree) text = .halted .tooDeep := by
    intro text w us h
    have hlength := h.lexes.length_le
    cases text with
    | nil => cases hlength
    | cons c text => rfl
  rcases h.nil_or_cons with ⟨h₀, -⟩ | ⟨w, us, v, us', h₀, h₀', -⟩
  · exact absurd h₀ hne
  · rw [halts h₀, halts h₀']
    exact .halted _

section
variable {expression : Parser Tree} (he : SeesTokens expression) (hs : Sound expression Expression)
  (hend : ∀ text, Idle text → Fails expression text)

include hs hend in
theorem statements_seesTokens {depth : Nat}
    (hst : SeesTokens (statementAt expression (depth + 1))) :
    SeesTokens (Parser.many (statementAt expression (depth + 1))) :=
  hst.many (statementAt_sound hs (depth + 1)) (fun _ _ => Statement.ne_nil) fun text h =>
    have hidle := idle_of_skip (lexes_nil_iff.1 h.lexes)
    hidle.statementAt_fails (hend text hidle) depth

include he hs hend in
theorem statementAt_seesTokens (depth : Nat) : SeesTokens (statementAt expression depth) := by
  induction depth with
  | zero => exact .halt .tooDeep
  | succ depth ih =>
    have hblock : SeesTokens (block (statementAt expression depth)) := by
      refine block_seesTokens fun text text' h hne => ?_
      cases depth with
      | zero => exact many_halt_matches h hne
      | succ depth => exact statements_seesTokens hs hend ih text text' h
    refine .orElse ?definition (.orElse ?conditional (.orElse ?assignment ?expression))
    case definition =>
      refine (keyword_seesTokens _).bind fun _ => name_seesTokens.bind fun f => ?_
      refine (symbol_seesTokens (by decide)).bind fun _ => ?_
      refine (name_seesTokens.listed parameter_sound).bind fun params => ?_
      exact (symbol_seesTokens (by decide)).bind fun _ => hblock.bind fun body => .pure _
    case conditional =>
      refine (keyword_seesTokens _).bind fun _ => (symbol_seesTokens (by decide)).bind fun _ => ?_
      refine he.bind fun c => (symbol_seesTokens (by decide)).bind fun _ => ?_
      exact hblock.bind fun body => .pure _
    case assignment =>
      refine name_seesTokens.bind fun x => (symbol_seesTokens (by decide)).bind fun _ => ?_
      exact he.bind fun e => (symbol_seesTokens (by decide)).bind fun _ => .pure _
    case expression =>
      exact he.bind fun e => (symbol_seesTokens (by decide)).bind fun _ => .pure e

end

theorem program_seesTokens {nesting : Nat} (h : 0 < nesting) : SeesTokens (program nesting) := by
  obtain ⟨nesting, rfl⟩ := Nat.exists_eq_succ_of_ne_zero (Nat.pos_iff_ne_zero.1 h)
  have hs := expressionAt_sound (nesting + 1)
  have hend : ∀ text, Idle text → Fails (expressionAt (nesting + 1)) text :=
    fun _ h => h.expressionAt_fails nesting
  have hstatement := statementAt_seesTokens (expressionAt_seesTokens (nesting + 1)) hs hend
  exact (statements_seesTokens hs hend (hstatement (nesting + 1))).bind fun body =>
    ending_seesTokens.bind fun _ => .pure body

/-- A text with the tokens of a program is the same program. -/
theorem Same.program_eq {nesting : Nat} {text text' : List Char} {trees : List Tree}
    (h : Same text text') (hn : 0 < nesting) (hd : program nesting text = .done trees []) :
    program nesting text' = .done trees [] := by
  have hmatch := program_seesTokens hn text text' h
  rw [hd] at hmatch
  generalize hr : program nesting text' = r at hmatch
  cases hmatch with
  | done _ => rw [(program_sound hr).1]

theorem Statement.getLast?_ne {ws : List Lexeme} {t : Tree} (h : Statement ws t) :
    ws.getLast? ≠ some (.symbol '{') := by
  cases h <;> simp [List.getLast?_cons, List.getLast?_append]

/-- A program does not end in an open block. -/
theorem Star.getLast?_ne {ws : List Lexeme} {ts : List Tree} (h : Star Statement ws ts) :
    ws.getLast? ≠ some (.symbol '{') := by
  induction h with
  | nil => nofun
  | @cons ws vs _ _ hs _ ih =>
    rw [List.getLast?_append]
    cases hv : vs.getLast? with
    | none => exact hs.getLast?_ne
    | some w => rwa [hv] at ih

/-! ## What tokens show -/

/-- What a token shows: its class and its value. -/
def shown (t : Token) : String × Datum :=
  (t.lexeme.type, t.lexeme.value)

theorem eq_of_type_value {l k : Tama.Lexeme} (ht : l.type = k.type) (hv : l.value = k.value) :
    l = k := by
  have singleton : ∀ {c d : Char}, Datum.text (String.singleton c) = .text (String.singleton d) →
      c = d := fun h => by simpa using congrArg String.toList (Datum.text.inj h)
  cases l <;> cases k <;> simp only [Tama.Lexeme.type, String.reduceEq] at ht
  case int.int => rw [Int.natCast_inj.1 (Datum.int.inj hv)]
  case operator.operator => rw [singleton hv]
  case delimiter.delimiter => rw [singleton hv]
  case keyword.keyword k k' =>
    have hk : k.spelling = k'.spelling := String.ofList_inj.1 (Datum.text.inj hv)
    have he := Keyword.ofWord?_spelling k
    rw [hk, Keyword.ofWord?_spelling] at he
    rw [Option.some.inj he]
  case identifier.identifier => rw [Datum.text.inj hv]

theorem map_lexeme_eq {tokens others : List Token} (h : others.map shown = tokens.map shown) :
    others.map Token.lexeme = tokens.map Token.lexeme := by
  induction others generalizing tokens with
  | nil => rw [List.map_eq_nil_iff.1 h.symm]
  | cons t others ih =>
    obtain ⟨u, tokens', rfl, hu, htokens⟩ := List.map_eq_cons_iff.1 h.symm
    obtain ⟨htype, hvalue⟩ := Prod.mk.inj hu
    rw [List.map_cons, List.map_cons, eq_of_type_value htype hvalue, ih htokens.symm]

/-! ## The main statement -/

/-- **The token stream settles the trees.** A text that is read as a program has a token stream. A
text with plain blanks whose tokens show the same is then read as a program with the same trees. -/
theorem tokens_determine_trees (source filename : String) (trees : List Tree)
    (h : Program.read source filename = .ok trees) :
    (∀ file, ∃ tokens, Lexer.tokenize source file = .ok tokens) ∧
    ∀ file tokens other otherFile others, Lexer.tokenize source file = .ok tokens →
      Lexer.tokenize other otherFile = .ok others → PlainBlanks other.toList →
      others.map shown = tokens.map shown →
      ∀ file', Program.read other file' = .ok trees := by
  obtain ⟨ws, hws, hs⟩ := read_eq_ok.1 h
  have hscan := tokens_of_lexes (lexes_expandFrom.1 hws.lexes) hws.readable
  refine ⟨fun file => ?_, fun file tokens other otherFile others ht ho hp hshown file' => ?_⟩
  · obtain ⟨tokens, ht, -⟩ := hscan file 1 1
    exact ⟨tokens, by rw [Lexer.tokenize_eq_scanFrom, ht]⟩
  · rw [Lexer.tokenize_eq_scanFrom] at ht ho
    obtain ⟨tokens', ht', hmap⟩ := hscan file 1 1
    cases ht.symm.trans ht'
    obtain ⟨vs, hvs, hmap'⟩ := lexed_of_tokens hp ho
    have hsame : Same (Tab.expand source.toList) (Tab.expand other.toList) :=
      ⟨ws, vs, hws, ⟨lexes_expandFrom.2 hvs.lexes, hvs.readable⟩,
        hmap'.trans ((map_lexeme_eq hshown).trans hmap), hs.getLast?_ne⟩
    have hdone := (read_eq_ok_iff_program (Nat.lt_succ_self _)).1 h
    exact read_of_program (hsame.program_eq (Nat.succ_pos _) hdone)

/-- Blanks, a comment and a leading zero do not change a call. -/
theorem tokens_determine_trees_of_call :
    Program.read "f(1);" "" = .ok [.call "f" [.int 1]] ∧
    Program.read "f (\t01 )# one\n;" "" = .ok [.call "f" [.int 1]] := by
  have hs : (Lexer.tokenize "f(1);" "").map (List.map shown) = .ok [("IDENTIFIER", .text "f"),
      ("DELIMITER", .text "("), ("INT", .int 1), ("DELIMITER", .text ")"),
      ("DELIMITER", .text ";")] := by cbv
  have hother : (Lexer.tokenize "f (\t01 )# one\n;" "").map (List.map shown) =
      .ok [("IDENTIFIER", .text "f"), ("DELIMITER", .text "("), ("INT", .int 1),
        ("DELIMITER", .text ")"), ("DELIMITER", .text ";")] := by cbv
  have hread : Program.read "f(1);" "" = .ok [.call "f" [.int 1]] :=
    read_of_program (by cbv : Parser.program 5 _ = _)
  refine ⟨hread, ?_⟩
  obtain ⟨hscanned, hsame⟩ := tokens_determine_trees "f(1);" "" _ hread
  obtain ⟨tokens, ht⟩ := hscanned ""
  have hshown := hother.trans hs.symm
  rw [ht] at hshown
  cases ho : Lexer.tokenize "f (\t01 )# one\n;" "" with
  | error e =>
    rw [ho] at hshown
    cases hshown
  | ok others =>
    rw [ho] at hshown
    have plain : PlainBlanks "f (\t01 )# one\n;".toList := by decide
    exact hsame "" tokens _ "" others ht ho plain (Except.ok.inj hshown) ""

end Tama.Grammar
