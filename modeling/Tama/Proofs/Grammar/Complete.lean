import Tama.Proofs.Grammar.Closed
import Tama.Proofs.Grammar.Sound

/-!
# What is in the grammar is read

`Complete p G F`: where a text starts with lexemes that `G` allows and `F` allows what follows them,
the parser `p` reads exactly these lexemes, with the result that `G` gives. The one thing that can
keep it from doing so is the nesting limit, so every statement holds up to it (`Reads`, `Stuck`).

An alternative that is tried first and is not the right one fails on the first lexeme or the second,
before it has read anything inside it; and a repetition stops where it should because what follows
it cannot start another item. Main statement: `program_complete`.
-/

set_option autoImplicit false

namespace Tama.Grammar

open Tama.Parser

/-- A parser reads a result off a text and leaves a text with the given lexemes, unless the nesting
limit stops it. -/
def Reads {α : Type} (p : Parser α) (text : List Char) (a : α) (ws : List Lexeme) : Prop :=
  p text = .halted .tooDeep ∨ ∃ rest, p text = .done a rest ∧ Lexed rest ws

/-- A parser does not succeed on a text: it fails, or the nesting limit stops it. -/
def Stuck {α : Type} (p : Parser α) (text : List Char) : Prop :=
  p text = .halted .tooDeep ∨ Fails p text

/-- Whatever the grammar allows, a parser reads, where what follows is as `F` says. -/
def Complete {α : Type} (p : Parser α) (G : List Lexeme → α → Prop) (F : List Lexeme → Prop) :
    Prop :=
  ∀ (text : List Char) (vs ws : List Lexeme) (a : α), G vs a → Lexed text (vs ++ ws) → F ws →
    Reads p text a ws

/-! ## Sequences and alternatives -/

section
variable {α β : Type} {p q : Parser α} {text : List Char} {a : α} {ws : List Lexeme}

theorem Reads.of_done {rest : List Char} (h : p text = .done a rest) (hr : Lexed rest ws) :
    Reads p text a ws :=
  .inr ⟨rest, h, hr⟩

theorem Reads.pure (h : Lexed text ws) : Reads (pure a) text a ws :=
  .inr ⟨text, rfl, h⟩

theorem Reads.bind {f : α → Parser β} {b : β} {vs : List Lexeme} (hp : Reads p text a ws)
    (hf : ∀ mid, Lexed mid ws → Reads (f a) mid b vs) : Reads (p >>= f) text b vs := by
  rcases hp with hp | ⟨mid, hp, hm⟩
  · exact .inl (by rw [bind_apply, hp])
  · have := hf mid hm
    rwa [Reads, bind_apply, hp]

theorem Stuck.bind {f : α → Parser β} (hp : Stuck p text) : Stuck (p >>= f) text := by
  rcases hp with hp | ⟨rest, wanted, hp⟩
  · exact .inl (by rw [bind_apply, hp])
  · exact .inr ⟨rest, wanted, by rw [bind_apply, hp]⟩

theorem Reads.bind_stuck {f : α → Parser β} (hp : Reads p text a ws)
    (hf : ∀ mid, Lexed mid ws → Stuck (f a) mid) : Stuck (p >>= f) text := by
  rcases hp with hp | ⟨mid, hp, hm⟩
  · exact .inl (by rw [bind_apply, hp])
  · have := hf mid hm
    rwa [Stuck, Fails, bind_apply, hp]

theorem Reads.orElse (hp : Reads p text a ws) : Reads (Parser.orElse p q) text a ws := by
  rcases hp with hp | ⟨rest, hp, hr⟩
  · exact .inl (by rw [Parser.orElse, hp])
  · exact .inr ⟨rest, by rw [Parser.orElse, hp], hr⟩

theorem Stuck.reads_orElse (hp : Stuck p text) (hq : Reads q text a ws) :
    Reads (Parser.orElse p q) text a ws := by
  rcases hp with hp | ⟨rest, wanted, hp⟩
  · exact .inl (by rw [Parser.orElse, hp])
  · rwa [Reads, Parser.orElse, hp]

theorem Stuck.orElse (hp : Stuck p text) (hq : Stuck q text) :
    Stuck (Parser.orElse p q) text := by
  rcases hp with hp | ⟨rest, wanted, hp⟩
  · exact .inl (by rw [Parser.orElse, hp])
  · rwa [Stuck, Fails, Parser.orElse, hp]

end

/-! ## Repetitions -/

section
variable {α : Type} {p : Parser α} {G : List Lexeme → α → Prop} {F E : List Lexeme → Prop}

theorem Complete.repeatUpTo (hp : Complete p G F) (hF : ∀ vs a ws, G vs a → F (vs ++ ws))
    (hE : ∀ ws, E ws → F ws) (hs : ∀ text ws, E ws → Lexed text ws → Stuck p text)
    {vs : List Lexeme} {as : List α} (h : Star G vs as) {ws : List Lexeme} (hw : E ws) :
    ∀ (n : Nat) (text : List Char), as.length ≤ n → Lexed text (vs ++ ws) →
      Reads (Parser.repeatUpTo p n) text as ws := by
  -- what follows an item starts either the next one or the end of the repetition
  have follows : ∀ {vs : List Lexeme} {as : List α}, Star G vs as → F (vs ++ ws) := by
    intro vs as h
    cases h with
    | nil => exact hE ws hw
    | cons ha _ => rw [List.append_assoc]; exact hF _ _ _ ha
  induction h with
  | nil =>
    intro n text _ ht
    cases n with
    | zero => exact .pure ht
    | succ n =>
      rcases hs text ws hw ht with h | ⟨rest, wanted, h⟩
      · exact .inl (by simp only [Parser.repeatUpTo, h])
      · exact .of_done (by simp only [Parser.repeatUpTo, h]) ht
  | @cons us vs a as ha has ih =>
    intro n text hn ht
    obtain ⟨n, rfl⟩ : ∃ m, n = m + 1 := ⟨n - 1, by simp at hn; omega⟩
    rw [List.append_assoc] at ht
    rcases hp text us (vs ++ ws) a ha ht (follows has) with h | ⟨mid, h, hm⟩
    · exact .inl (by simp only [Parser.repeatUpTo, h])
    · rcases ih n mid (by simpa using hn) hm with h' | ⟨rest, h', hr⟩
      · exact .inl (by simp only [Parser.repeatUpTo, h, h'])
      · exact .of_done (by simp only [Parser.repeatUpTo, h, h']) hr

theorem Star.length_le (hne : ∀ vs a, G vs a → vs ≠ []) {vs : List Lexeme} {as : List α}
    (h : Star G vs as) : as.length ≤ vs.length := by
  induction h with
  | nil => simp
  | cons ha _ ih =>
    have := List.length_pos_iff.2 (hne _ _ ha)
    simp only [List.length_cons, List.length_append]
    omega

theorem Complete.many (hp : Complete p G F) (hne : ∀ vs a, G vs a → vs ≠ [])
    (hF : ∀ vs a ws, G vs a → F (vs ++ ws)) (hE : ∀ ws, E ws → F ws)
    (hs : ∀ text ws, E ws → Lexed text ws → Stuck p text) :
    Complete (Parser.many p) (Star G) E := by
  intro text vs ws as h ht hw
  refine hp.repeatUpTo hF hE hs h hw text.length text ?_ ht
  have := h.length_le hne
  have := ht.lexes.length_le
  rw [List.length_append] at this
  omega

end

/-! ## Symbols between items -/

/-- A symbol of a list comes next. -/
def Next (cs : List Char) (ws : List Lexeme) : Prop :=
  ∃ c ∈ cs, ∃ vs, ws = .symbol c :: vs

theorem Next.head?_ne {cs : List Char} {ws : List Lexeme} (h : Next cs ws) {d : Char}
    (hd : d ∉ cs) : ws.head? ≠ some (.symbol d) := by
  obtain ⟨c, hc, vs, rfl⟩ := h
  intro he
  simp only [List.head?_cons, Option.some.injEq, Lexeme.symbol.injEq] at he
  exact hd (he ▸ hc)

theorem Next.mono {cs ds : List Char} {ws : List Lexeme} (h : Next cs ws) (hs : cs ⊆ ds) :
    Next ds ws := by
  obtain ⟨c, hc, vs, rfl⟩ := h
  exact ⟨c, hs hc, vs, rfl⟩

theorem reads_symbol {c : Char} {text : List Char} {ws : List Lexeme}
    (h : Lexed text (.symbol c :: ws)) : Reads (symbol c) text () ws :=
  .inr (symbol_reads h)

theorem reads_keyword {k : Keyword} {text : List Char} {ws : List Lexeme}
    (h : Lexed text (.keyword k :: ws)) : Reads (keyword k) text () ws :=
  .inr (keyword_reads h)

theorem reads_name {x : String} {text : List Char} {ws : List Lexeme}
    (h : Lexed text (.name x :: ws)) : Reads name text x ws :=
  .inr (name_reads h)

section
variable {α : Type} {p : Parser α} {G : List Lexeme → α → Prop} {F E : List Lexeme → Prop}

theorem Complete.afterSymbol (hp : Complete p G F) (c : Char) :
    Complete (do symbol c; p) (After (.symbol c) G) F := by
  rintro text _ ws a ⟨vs, rfl, ha⟩ ht hw
  exact (reads_symbol ht).bind fun mid hm => hp mid vs ws a ha hm hw

/-- Items that a symbol stands before, up to where this symbol does not come next. -/
theorem Complete.manyAfter (hp : Complete p G F) {c : Char} (hc : c ∈ symbols)
    (hF : ∀ ws, F (.symbol c :: ws)) (hE : ∀ ws, E ws → F ws ∧ ws.head? ≠ some (.symbol c)) :
    Complete (Parser.many (do symbol c; p)) (Star (After (.symbol c) G)) E := by
  refine (hp.afterSymbol c).many ?_ ?_ (fun ws hw => (hE ws hw).1) ?_
  · rintro _ a ⟨vs, rfl, -⟩
    simp
  · rintro _ a ws ⟨vs, rfl, -⟩
    exact hF (vs ++ ws)
  · intro text ws hw ht
    exact Stuck.bind (.inr (symbol_fails hc ht (hE ws hw).2))

theorem Separated.exists_star {vs : List Lexeme} {as : List α} (h : Separated G vs as) :
    ∃ us a ts bs, vs = us ++ ts ∧ as = a :: bs ∧ G us a ∧ Star (After (.symbol ',') G) ts bs := by
  induction h with
  | @one ws a ha => exact ⟨ws, a, [], [], by simp, rfl, ha, .nil⟩
  | @cons ws vs a as ha _ ih =>
    obtain ⟨us, b, ts, bs, rfl, rfl, hb, hbs⟩ := ih
    exact ⟨ws, a, _, _, rfl, rfl, ha, .cons ⟨us, rfl, hb⟩ hbs⟩

/-- A list in parentheses, up to the closing one. -/
theorem Complete.listed (hp : Complete p G F) (hF : ∀ c ∈ [',', ')'], ∀ ws, F (.symbol c :: ws))
    (hs : ∀ text ws, Next [')'] ws → Lexed text ws → Stuck p text) :
    Complete (orEmpty (Parser.separatedBy (symbol ',') p)) (Listed G) (Next [')']) := by
  intro text vs ws as h ht hw
  cases h with
  | none => exact (hs text ws hw ht).bind.reads_orElse (.pure ht)
  | some h =>
    obtain ⟨us, a, ts, bs, rfl, rfl, ha, hbs⟩ := h.exists_star
    rw [List.append_assoc] at ht
    have hrest : Complete (Parser.many (do symbol ','; p)) (Star (After (.symbol ',') G))
        (Next [')']) := by
      refine hp.manyAfter (by decide) (hF ',' (by simp)) fun ws hw => ⟨?_, hw.head?_ne (by simp)⟩
      obtain ⟨c, hc, vs, rfl⟩ := hw
      exact hF c (by simpa using .inr (List.mem_singleton.1 hc)) vs
    have hfirst : F (ts ++ ws) := by
      cases hbs with
      | nil =>
        obtain ⟨c, hc, vs, rfl⟩ := hw
        exact hF c (by simpa using .inr (List.mem_singleton.1 hc)) vs
      | cons hb _ =>
        obtain ⟨us, rfl, -⟩ := hb
        exact hF ',' (by simp) _
    refine Reads.orElse ((hp text us _ a ha ht hfirst).bind fun mid hm => ?_)
    exact (hrest mid ts ws bs hbs hm hw).bind fun last hl => .pure hl

end

/-! ## Expressions -/

/-- What can come after an operand. -/
def AfterOperand : List Lexeme → Prop :=
  Next ['+', ')', ',', ';']

/-- What can come after an expression. -/
def AfterExpression : List Lexeme → Prop :=
  Next [')', ',', ';']

/-- No operand starts here: the text ends, or a symbol comes next that is no parenthesis. -/
def NoOperand (ws : List Lexeme) : Prop :=
  ∀ w ∈ ws.head?, ∃ c, w = .symbol c ∧ c ≠ '('

theorem Next.noOperand {cs : List Char} {ws : List Lexeme} (h : Next cs ws) (hc : '(' ∉ cs) :
    NoOperand ws := by
  obtain ⟨c, hmem, vs, rfl⟩ := h
  intro w hw
  cases hw
  exact ⟨c, rfl, fun he => hc (he ▸ hmem)⟩

theorem NoOperand.idle {text : List Char} {ws : List Lexeme} (hw : NoOperand ws)
    (h : Lexed text ws) : Idle text := by
  cases ws with
  | nil => exact idle_of_skip (lexes_nil_iff.1 h.lexes)
  | cons w ws =>
    obtain ⟨c, rfl, hne⟩ := hw w rfl
    obtain ⟨-, rest, hs, -⟩ := lexed_cons_iff.1 h
    generalize ht : skip text = start at hs
    cases hs with
    | symbol hc =>
      have hat : At [c] text := ⟨c, List.mem_singleton_self c, by rw [ht]; rfl⟩
      exact hat.idle (by simpa using hc) (by simpa using Ne.symm hne)

theorem expressionAt_stuck (depth : Nat) {text : List Char} {ws : List Lexeme}
    (h : Lexed text ws) (hw : NoOperand ws) : Stuck (expressionAt depth) text := by
  cases depth with
  | zero => exact .inl rfl
  | succ depth => exact .inr ((hw.idle h).expressionAt_fails depth)

section
variable {expression : Parser Tree} (he : Complete expression Expression AfterExpression)
  (hs : ∀ text ws, NoOperand ws → Lexed text ws → Stuck expression text)
include he hs

theorem call_complete {f : String} {text : List Char} {vs ws : List Lexeme} {args : List Tree}
    (h : Listed Expression vs args)
    (ht : Lexed text (.name f :: .symbol '(' :: (vs ++ .symbol ')' :: ws))) :
    Reads (call expression) text (.call f args) ws := by
  refine (reads_name ht).bind fun m₁ h₁ => Reads.bind ?_ fun (m : List Char)
    (h : Lexed m ws) => .pure h
  refine (reads_symbol h₁).bind fun m₂ h₂ => ?_
  have hnext : ∀ c ∈ [',', ')'], ∀ ws, AfterExpression (.symbol c :: ws) := by
    intro c hc ws
    refine ⟨c, ?_, ws, rfl⟩
    rcases List.mem_cons.1 hc with rfl | hc
    · decide
    · cases List.mem_singleton.1 hc
      decide
  have hlist := he.listed hnext fun text ws hw => hs text ws (hw.noOperand (by decide))
  refine (hlist m₂ vs _ args h h₂ ⟨')', by simp, ws, rfl⟩).bind fun m₃ h₃ => ?_
  exact (reads_symbol h₃).bind fun m₄ h₄ => .pure h₄

theorem operand_complete : Complete (operand expression) Operand AfterOperand := by
  intro text vs ws t h ht hw
  have of_keyword : ∀ {k : Keyword}, literal? k = some t → Lexed text (.keyword k :: ws) →
      Reads (operand expression) text t ws := by
    intro k hk ht
    obtain ⟨mid, hread, hm⟩ := keyword_reads ht
    exact .of_done (operand_of_keyword expression hk hread) hm
  cases h with
  | integer digits =>
    obtain ⟨mid, hread, hm⟩ := integer_reads ht
    exact .of_done (operand_of_integer expression hread) hm
  | true => exact of_keyword rfl ht
  | false => exact of_keyword rfl ht
  | null => exact of_keyword rfl ht
  | @call f us args h =>
    have hfirst := operand_of_fails expression (integer_fails ht nofun)
      fun k => keyword_fails ht nofun
    rw [Reads, hfirst]
    exact Reads.orElse (call_complete he hs h (by simpa using ht))
  | var x =>
    obtain ⟨mid, hread, hm⟩ := name_reads ht
    have hopen : Fails (symbol '(') mid := symbol_fails (by decide) hm (hw.head?_ne (by decide))
    exact .of_done (operand_of_name expression hread hopen) hm
  | @parenthesized us t h =>
    have ht : Lexed text (.symbol '(' :: (us ++ .symbol ')' :: ws)) := by simpa using ht
    obtain ⟨m₁, h₁, hm₁⟩ := symbol_reads ht
    rw [Reads, operand_of_open expression (by rw [symbol_eq_done h₁]; rfl)]
    have ho : openOperand text = .done () m₁ := by
      rcases openOperand_cases text with ⟨m, ho, hm⟩ | ⟨-, _, _, hf⟩
      · rw [h₁] at hm
        cases hm
        exact ho
      · rw [h₁] at hf
        cases hf
    refine (Reads.of_done ho hm₁).bind fun m₂ h₂ => ?_
    refine (he m₂ us _ t h h₂ ⟨')', by decide, ws, rfl⟩).bind fun m₃ h₃ => ?_
    exact (reads_symbol h₃).bind fun m₄ h₄ => .pure h₄

end

theorem Star.snoc {α : Type} {G : List Lexeme → α → Prop} {vs us : List Lexeme} {as : List α}
    {a : α} (h : Star G vs as) (ha : G us a) : Star G (vs ++ us) (as ++ [a]) := by
  induction h with
  | nil => simpa using Star.cons ha .nil
  | cons hb _ ih =>
    rw [List.append_assoc]
    exact .cons hb ih

theorem Sum.exists_star {vs : List Lexeme} {t : Tree} (h : Expression vs t) :
    ∃ us first ts rest, vs = us ++ ts ∧ t = Tree.sum first rest ∧ Operand us first ∧
      Star (After (.symbol '+') Operand) ts rest := by
  induction h with
  | @operand ws t h => exact ⟨ws, t, [], [], by simp, rfl, h, .nil⟩
  | @add ws vs l r _ hr ih =>
    obtain ⟨us, first, ts, rest, rfl, rfl, hf, hts⟩ := ih
    exact ⟨us, first, _, _, by rw [List.append_assoc], by simp [Tree.sum], hf,
      hts.snoc ⟨vs, rfl, hr⟩⟩

theorem addition_complete {operand : Parser Tree} (ho : Complete operand Operand AfterOperand) :
    Complete (addition operand) Expression AfterExpression := by
  intro text vs ws t h ht hw
  obtain ⟨us, first, ts, rest, rfl, rfl, hf, hts⟩ := h.exists_star
  rw [List.append_assoc] at ht
  have hmany : Complete (Parser.many (do symbol '+'; operand))
      (Star (After (.symbol '+') Operand)) AfterExpression :=
    ho.manyAfter (by decide) (fun ws => ⟨'+', by simp, ws, rfl⟩) fun ws hw =>
      ⟨hw.mono (by simp), hw.head?_ne (by decide)⟩
  have hfirst : AfterOperand (ts ++ ws) := by
    cases hts with
    | nil => exact hw.mono (by simp)
    | cons hb _ =>
      obtain ⟨us, rfl, -⟩ := hb
      exact ⟨'+', by simp, _, rfl⟩
  refine (ho text us _ first hf ht hfirst).bind fun mid hm => ?_
  exact (hmany mid ts ws rest hts hm hw).bind fun last hl => .pure hl

theorem expressionAt_complete (depth : Nat) :
    Complete (expressionAt depth) Expression AfterExpression := by
  induction depth with
  | zero => exact fun _ _ _ _ _ _ _ => .inl rfl
  | succ depth ih =>
    exact addition_complete
      (operand_complete ih fun _ _ hw ht => expressionAt_stuck depth ht hw)

/-! ## Statements -/

/-- How an operand starts: with no keyword of a statement, and not as an assignment does. -/
def StartsOperand (ws : List Lexeme) : Prop :=
  ws.head? ≠ some (.keyword .define) ∧ ws.head? ≠ some (.keyword .cond) ∧
    ∀ x vs, ws = .name x :: vs → vs.head? ≠ some (.symbol '=')

theorem Operand.starts {vs ws : List Lexeme} {t : Tree} (h : Operand vs t)
    (hw : AfterOperand ws) : StartsOperand (vs ++ ws) := by
  cases h with
  | call f h => exact ⟨nofun, nofun, by rintro x _ ⟨⟩; nofun⟩
  | var x =>
    refine ⟨nofun, nofun, ?_⟩
    rintro y _ ⟨⟩
    exact hw.head?_ne (by decide)
  | _ => exact ⟨nofun, nofun, nofun⟩

theorem Sum.starts {vs ws : List Lexeme} {t : Tree} (h : Expression vs t)
    (hw : AfterOperand ws) : StartsOperand (vs ++ ws) := by
  induction h generalizing ws with
  | operand h => exact h.starts hw
  | @add us vs l r _ _ ih =>
    rw [List.append_assoc]
    exact ih ⟨'+', by simp, vs ++ ws, rfl⟩

/-- The statements of a block or a program are at their end. -/
def AtEnd (ws : List Lexeme) : Prop :=
  ∀ w ∈ ws.head?, w = .symbol '}'

theorem AtEnd.noOperand {ws : List Lexeme} (h : AtEnd ws) : NoOperand ws :=
  fun w hw => ⟨'}', h w hw, by decide⟩

theorem parameter_complete : Complete name Parameter (fun _ => True) := by
  rintro text _ ws x ⟨⟩ ht -
  exact reads_name ht

theorem Statement.ne_nil {vs : List Lexeme} {t : Tree} (h : Statement vs t) : vs ≠ [] := by
  cases h <;> simp

section
variable {expression statement : Parser Tree}
  (he : Complete expression Expression AfterExpression)
  (hs : ∀ text ws, NoOperand ws → Lexed text ws → Stuck expression text)

include hs in
theorem statementAt_stuck (depth : Nat) {text : List Char} {ws : List Lexeme}
    (h : Lexed text ws) (hw : AtEnd ws) : Stuck (statementAt expression depth) text := by
  have hne : ∀ w, w ≠ .symbol '}' → ws.head? ≠ some w := fun w hn he => hn (hw w he)
  cases depth with
  | zero => exact .inl rfl
  | succ depth =>
    refine .orElse ?definition (.orElse ?conditional (.orElse ?assignment ?expression))
    case definition => exact Stuck.bind (.inr (keyword_fails h (hne _ nofun)))
    case conditional => exact Stuck.bind (.inr (keyword_fails h (hne _ nofun)))
    case assignment => exact Stuck.bind (.inr (name_fails h fun x => hne _ nofun))
    case expression => exact (hs text ws hw.noOperand h).bind

section
variable (hb : Complete statement Statement (fun _ => True))
  (hend : ∀ text ws, AtEnd ws → Lexed text ws → Stuck statement text)

include hb hend in
theorem statements_complete : Complete (Parser.many statement) (Star Statement) AtEnd :=
  hb.many (fun _ _ => Statement.ne_nil) (fun _ _ _ _ => trivial) (fun _ _ => trivial) hend

include hb hend in
theorem block_complete {text : List Char} {bs ws : List Lexeme} {body : List Tree}
    (h : Star Statement bs body)
    (ht : Lexed text (.symbol '{' :: (bs ++ .symbol '}' :: ws))) :
    Reads (block statement) text body ws := by
  refine (reads_symbol ht).bind fun m₁ h₁ => ?_
  have hat : AtEnd (.symbol '}' :: ws) := by
    rintro w ⟨⟩
    rfl
  refine (statements_complete hb hend m₁ bs _ body h h₁ hat).bind fun m₂ h₂ => ?_
  exact (reads_symbol h₂).bind fun m₃ h₃ => .pure h₃

include hb hend in
theorem functionDefinition_complete {f : String} {params : List String} {body : List Tree}
    {text : List Char} {ps bs ws : List Lexeme} (hp : Listed Parameter ps params)
    (hbody : Star Statement bs body)
    (ht : Lexed text (.keyword .define :: .name f :: .symbol '(' ::
      (ps ++ .symbol ')' :: .symbol '{' :: (bs ++ .symbol '}' :: ws)))) :
    Reads (functionDefinition statement) text (.definition f params body) ws := by
  refine (reads_keyword ht).bind fun m₁ h₁ => (reads_name h₁).bind fun m₂ h₂ => ?_
  refine (reads_symbol h₂).bind fun m₃ h₃ => ?_
  have hlist := parameter_complete.listed (fun _ _ _ => trivial) fun text ws hw ht =>
    .inr (name_fails ht fun x => by obtain ⟨c, -, vs, rfl⟩ := hw; nofun)
  refine (hlist m₃ ps _ params hp h₃ ⟨')', by simp, _, rfl⟩).bind fun m₄ h₄ => ?_
  refine (reads_symbol h₄).bind fun m₅ h₅ => ?_
  exact (block_complete hb hend hbody h₅).bind fun m₆ h₆ => .pure h₆

include he hb hend in
theorem conditional_complete {condition : Tree} {body : List Tree} {text : List Char}
    {cs bs ws : List Lexeme} (hc : Expression cs condition) (hbody : Star Statement bs body)
    (ht : Lexed text (.keyword .cond :: .symbol '(' ::
      (cs ++ .symbol ')' :: .symbol '{' :: (bs ++ .symbol '}' :: ws)))) :
    Reads (conditional expression statement) text (.conditional condition body) ws := by
  refine (reads_keyword ht).bind fun m₁ h₁ => (reads_symbol h₁).bind fun m₂ h₂ => ?_
  refine (he m₂ cs _ condition hc h₂ ⟨')', by decide, _, rfl⟩).bind fun m₃ h₃ => ?_
  refine (reads_symbol h₃).bind fun m₄ h₄ => ?_
  exact (block_complete hb hend hbody h₄).bind fun m₅ h₅ => .pure h₅

end

include he in
theorem assignment_complete {x : String} {e : Tree} {text : List Char} {es ws : List Lexeme}
    (h : Expression es e)
    (ht : Lexed text (.name x :: .symbol '=' :: (es ++ .symbol ';' :: ws))) :
    Reads (assignment expression) text (.assignment x e) ws := by
  refine (reads_name ht).bind fun m₁ h₁ => (reads_symbol h₁).bind fun m₂ h₂ => ?_
  refine (he m₂ es _ e h h₂ ⟨';', by decide, _, rfl⟩).bind fun m₃ h₃ => ?_
  exact (reads_symbol h₃).bind fun m₄ h₄ => .pure h₄

include he in
theorem expressionStatement_complete {e : Tree} {text : List Char} {es ws : List Lexeme}
    (h : Expression es e) (ht : Lexed text (es ++ .symbol ';' :: ws)) :
    Reads (expressionStatement expression) text e ws := by
  refine (he text es _ e h ht ⟨';', by decide, _, rfl⟩).bind fun m₁ h₁ => ?_
  exact (reads_symbol h₁).bind fun m₂ h₂ => .pure h₂

/-- An assignment is tried before an expression, and fails on it at the first lexeme or the
second. -/
theorem assignment_stuck (expression : Parser Tree) {text : List Char} {ws : List Lexeme}
    (h : Lexed text ws) (hw : StartsOperand ws) : Stuck (assignment expression) text := by
  by_cases hx : ∃ x, ws.head? = some (.name x)
  · obtain ⟨x, hx⟩ := hx
    obtain ⟨vs, rfl⟩ := List.head?_eq_some_iff.1 hx
    refine (reads_name h).bind_stuck fun mid hm => ?_
    exact Stuck.bind (.inr (symbol_fails (by decide) hm (hw.2.2 x vs rfl)))
  · exact Stuck.bind (.inr (name_fails h fun x he => hx ⟨x, he⟩))

include he hs in
theorem statementAt_complete (depth : Nat) :
    Complete (statementAt expression depth) Statement (fun _ => True) := by
  induction depth with
  | zero => exact fun _ _ _ _ _ _ _ => .inl rfl
  | succ depth ih =>
    have hend : ∀ text ws, AtEnd ws → Lexed text ws → Stuck (statementAt expression depth) text :=
      fun _ _ hw ht => statementAt_stuck hs depth ht hw
    intro text vs ws t h ht _
    cases h with
    | definition f hp hb =>
      exact Reads.orElse (functionDefinition_complete ih hend hp hb (by simpa using ht))
    | conditional hc hb =>
      refine Stuck.reads_orElse (.bind (.inr (keyword_fails ht nofun))) (.orElse ?_)
      exact conditional_complete he ih hend hc hb (by simpa using ht)
    | assignment x h =>
      refine Stuck.reads_orElse (.bind (.inr (keyword_fails ht nofun))) ?_
      refine Stuck.reads_orElse (.bind (.inr (keyword_fails ht nofun))) (.orElse ?_)
      exact assignment_complete he h (by simpa using ht)
    | @expression es e h =>
      rw [List.append_assoc] at ht
      have hst : StartsOperand (es ++ .symbol ';' :: ws) := h.starts ⟨';', by decide, ws, rfl⟩
      refine Stuck.reads_orElse (.bind (.inr (keyword_fails ht hst.1))) ?_
      refine Stuck.reads_orElse (.bind (.inr (keyword_fails ht hst.2.1))) ?_
      refine Stuck.reads_orElse (assignment_stuck expression ht hst) ?_
      exact expressionStatement_complete he h ht

end

/-! ## Programs -/

/-- Every program is read as such, unless the nesting limit stops the parser. -/
theorem program_complete (nesting : Nat) {text : List Char} {trees : List Tree}
    (h : Derives text trees) :
    program nesting text = .halted .tooDeep ∨ program nesting text = .done trees [] := by
  obtain ⟨ws, hl, hws⟩ := h
  have hs : ∀ text ws, NoOperand ws → Lexed text ws → Stuck (expressionAt nesting) text :=
    fun _ _ hw ht => expressionAt_stuck nesting ht hw
  have hbody := statements_complete
    (statementAt_complete (expressionAt_complete nesting) hs nesting)
    fun _ _ hw ht => statementAt_stuck hs nesting ht hw
  rcases hbody text ws [] trees hws (by simpa using hl) nofun with h | ⟨rest, h, hr⟩
  · exact .inl (by rw [program, bind_apply, h])
  · refine .inr ?_
    rw [program, bind_apply, h]
    simp only [bind_apply, ending_reads hr]
    rfl

end Tama.Grammar
