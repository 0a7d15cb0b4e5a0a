import Tama.Proofs.Grammar.Closed
import Tama.Proofs.Grammar.Failure
import Tama.Proofs.Grammar.Lockstep

/-!
# Progress

Whatever is read begins with a lexeme, so a term, an expression and a statement each take up a
character that is not skipped (`Advances`), and what stands inside of one is read behind its first
lexeme (`EntersLater`). From the first it follows that no repetition goes on without end, from the
second that rules nest no deeper than the text is long (`expressionAt_stable`,
`statementAt_stable`). Main statement: `reading_progresses`.

That a rule reads a part of itself only in some places is said by exchanging the parser of the
parts: `SameOn P Q p q` holds of two parsers that cannot be told apart on the texts of `P`, where
they leave texts of `Q`.
-/

set_option autoImplicit false

namespace Tama.Grammar

open Tama.Parser

/-! ## Later texts -/

/-- A text is what is left of another one behind at least one character that is not skipped. -/
structure Later (text rest : List Char) : Prop where
  suffix : rest <:+ skip text
  length_lt : rest.length < (skip text).length

theorem Later.of_suffix {text mid rest : List Char} (h : Later text mid) (hs : rest <:+ mid) :
    Later text rest :=
  ⟨hs.trans h.suffix, Nat.lt_of_le_of_lt hs.length_le h.length_lt⟩

theorem Later.suffix_text {text rest : List Char} (h : Later text rest) : rest <:+ text :=
  h.suffix.trans (skip_suffix text)

theorem Later.length_lt_text {text rest : List Char} (h : Later text rest) :
    rest.length < text.length :=
  Nat.lt_of_lt_of_le h.length_lt (length_skip_le text)

/-- A parser that takes up a character that is not skipped where it succeeds. -/
def Advances {α : Type} (p : Parser α) : Prop :=
  ∀ text a rest, p text = .done a rest → Later text rest

section
variable {α β : Type} {p q : Parser α}

theorem Advances.bind {f : α → Parser β} (hp : Advances p) (hf : ∀ a, Onward (f a)) :
    Advances (p >>= f) := by
  intro text b rest h
  obtain ⟨a, mid, ha, h⟩ := bind_eq_done.1 h
  exact (hp text a mid ha).of_suffix ((hf a).done mid b rest h)

theorem Advances.orElse (hp : Advances p) (hq : Advances q) : Advances (Parser.orElse p q) := by
  intro text a rest h
  rcases orElse_eq_done.1 h with h | ⟨-, h⟩
  · exact hp text a rest h
  · exact hq text a rest h

end

theorem symbol_advances (c : Char) : Advances (symbol c) := by
  intro text u rest h
  have hs := symbol_eq_done h
  exact ⟨hs ▸ List.suffix_cons c rest, by rw [hs]; exact Nat.lt_succ_self _⟩

theorem Spells.later {text rest : List Char} {w : Lexeme} (h : Spells (skip text) w rest) :
    Later text rest := by
  obtain ⟨-, -, -, -, hlt⟩ := h.exists_start
  exact ⟨h.suffix, hlt⟩

theorem keyword_advances (k : Keyword) : Advances (keyword k) :=
  fun _ _ _ h => (keyword_eq_done h).later

theorem name_advances : Advances name := by
  intro text x rest h
  obtain ⟨c, tail, hs, -, -, -, rfl⟩ := name_eq_done h
  have hsuffix : tail.dropWhile Word.isPart <:+ tail := List.dropWhile_suffix _
  refine ⟨hs ▸ hsuffix.trans (List.suffix_cons c tail), ?_⟩
  rw [hs, List.length_cons]
  exact Nat.lt_succ_of_le hsuffix.length_le

theorem integer_advances : Advances integer := by
  intro text n rest h
  obtain ⟨digits, -, -, hs⟩ := integer_spells h
  exact hs.later

theorem openOperand_advances : Advances openOperand := by
  intro text u rest h
  rcases openOperand_cases text with ⟨mid, ho, hs⟩ | ⟨⟨_, _, ho⟩, -⟩ <;> rw [ho] at h
  · cases h
    exact symbol_advances '(' text () rest hs
  · cases h

/-! ## Rules advance -/

theorem operand_advances {expression : Parser Tree} (he : Onward expression) :
    Advances (operand expression) := by
  have hinside : ∀ args : List Tree, Onward (do symbol ')'; return args) := fun args =>
    (symbol_onward ')').bind fun _ => .pure args
  refine .orElse ?integer (.orElse (.orElse ?true ?false) (.orElse ?null (.orElse ?call
    (.orElse ?var ?paren))))
  case integer => exact integer_advances.bind fun _ => .pure _
  case true => exact (keyword_advances _).bind fun _ => .pure _
  case false => exact (keyword_advances _).bind fun _ => .pure _
  case null => exact (keyword_advances _).bind fun _ => .pure _
  case call =>
    refine name_advances.bind fun f => .bind ?_ fun args => .pure _
    exact (symbol_onward '(').bind fun _ => he.listed.bind hinside
  case var => exact name_advances.bind fun _ => .pure _
  case paren =>
    exact openOperand_advances.bind fun _ => he.bind fun e =>
      (symbol_onward ')').bind fun _ => .pure e

/-- The rule for expressions, given how the expressions inside are read. -/
def expressionRule (inner : Parser Tree) : Parser Tree :=
  addition (operand inner)

/-- The rule for statements, given how expressions and the statements inside are read. -/
def statementRule (expression inner : Parser Tree) : Parser Tree :=
  orElse (functionDefinition inner) <|
  orElse (conditional expression inner) <|
  orElse (assignment expression) (expressionStatement expression)

section
variable {expression statement inner : Parser Tree}

theorem addend_onward {operand : Parser Tree} (ho : Onward operand) :
    Onward (do symbol '+'; operand) :=
  (symbol_onward '+').bind fun _ => ho

theorem expressionRule_advances (he : Onward inner) : Advances (expressionRule inner) :=
  (operand_advances he).bind fun _ =>
    (addend_onward (operand_onward he)).many.bind fun _ => .pure _

theorem statementRule_advances (he : Onward expression) (ha : Advances expression)
    (hs : Onward statement) : Advances (statementRule expression statement) := by
  have hb := block_onward hs
  refine .orElse ?definition (.orElse ?conditional (.orElse ?assignment ?expression))
  case definition =>
    refine (keyword_advances _).bind fun _ => name_onward.bind fun f => ?_
    refine (symbol_onward _).bind fun _ => name_onward.listed.bind fun params => ?_
    exact (symbol_onward _).bind fun _ => hb.bind fun body => .pure _
  case conditional =>
    refine (keyword_advances _).bind fun _ => (symbol_onward _).bind fun _ => ?_
    exact he.bind fun c => (symbol_onward _).bind fun _ => hb.bind fun body => .pure _
  case assignment =>
    refine name_advances.bind fun x => (symbol_onward _).bind fun _ => ?_
    exact he.bind fun e => (symbol_onward _).bind fun _ => .pure _
  case expression => exact ha.bind fun e => (symbol_onward _).bind fun _ => .pure e

theorem expressionAt_advances (depth : Nat) : Advances (expressionAt depth) := by
  cases depth with
  | zero => exact nofun
  | succ depth => exact expressionRule_advances (expressionAt_onward depth)

theorem statementAt_advances (he : Onward expression) (ha : Advances expression) (depth : Nat) :
    Advances (statementAt expression depth) := by
  cases depth with
  | zero => exact nofun
  | succ depth => exact statementRule_advances he ha (statementAt_onward he depth)

end

/-! ## The parsers of parts -/

/-- Two parsers cannot be told apart on the texts of `P`, and what they leave there is in `Q`. -/
structure SameOn (P Q : List Char → Prop) {α : Type} (p q : Parser α) : Prop where
  eq : ∀ text, P text → p text = q text
  rest : ∀ text a rest, P text → p text = .done a rest → Q rest

/-- A class of texts that has the ends of its texts. -/
def EndsIn (Q : List Char → Prop) : Prop :=
  ∀ text rest, Q text → rest <:+ text → Q rest

namespace SameOn

variable {α β : Type} {P Q R : List Char → Prop} {p q p' q' : Parser α}

theorem refl (hQ : EndsIn Q) (hp : Onward p) : SameOn Q Q p p :=
  ⟨fun _ _ => rfl, fun text a rest ht h => hQ text rest ht (hp.done text a rest h)⟩

/-- Behind a parser that advances there are later texts only. -/
theorem advance (hQ : ∀ text rest, P text → Later text rest → Q rest) (hp : Advances p) :
    SameOn P Q p p :=
  ⟨fun _ _ => rfl, fun text a rest ht h => hQ text rest ht (hp text a rest h)⟩

theorem bind {f g : α → Parser β} (h : SameOn P Q p q) (hf : ∀ a, SameOn Q R (f a) (g a)) :
    SameOn P R (p >>= f) (q >>= g) := by
  constructor
  · intro text ht
    rw [bind_apply, bind_apply, ← h.eq text ht]
    split
    · rename_i a mid ha
      exact (hf a).eq mid (h.rest text a mid ht ha)
    · rfl
    · rfl
  · intro text b rest ht hb
    obtain ⟨a, mid, ha, hb⟩ := bind_eq_done.1 hb
    exact (hf a).rest mid b rest (h.rest text a mid ht ha) hb

theorem orElse (h : SameOn P Q p q) (h' : SameOn P Q p' q') :
    SameOn P Q (Parser.orElse p p') (Parser.orElse q q') := by
  constructor
  · intro text ht
    unfold Parser.orElse
    rw [← h.eq text ht, ← h'.eq text ht]
  · intro text a rest ht ha
    rcases orElse_eq_done.1 ha with ha | ⟨-, ha⟩
    · exact h.rest text a rest ht ha
    · exact h'.rest text a rest ht ha

theorem pure (a : α) : SameOn Q Q (Pure.pure a : Parser α) (Pure.pure a) := by
  refine ⟨fun _ _ => rfl, fun text b rest ht h => ?_⟩
  cases h
  exact ht

theorem repeatUpTo (h : SameOn Q Q p q) (n : Nat) :
    SameOn Q Q (Parser.repeatUpTo p n) (Parser.repeatUpTo q n) := by
  induction n with
  | zero => exact .pure []
  | succ n ih =>
    constructor
    · intro text ht
      unfold Parser.repeatUpTo
      rw [← h.eq text ht]
      split
      · rename_i a mid ha
        rw [ih.eq mid (h.rest text a mid ht ha)]
      · rfl
      · rfl
    · intro text as rest ht has
      unfold Parser.repeatUpTo at has
      split at has
      · rename_i a mid ha
        split at has <;> cases has
        rename_i as' hl
        exact ih.rest mid as' rest (h.rest text a mid ht ha) hl
      · cases has
        exact ht
      · cases has

theorem many (h : SameOn Q Q p q) : SameOn Q Q (Parser.many p) (Parser.many q) :=
  ⟨fun text => (h.repeatUpTo text.length).eq text, fun text => (h.repeatUpTo text.length).rest text⟩

theorem listed (hQ : EndsIn Q) (h : SameOn Q Q p q) :
    SameOn Q Q (orEmpty (separatedBy (symbol ',') p)) (orEmpty (separatedBy (symbol ',') q)) := by
  refine .orElse (h.bind fun a => .bind (.many ?_) fun as => .pure _) (.pure [])
  exact (refl hQ (symbol_onward ',')).bind fun _ => h

end SameOn

/-! ## Rules with other parts -/

section
variable {P Q : List Char → Prop} {e e' s s' : Parser Tree} (hQ : EndsIn Q)
  (hPQ : ∀ text rest, P text → Later text rest → Q rest)
include hQ hPQ

/-- What stands in an operand is read behind its first lexeme. -/
theorem operand_same (he : SameOn Q Q e e') : SameOn P Q (operand e) (operand e') := by
  have hclose : ∀ t : Tree, SameOn Q Q (do symbol ')'; return t) (do symbol ')'; return t) :=
    fun t => .bind (.refl hQ (symbol_onward ')')) fun _ => .pure t
  refine .orElse ?integer (.orElse (.orElse ?true ?false) (.orElse ?null (.orElse ?call
    (.orElse ?var ?paren))))
  case integer => exact .bind (.advance hPQ integer_advances) fun _ => .pure _
  case true => exact .bind (.advance hPQ (keyword_advances _)) fun _ => .pure _
  case false => exact .bind (.advance hPQ (keyword_advances _)) fun _ => .pure _
  case null => exact .bind (.advance hPQ (keyword_advances _)) fun _ => .pure _
  case call =>
    refine .bind (.advance hPQ name_advances) fun f => .bind ?_ fun args => .pure _
    refine .bind (.refl hQ (symbol_onward '(')) fun _ => .bind (.listed hQ he) fun args => ?_
    exact .bind (.refl hQ (symbol_onward ')')) fun _ => .pure args
  case var => exact .bind (.advance hPQ name_advances) fun _ => .pure _
  case paren => exact .bind (.advance hPQ openOperand_advances) fun _ => he.bind hclose

theorem expressionRule_same (he : SameOn Q Q e e') :
    SameOn P Q (expressionRule e) (expressionRule e') := by
  have hoperand : SameOn Q Q (operand e) (operand e') :=
    operand_same hQ (fun text rest ht h => hQ text rest ht h.suffix_text) he
  refine .bind (operand_same hQ hPQ he) fun first => .bind (.many ?_) fun rest => .pure _
  exact .bind (.refl hQ (symbol_onward '+')) fun _ => hoperand

theorem statementRule_same (hfirst : SameOn P Q e e') (he : SameOn Q Q e e')
    (hs : SameOn Q Q s s') :
    SameOn P Q (statementRule e s) (statementRule e' s') := by
  have hsymbol : ∀ c, SameOn Q Q (symbol c) (symbol c) := fun c => .refl hQ (symbol_onward c)
  have hblock : SameOn Q Q (block s) (block s') :=
    (hsymbol '{').bind fun _ => hs.many.bind fun body => (hsymbol '}').bind fun _ => .pure body
  refine .orElse ?definition (.orElse ?conditional (.orElse ?assignment ?expression))
  case definition =>
    refine .bind (.advance hPQ (keyword_advances _)) fun _ => ?_
    refine .bind (.refl hQ name_onward) fun f => (hsymbol '(').bind fun _ => ?_
    refine .bind (.listed hQ (.refl hQ name_onward)) fun params => (hsymbol ')').bind fun _ => ?_
    exact hblock.bind fun body => .pure _
  case conditional =>
    refine .bind (.advance hPQ (keyword_advances _)) fun _ => (hsymbol '(').bind fun _ => ?_
    exact he.bind fun c => (hsymbol ')').bind fun _ => hblock.bind fun body => .pure _
  case assignment =>
    refine .bind (.advance hPQ name_advances) fun x => (hsymbol '=').bind fun _ => ?_
    exact he.bind fun e => (hsymbol ';').bind fun _ => .pure _
  case expression => exact hfirst.bind fun e => (hsymbol ';').bind fun _ => .pure e

end

/-! ## Entering a rule again -/

/-- A rule enters the parser of its parts on later texts only. What that parser does on any other
text, were it to halt the parse there, makes no difference. -/
def EntersLater (rule : Parser Tree → Parser Tree) : Prop :=
  ∀ text p q, Onward p → (∀ t, Later text t → p t = q t) → rule p text = rule q text

theorem later_endsIn (text : List Char) : EndsIn (Later text) :=
  fun _ _ h hs => h.of_suffix hs

theorem SameOn.of_later {text : List Char} {p q : Parser Tree} (hp : Onward p)
    (h : ∀ t, Later text t → p t = q t) : SameOn (Later text) (Later text) p q :=
  ⟨h, fun t a rest ht ha => ht.of_suffix (hp.done t a rest ha)⟩

theorem expressionRule_entersLater : EntersLater expressionRule := by
  intro text p q hp h
  have hrule := expressionRule_same (P := (· = text)) (later_endsIn text)
    (fun t rest ht hrest => ht ▸ hrest) (.of_later hp h)
  exact hrule.eq text rfl

theorem statementRule_entersLater {expression : Parser Tree} (he : Onward expression)
    (ha : Advances expression) : EntersLater (statementRule expression) := by
  intro text p q hp h
  have hlater : ∀ t rest, t = text → Later t rest → Later text rest :=
    fun t rest ht hrest => ht ▸ hrest
  have hrule := statementRule_same (later_endsIn text) hlater (.advance hlater ha)
    (.refl (later_endsIn text) he) (.of_later hp h)
  exact hrule.eq text rfl

/-! ## Nesting -/

/-- The texts of fewer than `k` characters. -/
def Shorter (k : Nat) (text : List Char) : Prop :=
  text.length < k

theorem shorter_endsIn (k : Nat) : EndsIn (Shorter k) :=
  fun _ _ h hs => Nat.lt_of_le_of_lt hs.length_le h

theorem Shorter.later {k : Nat} {text rest : List Char} (h : Shorter (k + 1) text)
    (hrest : Later text rest) : Shorter k rest :=
  Nat.lt_of_lt_of_le hrest.length_lt_text (Nat.le_of_lt_succ h)

/-- On shorter texts two parsers cannot be told apart either. -/
theorem SameOn.shrink {k : Nat} {p q : Parser Tree} (h : SameOn (Shorter (k + 1)) (Shorter k) p q) :
    SameOn (Shorter k) (Shorter k) p q :=
  ⟨fun text ht => h.eq text (Nat.lt_succ_of_lt ht),
    fun text a rest ht ha => h.rest text a rest (Nat.lt_succ_of_lt ht) ha⟩

theorem SameOn.shorter {k : Nat} {p q : Parser Tree}
    (h : SameOn (Shorter (k + 1)) (Shorter k) p q) :
    SameOn (Shorter (k + 1)) (Shorter (k + 1)) p q :=
  ⟨h.eq, fun text a rest ht ha => Nat.lt_succ_of_lt (h.rest text a rest ht ha)⟩

theorem SameOn.none {p q : Parser Tree} : SameOn (Shorter 0) (Shorter 0) p q :=
  ⟨fun _ ht => absurd ht (Nat.not_lt_zero _), fun _ _ _ ht _ => absurd ht (Nat.not_lt_zero _)⟩

/-- More nesting than a text has characters makes no difference to an expression. -/
theorem expressionAt_stable {k n m : Nat} (hn : k ≤ n) (hm : k ≤ m) :
    SameOn (Shorter k) (Shorter k) (expressionAt n) (expressionAt m) := by
  induction k generalizing n m with
  | zero => exact .none
  | succ k ih =>
    obtain ⟨n, rfl⟩ : ∃ i, n = i + 1 := ⟨n - 1, by omega⟩
    obtain ⟨m, rfl⟩ : ∃ i, m = i + 1 := ⟨m - 1, by omega⟩
    exact (expressionRule_same (shorter_endsIn k) (fun _ _ ht h => ht.later h)
      (ih (Nat.le_of_succ_le_succ hn) (Nat.le_of_succ_le_succ hm))).shorter

/-- More nesting than a text has characters makes no difference to a statement. -/
theorem statementAt_stable {e e' : Parser Tree} {most : Nat}
    (he : SameOn (Shorter most) (Shorter most) e e') (ha : Advances e) {k n m : Nat} (hk : k ≤ most)
    (hn : k ≤ n) (hm : k ≤ m) :
    SameOn (Shorter k) (Shorter k) (statementAt e n) (statementAt e' m) := by
  induction k generalizing n m with
  | zero => exact .none
  | succ k ih =>
    obtain ⟨n, rfl⟩ : ∃ i, n = i + 1 := ⟨n - 1, by omega⟩
    obtain ⟨m, rfl⟩ : ∃ i, m = i + 1 := ⟨m - 1, by omega⟩
    have hmost : ∀ text, Shorter (k + 1) text → Shorter most text :=
      fun text ht => Nat.lt_of_lt_of_le ht hk
    have hfirst : SameOn (Shorter (k + 1)) (Shorter k) e e' :=
      ⟨fun text ht => he.eq text (hmost text ht),
        fun text a rest ht h => ht.later (ha text a rest h)⟩
    exact (statementRule_same (shorter_endsIn k) (fun _ _ ht h => ht.later h) hfirst hfirst.shrink
      (ih (Nat.le_of_succ_le hk) (Nat.le_of_succ_le_succ hn) (Nat.le_of_succ_le_succ hm))).shorter

section
variable {text : List Char} {n m : Nat}

theorem programStatement_stable (hn : text.length < n) (hm : text.length < m) :
    SameOn (Shorter (text.length + 1)) (Shorter (text.length + 1))
      (statementAt (expressionAt n) n) (statementAt (expressionAt m) m) :=
  statementAt_stable (expressionAt_stable (Nat.succ_le_of_lt hn) (Nat.succ_le_of_lt hm))
    (expressionAt_advances n) (Nat.le_refl _) hn hm

/-- A program is read as with any other nesting of more levels than it has characters. -/
theorem program_stable (hn : text.length < n) (hm : text.length < m) :
    program n text = program m text := by
  unfold program
  have hs := (programStatement_stable hn hm).many
  rw [bind_apply, bind_apply, hs.eq text (Nat.lt_succ_self _)]

theorem wholeExpression_stable (hn : text.length < n) (hm : text.length < m) :
    wholeExpression n text = wholeExpression m text := by
  have he := expressionAt_stable (Nat.succ_le_of_lt hn) (Nat.succ_le_of_lt hm)
  unfold wholeExpression
  rw [bind_apply, bind_apply, he.eq text (Nat.lt_succ_self _)]

theorem wholeExpression_tooDeep (h : wholeExpression n text = .halted .tooDeep) :
    n ≤ text.length := by
  rcases bind_eq_halted.1 h with h | ⟨e, mid, -, h⟩
  · exact (expressionAt_bounded n).le_length text h
  · rcases bind_eq_halted.1 h with h | ⟨u, last, -, h⟩
    · unfold ending at h
      split at h <;> cases h
    · cases h

end

/-! ## Repetitions -/

/-- A repetition of items that take up something each: it ends, however many items it is allowed
beyond the characters of its text. -/
structure Ends {α : Type} (item : Parser α) : Prop where
  advances : Advances item
  ends : ∀ text n, text.length ≤ n → repeatUpTo item n text = many item text

theorem Advances.ends {α : Type} {item : Parser α} (h : Advances item) (hend : Fails item []) :
    Ends item :=
  ⟨h, fun _ _ hn => repeatUpTo_eq_many (fun t a rest ht => (h t a rest ht).length_lt_text) hend hn⟩

theorem ends_afterSymbol {α : Type} {item : Parser α} (c : Char) (h : Onward item) :
    Ends (do symbol c; item) := by
  have hnil : Fails (symbol c) [] := ⟨[], _, rfl⟩
  exact ((symbol_advances c).bind fun _ => h).ends hnil.bind

theorem ends_statements (depth blocks : Nat) :
    Ends (statementAt (expressionAt (depth + 1)) (blocks + 1)) := by
  have hnil : Idle [] := idle_of_skip rfl
  have h := statementAt_advances (expressionAt_onward (depth + 1))
    (expressionAt_advances (depth + 1)) (blocks + 1)
  exact h.ends (hnil.statementAt_fails (hnil.expressionAt_fails depth) blocks)

/-! ## The main statement -/

/-- **Reading always progresses.** A term, an expression and a statement each take up a character
that is not skipped; an expression is entered inside of an expression on later texts only, and so is
a statement inside of a statement. So no repetition goes on without reading anything, and a text is
read as if nesting had no limit with one level more than it has characters, for its statements and
for its expressions. -/
theorem reading_progresses (depth blocks : Nat) :
    (Advances (operand (expressionAt depth)) ∧ Advances (expressionAt depth) ∧
      Advances (statementAt (expressionAt depth) blocks)) ∧
    (expressionAt (depth + 1) = expressionRule (expressionAt depth) ∧
      EntersLater expressionRule) ∧
    (statementAt (expressionAt depth) (blocks + 1) =
        statementRule (expressionAt depth) (statementAt (expressionAt depth) blocks) ∧
      EntersLater (statementRule (expressionAt depth))) ∧
    (Ends (statementAt (expressionAt (depth + 1)) (blocks + 1)) ∧
      Ends (do symbol '+'; operand (expressionAt depth)) ∧
      Ends (do symbol ','; expressionAt depth) ∧ Ends (do symbol ','; name)) ∧
    ∀ text : List Char, text.length < depth →
      program depth text ≠ .halted .tooDeep ∧
      program depth text = program (text.length + 1) text ∧
      wholeExpression depth text ≠ .halted .tooDeep ∧
      wholeExpression depth text = wholeExpression (text.length + 1) text := by
  have honward := expressionAt_onward depth
  have hadvances := expressionAt_advances depth
  refine ⟨⟨operand_advances honward, hadvances, statementAt_advances honward hadvances blocks⟩,
    ⟨rfl, expressionRule_entersLater⟩, ⟨rfl, statementRule_entersLater honward hadvances⟩,
    ⟨ends_statements depth blocks, ends_afterSymbol '+' (operand_onward honward),
      ends_afterSymbol ',' honward, ends_afterSymbol ',' name_onward⟩, ?_⟩
  intro text hdepth
  have hlength : text.length < text.length + 1 := Nat.lt_succ_self _
  refine ⟨fun h => ?_, program_stable hdepth hlength, fun h => ?_,
    wholeExpression_stable hdepth hlength⟩
  · exact absurd (program_tooDeep h) (Nat.not_le_of_lt hdepth)
  · exact absurd (wholeExpression_tooDeep h) (Nat.not_le_of_lt hdepth)

/-- A call nests no deeper than it is long. -/
theorem reading_progresses_in_call :
    let text := "f(1, (2));".toList
    program 1000 text ≠ .halted .tooDeep ∧ program 1000 text = program 11 text := by
  intro text
  obtain ⟨hdeep, hsame, -⟩ := (reading_progresses 1000 1000).2.2.2.2 text (by decide)
  exact ⟨hdeep, hsame⟩

end Tama.Grammar
