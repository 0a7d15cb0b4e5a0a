import Tama.Proofs.Grammar.Acceptance
import Tama.Proofs.Grammar.Expansion
import Tama.Proofs.Token.Scan

/-!
# The tokens of lexemes

The token stream of a text is its lexemes, with the value of a literal in the place of its digits
(`Lexeme.token`). Where a text has lexemes the scan yields their tokens (`tokens_of_lexes`). Where
the scan succeeds, and the blanks that it passed over are those that the grammar knows, the text has
lexemes for the tokens (`lexed_of_tokens`).
-/

set_option autoImplicit false

namespace Tama.Grammar

open Tama.Parser Tama.Lexer

/-- The token that a lexeme is. -/
def Lexeme.token : Lexeme → Tama.Lexeme
  | integer digits => .int (Digit.number digits)
  | keyword k => .keyword k
  | name x => .identifier x
  | symbol c => if isOperator c then .operator c else .delimiter c

/-! ## One token -/

variable {c : Char} {cs text rest : List Char} {w : Lexeme} {ws vs : List Lexeme}

theorem munch?_digit (h : Digit.isDigit c = true) (cs : List Char) :
    munch? c cs = some ((Decimal.read (c :: cs.takeWhile Digit.isDigit)).map .int,
      cs.takeWhile Digit.isDigit, cs.dropWhile Digit.isDigit) := by
  simp [munch?, h]

theorem mem_symbols_iff : c ∈ symbols ↔ isOperator c = true ∨ isDelimiter c = true := by
  simp [symbols, isOperator, isDelimiter, or_assoc]

theorem munch?_symbol (h : c ∈ symbols) (cs : List Char) :
    munch? c cs = some (.ok (Lexeme.symbol c).token, [], cs) := by
  have hc := mem_symbols_iff.1 h
  rw [munch?, if_neg (by simp [(symbols_spec c h).1])]
  by_cases hop : isOperator c = true
  · simp [Lexeme.token, hop]
  · simp [Lexeme.token, hop, hc.resolve_left hop]

theorem token_ofWord (word : List Char) : (Grammar.ofWord word).token = Lexer.ofWord word := by
  unfold Grammar.ofWord Lexer.ofWord
  cases Keyword.ofWord? word <;> rfl

theorem munch?_word (h : Word.isStart c = true) (cs : List Char) :
    munch? c cs = some (.ok (Grammar.ofWord (c :: cs.takeWhile Word.isPart)).token,
      cs.takeWhile Word.isPart, cs.dropWhile Word.isPart) := by
  have hc : c ∉ symbols := by
    intro hs
    rw [(symbols_spec c hs).2] at h
    cases h
  rw [mem_symbols_iff, not_or] at hc
  rw [token_ofWord]
  simp [munch?, Word.isDigit_of_isStart h, hc, h]

/-- What is read at a character: a number, a word, a symbol or nothing. -/
theorem munch?_cases (c : Char) (cs : List Char) :
    (Digit.isDigit c = true ∧ munch? c cs =
      some ((Decimal.read (c :: cs.takeWhile Digit.isDigit)).map .int,
        cs.takeWhile Digit.isDigit, cs.dropWhile Digit.isDigit)) ∨
    (Word.isStart c = true ∧ munch? c cs =
      some (.ok (Lexer.ofWord (c :: cs.takeWhile Word.isPart)),
        cs.takeWhile Word.isPart, cs.dropWhile Word.isPart)) ∨
    (c ∈ symbols ∧ munch? c cs = some (.ok (Lexeme.symbol c).token, [], cs)) ∨
    (Digit.isDigit c = false ∧ Word.isStart c = false ∧ c ∉ symbols ∧ munch? c cs = none) := by
  by_cases hd : Digit.isDigit c = true
  · exact .inl ⟨hd, munch?_digit hd cs⟩
  by_cases hw : Word.isStart c = true
  · exact .inr (.inl ⟨hw, by rw [munch?_word hw, token_ofWord]⟩)
  by_cases hc : c ∈ symbols
  · exact .inr (.inr (.inl ⟨hc, munch?_symbol hc cs⟩))
  · have hn := hc
    rw [mem_symbols_iff, not_or] at hn
    simp only [Bool.not_eq_true] at hd hw hn
    exact .inr (.inr (.inr ⟨hd, hw, hc, by simp [Lexer.munch?, hd, hw, hn]⟩))

/-- A lexeme is read as its token. -/
theorem Spells.munch? (h : Spells (c :: cs) w rest) (hr : w.Readable) :
    ∃ part, Lexer.munch? c cs = some (.ok w.token, part, rest) := by
  obtain ⟨_, _, htext, hc, -⟩ := h.exists_start
  obtain ⟨rfl, rfl⟩ := List.cons.inj htext
  have hfirst := h.eq_first
  by_cases hd : Digit.isDigit c = true
  · simp only [first, hd, if_true, List.takeWhile_cons, List.dropWhile_cons] at hfirst
    cases hfirst
    rw [munch?_digit hd, Decimal.read_eq_ok hr]
    exact ⟨_, rfl⟩
  by_cases hs : Word.isStart c = true
  · simp only [first, hd, hs, if_true, List.takeWhile_cons, List.dropWhile_cons,
      Word.isPart_of_isStart hs] at hfirst
    cases hfirst
    exact ⟨_, munch?_word hs cs⟩
  · simp only [first, hd, hs] at hfirst
    cases hfirst
    have hsym : c ∈ symbols := by simpa [starts, hd, hs] using hc
    exact ⟨_, munch?_symbol hsym cs⟩

/-- A token is read where a lexeme stands, unless a dollar sign follows. -/
theorem exists_spells {part : List Char} {l : Tama.Lexeme}
    (h : Lexer.munch? c cs = some (.ok l, part, rest)) (hdollar : NotNext (· = '$') rest) :
    ∃ w, Spells (c :: cs) w rest ∧ w.Readable ∧ w.token = l := by
  rcases munch?_cases c cs with ⟨hd, hm⟩ | ⟨hs, hm⟩ | ⟨hc, hm⟩ | ⟨-, -, -, hm⟩ <;> rw [hm] at h
  · rw [Decimal.read] at h
    split at h
    · rename_i hlength
      cases h
      have hspell : Spells (c :: cs) _ _ := digits_spell (by simp [hd])
      simp only [List.takeWhile_cons, List.dropWhile_cons, hd, if_true] at hspell
      exact ⟨_, hspell, hlength, rfl⟩
    · cases h
  · cases h
    have hw : ∀ d ∈ cs.takeWhile Word.isPart, Word.isPart d = true :=
      List.all_eq_true.1 List.all_takeWhile
    have hn := notNext_dropWhile Word.isPart cs
    have htext : c :: cs = c :: cs.takeWhile Word.isPart ++ cs.dropWhile Word.isPart := by simp
    rw [htext, ← token_ofWord]
    cases hk : Keyword.ofWord? (c :: cs.takeWhile Word.isPart) with
    | none =>
      refine ⟨_, .name hs hw hn hk, trivial, ?_⟩
      simp [Grammar.ofWord, hk]
    | some k =>
      have hspelling := ofWord?_eq_some.1 hk
      rw [hspelling]
      refine ⟨_, .keyword k (notNext_joinsKeyword hn hdollar), trivial, ?_⟩
      simp [Grammar.ofWord, Keyword.ofWord?_spelling]
  · cases h
    exact ⟨_, .symbol hc, trivial, rfl⟩
  · cases h

/-! ## The tokens of lexemes -/

variable {filename : String} {line column : Nat}

theorem isBlank_of_starts (h : starts c = true) : Blank.isBlank c = false := by
  have hz : ∀ z ∈ Digit.zeros, z = 0x30 ∨ 0x660 ≤ z ∧ z + 10 ≤ 0x1680 ∨
      0x1680 < z ∧ z + 10 ≤ 0x2000 ∨ 0x3000 < z := by decide +kernel
  have hsym : symbols.all (fun d => !Blank.isBlank d) = true := by decide
  simp only [starts, Bool.or_eq_true, List.contains_iff_mem] at h
  rcases h with (h | h) | h
  · rw [Digit.isDigit, Digit.zero?, Option.isSome_iff_exists] at h
    obtain ⟨z, h⟩ := h
    have hrange := List.find?_some h
    have := hz z (List.mem_of_find?_eq_some h)
    simp only [Bool.and_eq_true, decide_eq_true_eq] at hrange
    simp only [Blank.isBlank, Bool.or_eq_false_iff, Bool.and_eq_false_iff, decide_eq_false_iff_not]
    omega
  · have := Word.isStart_range h
    simp only [Blank.isBlank, Bool.or_eq_false_iff, Bool.and_eq_false_iff, decide_eq_false_iff_not]
    omega
  · simpa using List.all_eq_true.1 hsym c h

theorem Skips.scanFrom_eq (h : Skips text rest) (filename : String) (line column : Nat) :
    ∃ line' column', scanFrom filename line column text = scanFrom filename line' column' rest := by
  induction h generalizing line column with
  | refl => exact ⟨line, column, rfl⟩
  | @gap c text rest hc _ ih =>
    by_cases hn : c = '\n'
    · subst hn
      rw [scanFrom_newline]
      exact ih _ _
    · rw [scanFrom_blank hn (Blank.isBlank_of_isGap hc)]
      exact ih _ _
  | comment hb ht _ ih =>
    rw [scanFrom_comment hb ht]
    exact ih _ _

/-- The scan of a text that has lexemes yields their tokens. -/
theorem tokens_of_lexes (h : Lexes text ws) (hr : ∀ w ∈ ws, w.Readable) (filename : String)
    (line column : Nat) : ∃ tokens, scanFrom filename line column text = .ok tokens ∧
      tokens.map Token.lexeme = ws.map Lexeme.token := by
  induction h generalizing line column with
  | nil hs =>
    obtain ⟨line', column', he⟩ := hs.scanFrom_eq filename line column
    exact ⟨[], by rw [he, scanFrom_nil], rfl⟩
  | @cons text start rest w ws hs hw _ ih =>
    obtain ⟨line', column', he⟩ := hs.scanFrom_eq filename line column
    obtain ⟨c, cs, rfl, hc, -⟩ := hw.exists_start
    obtain ⟨part, hm⟩ := hw.munch? (hr w List.mem_cons_self)
    obtain ⟨-, hhash, hslash⟩ := Lexer.ne_of_starts hc
    obtain ⟨tokens, ht, hmap⟩ := ih (fun v hv => hr v (List.mem_cons_of_mem w hv)) line'
      (column' + (part.length + 1))
    refine ⟨⟨w.token, spanOf filename line' column' (c :: part)⟩ :: tokens, ?_, by simp [hmap]⟩
    rw [he, scanFrom_cons (isBlank_of_starts hc) hhash fun hs => hslash hs.1, hm]
    simp only [ht]
    rfl

/-! ## The lexemes of tokens -/

/-- The blanks of a text outside its comments are none but those that may stand between lexemes. -/
def PlainBlanks (text : List Char) : Prop :=
  ∀ line ∈ Position.lines text, ∀ c ∈ stripComment line,
    Blank.isBlank c = true → Blank.isGap c = true

instance (text : List Char) : Decidable (PlainBlanks text) :=
  decidable_of_iff ((Position.lines text).all fun line =>
    (stripComment line).all fun c => !Blank.isBlank c || Blank.isGap c) <| by
      simp [PlainBlanks, ← Bool.not_eq_true, ← imp_iff_not_or]

theorem PlainBlanks.of_newline (h : PlainBlanks ('\n' :: text)) : PlainBlanks text := by
  intro line hl
  exact h line (by rw [Position.lines_newline]; exact List.mem_cons_of_mem [] hl)

theorem PlainBlanks.of_append {word : List Char} (hw : ∀ c ∈ word, c ≠ '\n' ∧ c ≠ '#' ∧ c ≠ '/')
    (h : PlainBlanks (word ++ text)) :
    (∀ c ∈ word, Blank.isBlank c = true → Blank.isGap c = true) ∧ PlainBlanks text := by
  obtain ⟨first, rest, ht, he⟩ :=
    Position.lines_append (fun h => (hw _ h).1 rfl : '\n' ∉ word) text
  simp only [PlainBlanks, he, ht, List.forall_mem_cons,
    stripComment_append (fun c hc => (hw c hc).2)] at h ⊢
  exact ⟨fun c hc => h.1 c (List.mem_append_left _ hc),
    fun c hc => h.1 c (List.mem_append_right word hc), h.2⟩

theorem PlainBlanks.of_comment {body : List Char} (hb : Comment body)
    (ht : NotNext (· ≠ '\n') text) (h : PlainBlanks (body ++ text)) : PlainBlanks text := by
  obtain ⟨rest, hlines⟩ := Position.lines_of_notNext ht
  obtain ⟨first, rest', hl, he⟩ := Position.lines_append hb.not_mem_newline text
  cases hlines.symm.trans hl
  simp only [PlainBlanks, he, hl, List.forall_mem_cons] at h ⊢
  exact ⟨nofun, h.2⟩

/-- No token starts with a dollar sign. -/
theorem notNext_dollar_of_scanFrom {tokens : List Token}
    (h : scanFrom filename line column text = .ok tokens) : NotNext (· = '$') text := by
  intro c hc
  obtain ⟨tail, rfl⟩ := List.head?_eq_some_iff.1 hc
  apply decide_eq_false
  rintro rfl
  have hm : Lexer.munch? '$' tail = none := rfl
  rw [scanFrom_cons (by decide) (by decide) (by simp), hm] at h
  cases h

/-- Where the scan finds a token, a lexeme stands, and the rest is scanned after it. -/
theorem scanFrom_cons_ok {tokens : List Token} (hblank : Blank.isBlank c = false) (hhash : c ≠ '#')
    (hslash : ¬ (c = '/' ∧ cs.head? = some '/')) (hp : PlainBlanks (c :: cs))
    (h : scanFrom filename line column (c :: cs) = .ok tokens) :
    ∃ w rest column' t ts, tokens = t :: ts ∧ w.token = t.lexeme ∧ w.Readable ∧
      Spells (c :: cs) w rest ∧ PlainBlanks rest ∧
      scanFrom filename line column' rest = .ok ts := by
  rw [scanFrom_cons hblank hhash hslash] at h
  split at h
  · cases h
  · cases h
  · rename_i l part rest hm
    cases hts : scanFrom filename line (column + (part.length + 1)) rest with
    | error e =>
      rw [hts] at h
      cases h
    | ok ts =>
      rw [hts] at h
      cases h
      obtain ⟨w, hw, hr, hl⟩ := exists_spells hm (notNext_dollar_of_scanFrom hts)
      obtain ⟨word, he, hword, -⟩ := hw.exists_word
      rw [he] at hp
      have hrest := (PlainBlanks.of_append (fun d hd => Lexer.ne_of_starts (hword d hd)) hp).2
      exact ⟨w, rest, _, _, ts, rfl, hl, hr, hw, hrest, hts⟩

/-- A text that is scanned is at its end, or something in it is passed over, or a lexeme stands at
its start. -/
theorem scanFrom_ok {tokens : List Token} (hp : PlainBlanks text)
    (h : scanFrom filename line column text = .ok tokens) :
    text = [] ∧ tokens = [] ∨
    (∃ rest line' column', rest.length < text.length ∧ Skips text rest ∧ PlainBlanks rest ∧
      scanFrom filename line' column' rest = .ok tokens) ∨
    ∃ w rest column' t ts, tokens = t :: ts ∧ w.token = t.lexeme ∧ w.Readable ∧
      Spells text w rest ∧ PlainBlanks rest ∧ scanFrom filename line column' rest = .ok ts := by
  have comment : ∀ {body rest : List Char}, Comment body → text = body ++ rest →
      NotNext (· ≠ '\n') rest →
      ∃ rest line' column', rest.length < text.length ∧ Skips text rest ∧ PlainBlanks rest ∧
        scanFrom filename line' column' rest = .ok tokens := by
    rintro body rest hb rfl hr
    rw [scanFrom_comment hb hr] at h
    have hlt : rest.length < (body ++ rest).length := by
      cases hb <;> simp only [List.cons_append, List.length_cons, List.length_append] <;> omega
    exact ⟨rest, line, column, hlt, .comment hb hr (.refl rest), hp.of_comment hb hr, h⟩
  cases text with
  | nil =>
    rw [scanFrom_nil] at h
    cases h
    exact .inl ⟨rfl, rfl⟩
  | cons c cs =>
    right
    by_cases hn : c = '\n'
    · subst hn
      rw [scanFrom_newline] at h
      exact .inl ⟨cs, line + 1, 1, by simp, .gap rfl (.refl cs), hp.of_newline, h⟩
    by_cases hblank : Blank.isBlank c = true
    · have hc : ∀ d ∈ [c], d ≠ '\n' ∧ d ≠ '#' ∧ d ≠ '/' := by
        simpa using ⟨hn, ne_of_isBlank hblank⟩
      obtain ⟨hgap, hcs⟩ := PlainBlanks.of_append hc hp
      have hg : Blank.isGap c = true := hgap c (by simp) hblank
      rw [scanFrom_blank hn hblank] at h
      exact .inl ⟨cs, line, column + 1, by simp, .gap hg (.refl cs), hcs, h⟩
    by_cases hcomment : c = '#' ∨ c = '/' ∧ cs.head? = some '/'
    · obtain ⟨body, rest, htext, hb, hr⟩ := exists_comment hcomment
      exact .inl (comment hb htext hr)
    · obtain ⟨hhash, hslash⟩ := not_or.1 hcomment
      exact .inr (scanFrom_cons_ok (by simpa using hblank) hhash hslash hp h)

/-- A text that is scanned has lexemes for its tokens, if its blanks are plain. -/
theorem lexed_of_tokens {line column : Nat} {text : List Char} {tokens : List Token}
    (hp : PlainBlanks text) (h : scanFrom filename line column text = .ok tokens) :
    ∃ ws, Lexed text ws ∧ ws.map Lexeme.token = tokens.map Token.lexeme := by
  obtain ⟨rfl, rfl⟩ | ⟨rest, line', column', hlt, hs, hp, h⟩ |
    ⟨w, rest, column', t, ts, rfl, ht, hr, hw, hp, h⟩ := scanFrom_ok hp h
  · exact ⟨[], ⟨lexes_nil_iff.2 rfl, nofun⟩, rfl⟩
  · obtain ⟨ws, hws, hmap⟩ := lexed_of_tokens hp h
    exact ⟨ws, ⟨hs.lexes_iff.2 hws.lexes, hws.readable⟩, hmap⟩
  · have hlt : rest.length < text.length := by
      obtain ⟨-, -, -, -, hlt⟩ := hw.exists_start
      exact hlt
    obtain ⟨ws, hws, hmap⟩ := lexed_of_tokens hp h
    refine ⟨w :: ws, ⟨.cons (.refl text) hw hws.lexes, ?_⟩, by simp [ht, hmap]⟩
    simpa using ⟨hr, hws.readable⟩
termination_by text.length

end Tama.Grammar
