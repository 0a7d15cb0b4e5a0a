import Tama.Proofs.Grammar.Lexing

/-!
# The readers of words and symbols

Each reader succeeds exactly where a lexeme of its kind comes next, and leaves the text after it.
For each there are three lemmas: what it has read is the next lexeme (`…_done`), the next lexeme is
read (`…_reads`), and where another one comes next, or none, it fails (`…_fails`).
-/

set_option autoImplicit false

namespace Tama.Grammar

open Tama.Parser

/-- A parser fails on a text. -/
def Fails {α : Type} (p : Parser α) (text : List Char) : Prop :=
  ∃ rest wanted, p text = .failed rest wanted

theorem fails_of {α : Type} {p : Parser α} {text : List Char}
    (hh : ∀ cause, p text ≠ .halted cause) (hd : ∀ a rest, p text ≠ .done a rest) :
    Fails p text := by
  cases hp : p text with
  | failed rest wanted => exact ⟨rest, wanted, hp⟩
  | halted cause => exact absurd hp (hh cause)
  | done a rest => exact absurd hp (hd a rest)

theorem Fails.bind {α β : Type} {p : Parser α} {f : α → Parser β} {text : List Char}
    (h : Fails p text) : Fails (p >>= f) text := by
  obtain ⟨rest, wanted, h⟩ := h
  exact ⟨rest, wanted, by rw [bind_apply, h]⟩

theorem Fails.orElse {α : Type} {p q : Parser α} {text : List Char} (hp : Fails p text)
    (hq : Fails q text) : Fails (Parser.orElse p q) text := by
  obtain ⟨rest, wanted, hp⟩ := hp
  rwa [Fails, Parser.orElse, hp]

variable {text rest : List Char} {ws : List Lexeme}

theorem lexed_cons_iff {w : Lexeme} :
    Lexed text (w :: ws) ↔ w.Readable ∧ ∃ rest, Spells (skip text) w rest ∧ Lexed rest ws := by
  constructor
  · rintro ⟨h, hr⟩
    obtain ⟨rest, hw, h⟩ := lexes_cons_iff.1 h
    exact ⟨hr w (by simp), rest, hw, h, fun v hv => hr v (by simp [hv])⟩
  · rintro ⟨hw, rest, hs, h, hr⟩
    exact ⟨lexes_cons_iff.2 ⟨rest, hs, h⟩, by simpa using ⟨hw, hr⟩⟩

/-- No other lexeme comes next than the one that stands there. -/
theorem Spells.head? {w : Lexeme} (hw : Spells (skip text) w rest) (h : Lexed text ws) :
    ws.head? = some w := by
  cases ws with
  | nil =>
    obtain ⟨_, _, he, -⟩ := hw.exists_start
    rw [lexes_nil_iff.1 h.lexes] at he
    cases he
  | cons v ws =>
    obtain ⟨_, hv, -⟩ := lexes_cons_iff.1 h.lexes
    exact congrArg some (hv.unique hw).1

/-! ## Symbols -/

theorem symbol_eq_done {c : Char} {u : Unit} (h : symbol c text = .done u rest) :
    skip text = c :: rest := by
  unfold symbol at h
  split at h
  · rename_i d tail hs
    split at h
    · rename_i hd
      cases h
      rw [hs, hd]
    · cases h
  · cases h

theorem symbol_done {c : Char} {u : Unit} (hc : c ∈ symbols) (h : symbol c text = .done u rest)
    (hr : Lexed rest ws) : Lexed text (.symbol c :: ws) :=
  lexed_cons_iff.2 ⟨trivial, rest, symbol_eq_done h ▸ .symbol hc, hr⟩

theorem symbol_of_skip {c : Char} (h : skip text = c :: rest) : symbol c text = .done () rest := by
  simp [symbol, h]

theorem symbol_reads {c : Char} (h : Lexed text (.symbol c :: ws)) :
    ∃ rest, symbol c text = .done () rest ∧ Lexed rest ws := by
  obtain ⟨-, rest, hw, hr⟩ := lexed_cons_iff.1 h
  refine ⟨rest, ?_, hr⟩
  generalize hs : skip text = start at hw
  cases hw
  exact symbol_of_skip hs

theorem symbol_fails_of_head {c : Char} (h : (skip text).head? ≠ some c) :
    Fails (symbol c) text := by
  refine fails_of (fun cause hp => ?_) (fun u rest hp => h (by rw [symbol_eq_done hp]; rfl))
  unfold symbol at hp
  repeat' split at hp
  all_goals cases hp

theorem symbol_fails {c : Char} (hc : c ∈ symbols) (h : Lexed text ws)
    (hne : ws.head? ≠ some (.symbol c)) : Fails (symbol c) text := by
  refine symbol_fails_of_head fun hs => ?_
  obtain ⟨rest, hs⟩ := List.head?_eq_some_iff.1 hs
  have hw : Spells (skip text) (.symbol c) rest := hs ▸ .symbol hc
  exact hne (hw.head? h)

/-- An operand opens with a parenthesis exactly where this symbol comes next. -/
theorem openOperand_cases (text : List Char) :
    (∃ rest, openOperand text = .done () rest ∧ symbol '(' text = .done () rest) ∨
      Fails openOperand text ∧ Fails (symbol '(') text := by
  cases hs : skip text with
  | nil => exact .inr ⟨⟨[], _, by rw [openOperand, hs]⟩, ⟨[], _, by rw [symbol, hs]⟩⟩
  | cons c tail =>
    by_cases hc : c = '('
    · subst hc
      exact .inl ⟨tail, by simp [openOperand, hs], by simp [symbol, hs]⟩
    · refine .inr ⟨⟨c :: tail, if spaced text then .integer else .operand, ?_⟩,
        ⟨c :: tail, .symbol '(', by simp [symbol, hs, hc]⟩⟩
      unfold openOperand
      split
      · rename_i he
        rw [hs] at he
        injection he with he
        exact absurd he hc
      · rw [hs]

/-! ## Keywords -/

theorem keyword_eq_done {k : Keyword} {u : Unit} (h : keyword k text = .done u rest) :
    Spells (skip text) (.keyword k) rest := by
  unfold keyword at h
  split at h
  · rename_i rest' hk
    cases h
    obtain ⟨he, hj⟩ := afterKeyword?_eq_some.1 hk
    rw [he]
    exact .keyword k hj
  · cases h

theorem keyword_done {k : Keyword} {u : Unit} (h : keyword k text = .done u rest)
    (hr : Lexed rest ws) : Lexed text (.keyword k :: ws) :=
  lexed_cons_iff.2 ⟨trivial, rest, keyword_eq_done h, hr⟩

theorem keyword_of_spells {k : Keyword} (h : Spells (skip text) (.keyword k) rest) :
    keyword k text = .done () rest := by
  generalize hs : skip text = start at h
  cases h with
  | keyword _ hj => simp only [keyword, hs, afterKeyword?_eq_some.2 ⟨rfl, hj⟩]

theorem keyword_reads {k : Keyword} (h : Lexed text (.keyword k :: ws)) :
    ∃ rest, keyword k text = .done () rest ∧ Lexed rest ws := by
  obtain ⟨-, rest, hw, hr⟩ := lexed_cons_iff.1 h
  exact ⟨rest, keyword_of_spells hw, hr⟩

theorem keyword_fails_of {k : Keyword} (h : ∀ rest, ¬ Spells (skip text) (.keyword k) rest) :
    Fails (keyword k) text := by
  refine fails_of (fun cause hp => ?_) fun u rest hp => h rest (keyword_eq_done hp)
  unfold keyword at hp
  split at hp <;> cases hp

theorem keyword_fails {k : Keyword} (h : Lexed text ws)
    (hne : ws.head? ≠ some (.keyword k)) : Fails (keyword k) text :=
  keyword_fails_of fun _ hw => hne (hw.head? h)

theorem isStart_of_keyword {k : Keyword} (h : Spells text (.keyword k) rest) :
    ∃ c tail, text = c :: tail ∧ Word.isStart c = true := by
  cases h with
  | keyword _ _ => cases k <;> exact ⟨_, _, rfl, by decide⟩

theorem keyword_fails_of_head (h : NotNext Word.isStart (skip text)) (k : Keyword) :
    Fails (keyword k) text := by
  refine keyword_fails_of fun rest hw => ?_
  obtain ⟨c, tail, hs, hc⟩ := isStart_of_keyword hw
  rw [hs] at h
  rw [notNext_cons.1 h] at hc
  cases hc

/-! ## Names -/

theorem name_eq_done {x : String} (h : name text = .done x rest) :
    ∃ c tail, skip text = c :: tail ∧ Word.isStart c = true ∧ atKeyword (c :: tail) = false ∧
      x = String.ofList (c :: tail.takeWhile Word.isPart) ∧ rest = tail.dropWhile Word.isPart := by
  unfold name at h
  split at h
  · rename_i c tail hs
    split at h
    · rename_i hc
      cases h
      simp only [Bool.and_eq_true, Bool.not_eq_true'] at hc
      exact ⟨c, tail, hs, hc.1, hc.2, rfl, rfl⟩
    · cases h
  · cases h

/-- Right before a dollar sign the reader also takes the letters of a keyword for a name. No lexeme
follows there. -/
theorem name_spells {x : String} (h : name text = .done x rest)
    (hdollar : NotNext (· = '$') rest) : Spells (skip text) (.name x) rest := by
  obtain ⟨c, tail, hs, hc, hk, rfl, rfl⟩ := name_eq_done h
  have hw : ∀ d ∈ tail.takeWhile Word.isPart, Word.isPart d = true :=
    List.all_eq_true.1 List.all_takeWhile
  have hcw : ∀ d ∈ c :: tail.takeWhile Word.isPart, Word.isPart d = true := by
    intro d hd
    rcases List.mem_cons.1 hd with rfl | hd
    · exact Word.isPart_of_isStart hc
    · exact hw d hd
  have hn := notNext_dropWhile Word.isPart tail
  have he : c :: tail = c :: tail.takeWhile Word.isPart ++ tail.dropWhile Word.isPart := by simp
  rw [he, atKeyword_append hcw hn hdollar, Option.isSome_eq_false_iff,
    Option.isNone_iff_eq_none] at hk
  rw [hs, he]
  exact .name hc hw hn hk

theorem name_done {x : String} (h : name text = .done x rest) (hr : Lexed rest ws) :
    Lexed text (.name x :: ws) :=
  lexed_cons_iff.2 ⟨trivial, rest, name_spells h hr.lexes.notNext_dollar, hr⟩

theorem name_of_spells {x : String} (h : Spells (skip text) (.name x) rest)
    (hdollar : NotNext (· = '$') rest) : name text = .done x rest := by
  generalize hs : skip text = start at h
  cases h with
  | @name c word rest hc hw hn hk =>
    have hcw : ∀ d ∈ c :: word, Word.isPart d = true := by
      simpa using ⟨Word.isPart_of_isStart hc, hw⟩
    have ha := atKeyword_append hcw hn hdollar
    rw [hk] at ha
    simp only [List.cons_append] at ha hs
    simp [name, hs, hc, ha, takeWhile_append hw hn, dropWhile_append hw hn]

theorem name_reads {x : String} (h : Lexed text (.name x :: ws)) :
    ∃ rest, name text = .done x rest ∧ Lexed rest ws := by
  obtain ⟨-, rest, hw, hr⟩ := lexed_cons_iff.1 h
  exact ⟨rest, name_of_spells hw hr.lexes.notNext_dollar, hr⟩

theorem name_fails_of (h : ∀ x rest, name text ≠ .done x rest) : Fails name text := by
  refine fails_of (fun cause hp => ?_) h
  unfold name at hp
  repeat' split at hp
  all_goals cases hp

theorem name_fails_of_head (h : NotNext Word.isStart (skip text)) : Fails name text := by
  refine name_fails_of fun x rest hp => ?_
  obtain ⟨c, tail, hs, hc, -⟩ := name_eq_done hp
  rw [hs] at h
  rw [notNext_cons.1 h] at hc
  cases hc

/-- No name is read where a keyword stands, and no keyword where a name is. -/
theorem name_fails_of_keyword {k : Keyword} (h : Spells (skip text) (.keyword k) rest) :
    Fails name text := by
  refine name_fails_of fun x mid hp => ?_
  obtain ⟨c, tail, hs, -, hk, -⟩ := name_eq_done hp
  rw [← hs] at hk
  generalize skip text = start at h hk
  cases h with
  | keyword _ hj =>
    have hall := List.any_eq_false.1 hk k (by cases k <;> decide)
    rw [afterKeyword?_eq_some.2 ⟨rfl, hj⟩] at hall
    exact hall rfl

theorem keyword_fails_of_name {x : String} (h : name text = .done x rest) (k : Keyword) :
    Fails (keyword k) text := by
  refine keyword_fails_of fun mid hw => ?_
  obtain ⟨_, _, hf⟩ := name_fails_of_keyword hw
  rw [h] at hf
  cases hf

theorem name_fails (h : Lexed text ws) (hne : ∀ x, ws.head? ≠ some (.name x)) :
    Fails name text := by
  refine name_fails_of fun x rest hp => ?_
  -- the word ends where the next lexeme does, so no dollar sign follows it
  obtain ⟨c, tail, hs, hc, -, -, rfl⟩ := name_eq_done hp
  cases ws with
  | nil =>
    rw [lexes_nil_iff.1 h.lexes] at hs
    cases hs
  | cons w ws =>
    obtain ⟨rest, hw, hr⟩ := lexes_cons_iff.1 h.lexes
    have he := hw.eq_first
    simp only [hs, first, Word.isDigit_of_isStart hc, hc, List.dropWhile_cons,
      Word.isPart_of_isStart hc, if_true] at he
    obtain ⟨-, rfl⟩ := Prod.mk.inj he
    exact hne x ((name_spells hp hr.notNext_dollar).head? h)

/-! ## Literals -/

theorem digits_spell {text : List Char} (h : text.takeWhile Digit.isDigit ≠ []) :
    Spells text (.integer (text.takeWhile Digit.isDigit)) (text.dropWhile Digit.isDigit) := by
  have := Spells.integer h (List.all_eq_true.1 List.all_takeWhile)
    (notNext_dropWhile Digit.isDigit text)
  rwa [List.takeWhile_append_dropWhile] at this

theorem integer_spells {n : Nat} (h : integer text = .done n rest) :
    ∃ digits, n = Digit.number digits ∧ (Lexeme.integer digits).Readable ∧
      Spells (skip text) (.integer digits) rest := by
  unfold integer at h
  simp only at h
  split at h
  · cases h
  · rename_i hne
    split at h
    · rename_i m hm
      cases h
      simp only [Decimal.read] at hm
      split at hm
      · rename_i hl
        cases hm
        exact ⟨_, rfl, hl, digits_spell (by simpa using hne)⟩
      · cases hm
    · cases h

theorem integer_done {n : Nat} (h : integer text = .done n rest) (hr : Lexed rest ws) :
    ∃ digits, n = Digit.number digits ∧ Lexed text (.integer digits :: ws) := by
  obtain ⟨digits, hn, hl, hw⟩ := integer_spells h
  exact ⟨digits, hn, lexed_cons_iff.2 ⟨hl, rest, hw, hr⟩⟩

theorem integer_of_spells {digits : List Char} (hl : (Lexeme.integer digits).Readable)
    (h : Spells (skip text) (.integer digits) rest) :
    integer text = .done (Digit.number digits) rest := by
  generalize hs : skip text = start at h
  cases h with
  | integer hne hd hn =>
    simp [integer, hs, takeWhile_append hd hn, dropWhile_append hd hn, hne, Decimal.read_eq_ok hl]

theorem integer_reads {digits : List Char} (h : Lexed text (.integer digits :: ws)) :
    ∃ rest, integer text = .done (Digit.number digits) rest ∧ Lexed rest ws := by
  obtain ⟨hl, rest, hw, hr⟩ := lexed_cons_iff.1 h
  exact ⟨rest, integer_of_spells hl hw, hr⟩

theorem integer_fails_of_head (h : NotNext Digit.isDigit (skip text)) : Fails integer text := by
  have hd : (skip text).takeWhile Digit.isDigit = [] := by
    cases hs : skip text with
    | nil => rfl
    | cons c tail =>
      rw [hs] at h
      simp [notNext_cons.1 h]
  exact ⟨skip text, .integer, by simp [integer, hd]⟩

theorem integer_fails (h : Lexed text ws) (hne : ∀ digits, ws.head? ≠ some (.integer digits)) :
    Fails integer text := by
  refine integer_fails_of_head fun c hc => ?_
  obtain ⟨tail, hs⟩ := List.head?_eq_some_iff.1 hc
  cases hd : Digit.isDigit c with
  | false => rfl
  | true =>
    have hne' : (skip text).takeWhile Digit.isDigit ≠ [] := by simp [hs, hd]
    exact absurd ((digits_spell hne').head? h) (hne _)

/-! ## The end of the text -/

theorem ending_done {u : Unit} (h : ending text = .done u rest) : rest = [] ∧ Lexed text [] := by
  unfold ending at h
  split at h
  · rename_i hs
    cases h
    exact ⟨rfl, lexes_nil_iff.2 hs, by simp⟩
  · cases h

theorem ending_reads (h : Lexed text []) : ending text = .done () [] := by
  simp only [ending, lexes_nil_iff.1 h.lexes]

end Tama.Grammar
