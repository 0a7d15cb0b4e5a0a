import Tama.Proofs.Grammar

/-!
# The lexemes of a text

Skipping as the parser does it leaves the next lexeme in front (`lexes_cons_iff`), or nothing where
there is none (`lexes_nil_iff`). The first character of a lexeme settles how it goes on
(`Spells.eq_first`), so a text has its lexemes in one way only (`Lexes.unique`).
-/

set_option autoImplicit false

namespace Tama

/-! ## Character classes -/

theorem Digit.isDigit_eq_false {c : Char} (lo : 0x3A ≤ c.toNat) (hi : c.toNat < 0x660) :
    Digit.isDigit c = false := by
  have hz : ∀ z ∈ Digit.zeros, z + 10 ≤ 0x3A ∨ 0x660 ≤ z := by decide
  rw [Digit.isDigit, Digit.zero?, Option.isSome_eq_false_iff, Option.isNone_iff_eq_none,
    List.find?_eq_none]
  intro z hmem hp
  simp only [Bool.and_eq_true, decide_eq_true_eq] at hp
  have := hz z hmem
  omega

theorem Word.isStart_range {c : Char} (h : Word.isStart c = true) :
    0x3A ≤ c.toNat ∧ c.toNat < 0x80 := by
  simp only [Word.isStart, Bool.or_eq_true, Bool.and_eq_true, decide_eq_true_eq, Char.le_def,
    UInt32.le_iff_toNat_le] at h
  rcases h with (⟨lo, hi⟩ | ⟨lo, hi⟩) | rfl
  · have h1 : (65 : Nat) ≤ c.toNat := lo
    have h2 : c.toNat ≤ 90 := hi
    omega
  · have h1 : (97 : Nat) ≤ c.toNat := lo
    have h2 : c.toNat ≤ 122 := hi
    omega
  · decide

theorem Word.isDigit_of_isStart {c : Char} (h : Word.isStart c = true) :
    Digit.isDigit c = false := by
  obtain ⟨lo, hi⟩ := Word.isStart_range h
  exact Digit.isDigit_eq_false lo (by omega)

theorem Word.isPart_of_mem_spelling (k : Keyword) : ∀ c ∈ k.spelling, Word.isPart c = true := by
  have h : k.spelling.all Word.isPart = true := by cases k <;> decide
  exact List.all_eq_true.1 h

namespace Grammar

/-- The characters that a lexeme can start with. -/
def starts (c : Char) : Bool :=
  Digit.isDigit c || Word.isStart c || symbols.contains c

/-- A character that can stand between lexemes, or nowhere at all, starts none. -/
theorem starts_eq_false : ∀ c ∈ [' ', '\t', '\n', '\r', '#', '/', '$'], starts c = false := by
  have h : [' ', '\t', '\n', '\r', '#', '/', '$'].all (fun c => !starts c) = true := by decide
  simpa using List.all_eq_true.1 h

theorem ne_of_starts {c d : Char} (h : starts c = true)
    (hd : d ∈ [' ', '\t', '\n', '\r', '#', '/', '$']) : c ≠ d := by
  rintro rfl
  rw [starts_eq_false c hd] at h
  cases h

theorem isGap_of_starts {c : Char} (h : starts c = true) : Blank.isGap c = false := by
  have hc : ∀ d ∈ [' ', '\t', '\n', '\r'], c ≠ d := fun d hd =>
    ne_of_starts h (List.mem_append_left ['#', '/', '$'] hd)
  simpa [Blank.isGap, and_assoc] using hc

theorem symbols_spec : ∀ c ∈ symbols, Digit.isDigit c = false ∧ Word.isStart c = false := by
  have h : symbols.all (fun c => !Digit.isDigit c && !Word.isStart c) = true := by decide
  intro c hc
  simpa using List.all_eq_true.1 h c hc

/-! ## Texts that start with a class -/

theorem notNext_cons {p : Char → Bool} {c : Char} {text : List Char} :
    NotNext p (c :: text) ↔ p c = false := by
  simp [NotNext]

theorem NotNext.mono {p q : Char → Bool} (h : ∀ c, q c = true → p c = true) {text : List Char}
    (hp : NotNext p text) : NotNext q text := by
  intro c hc
  cases hq : q c with
  | false => rfl
  | true => rw [← hp c hc, h c hq]

theorem takeWhile_append {p : Char → Bool} {word rest : List Char} (h : ∀ c ∈ word, p c = true)
    (hr : NotNext p rest) : (word ++ rest).takeWhile p = word := by
  rw [List.takeWhile_append_of_pos h]
  cases rest with
  | nil => simp
  | cons c rest => simp [notNext_cons.1 hr]

theorem dropWhile_append {p : Char → Bool} {word rest : List Char} (h : ∀ c ∈ word, p c = true)
    (hr : NotNext p rest) : (word ++ rest).dropWhile p = rest := by
  rw [List.dropWhile_append_of_pos h]
  cases rest with
  | nil => simp
  | cons c rest => simp [notNext_cons.1 hr]

theorem notNext_dropWhile (p : Char → Bool) (text : List Char) : NotNext p (text.dropWhile p) := by
  intro c hc
  have := List.head?_dropWhile_not p text
  rw [Option.mem_def.1 hc] at this
  simpa using this

theorem NotNext.append {p : Char → Bool} {text last : List Char} (h : NotNext p text)
    (hlast : NotNext p last) : NotNext p (text ++ last) := by
  cases text with
  | nil => exact hlast
  | cons c text => exact notNext_cons.2 (notNext_cons.1 h)

theorem NotNext.of_append {p : Char → Bool} {text last : List Char}
    (h : NotNext p (text ++ last)) : NotNext p text := by
  cases text with
  | nil => nofun
  | cons c text => exact notNext_cons.2 (notNext_cons.1 h)

theorem takeWhile_append_notNext {p : Char → Bool} {last : List Char} (h : NotNext p last)
    (text : List Char) : (text ++ last).takeWhile p = text.takeWhile p := by
  induction text with
  | nil =>
    have hword : ∀ c ∈ ([] : List Char), p c = true := nofun
    exact takeWhile_append hword h
  | cons c text ih => rw [List.cons_append, List.takeWhile_cons, List.takeWhile_cons, ih]

theorem dropWhile_append_notNext {p : Char → Bool} {last : List Char} (h : NotNext p last)
    (text : List Char) : (text ++ last).dropWhile p = text.dropWhile p ++ last := by
  induction text with
  | nil =>
    have hword : ∀ c ∈ ([] : List Char), p c = true := nofun
    exact dropWhile_append hword h
  | cons c text ih =>
    rw [List.cons_append, List.dropWhile_cons, List.dropWhile_cons, ih]
    split <;> rfl

/-! ## Skipping -/

open Tama.Parser

theorem Comment.not_mem_newline {body : List Char} (h : Comment body) : '\n' ∉ body := by
  cases h with
  | hash hb => simpa using hb
  | slashes hb => simpa using hb

theorem skipFrom_comment (body text : List Char) (hb : '\n' ∉ body)
    (ht : NotNext (· ≠ '\n') text) : skipFrom true (body ++ text) = skip text := by
  induction body with
  | nil =>
    cases text with
    | nil => rfl
    | cons c text =>
      have hc : c = '\n' := by simpa using notNext_cons.1 ht
      subst hc
      rfl
  | cons c body ih =>
    obtain ⟨hc, hb⟩ : '\n' ≠ c ∧ '\n' ∉ body := by simpa using hb
    simp only [List.cons_append, skipFrom, Ne.symm hc, if_false]
    exact ih hb

theorem Skips.skip_eq {text rest : List Char} (h : Skips text rest) : skip text = skip rest := by
  induction h with
  | refl => rfl
  | gap hc _ ih => rw [← ih]; simp [skip, skipFrom, hc]
  | @comment body text rest hb ht _ ih =>
    rw [← ih]
    cases hb with
    | @hash body hb => exact skipFrom_comment body text hb ht
    | @slashes body hb => exact skipFrom_comment ('/' :: body) text (by simpa using hb) ht

/-- A text from inside a comment: what is left of the line, and what follows it. -/
theorem exists_line (text : List Char) :
    ∃ body rest, text = body ++ rest ∧ '\n' ∉ body ∧ NotNext (· ≠ '\n') rest := by
  refine ⟨text.takeWhile (· ≠ '\n'), text.dropWhile (· ≠ '\n'), by simp, fun h => ?_,
    notNext_dropWhile _ _⟩
  have := List.all_eq_true.1 List.all_takeWhile _ h
  simp at this

/-- Where a comment begins it goes on to the end of its line. -/
theorem exists_comment {c : Char} {cs : List Char}
    (h : c = '#' ∨ c = '/' ∧ cs.head? = some '/') :
    ∃ body rest, c :: cs = body ++ rest ∧ Comment body ∧ NotNext (· ≠ '\n') rest := by
  rcases h with rfl | ⟨rfl, h⟩
  · obtain ⟨body, rest, rfl, hb, hr⟩ := exists_line cs
    exact ⟨'#' :: body, rest, rfl, .hash hb, hr⟩
  · obtain ⟨tail, rfl⟩ := List.head?_eq_some_iff.1 h
    obtain ⟨body, rest, rfl, hb, hr⟩ := exists_line tail
    exact ⟨'/' :: '/' :: body, rest, rfl, .slashes hb, hr⟩

/-- A text where something is to be skipped, or nothing. -/
theorem skip_step (text : List Char) : skip text = text ∨
    ∃ rest, rest.length < text.length ∧ skip text = skip rest ∧
      ∀ last, Skips rest last → Skips text last := by
  have comment : ∀ {body rest : List Char}, Comment body → NotNext (· ≠ '\n') rest →
      rest.length < (body ++ rest).length ∧ skip (body ++ rest) = skip rest ∧
        ∀ last, Skips rest last → Skips (body ++ rest) last := by
    intro body rest hb hr
    refine ⟨?_, (Skips.comment hb hr (.refl rest)).skip_eq, fun last => .comment hb hr⟩
    cases hb <;> simp only [List.cons_append, List.length_cons, List.length_append] <;> omega
  cases text with
  | nil => exact .inl rfl
  | cons c text =>
    by_cases hg : Blank.isGap c = true
    · exact .inr ⟨text, by simp, by simp [skip, skipFrom, hg], fun last => .gap hg⟩
    by_cases hc : c = '#' ∨ c = '/' ∧ text.head? = some '/'
    · obtain ⟨body, rest, htext, hb, hr⟩ := exists_comment hc
      rw [htext]
      exact .inr ⟨rest, comment hb hr⟩
    · exact .inl (by simp [skip, skipFrom, hg, hc])

theorem skips_skip (text : List Char) : Skips text (skip text) := by
  rcases skip_step text with h | ⟨rest, hlt, hs, hk⟩
  · rw [h]
    exact .refl text
  · rw [hs]
    exact hk _ (skips_skip rest)
termination_by text.length

theorem skip_skip (text : List Char) : skip (skip text) = skip text :=
  (skips_skip text).skip_eq.symm

/-- What is not skipped starts neither with a gap nor with a comment: a text is longer than what is
left of it after one of these. -/
theorem not_skipped_of_skip {text tail : List Char} {c : Char} (h : skip text = c :: tail) :
    Blank.isGap c = false ∧ ¬(c = '#' ∨ c = '/' ∧ tail.head? = some '/') := by
  have hself : skip (c :: tail) = c :: tail := by rw [← h, skip_skip]
  have longer : ∀ inComment, skipFrom inComment tail ≠ c :: tail := by
    intro inComment heq
    have hle := length_skipFrom_le inComment tail
    rw [heq, List.length_cons] at hle
    omega
  unfold skip at hself
  simp only [skipFrom] at hself
  split at hself
  · exact absurd hself (longer false)
  split at hself
  · exact absurd hself (longer true)
  · rename_i hgap hcomment
    exact ⟨Bool.eq_false_iff.2 hgap, hcomment⟩

theorem skip_cons {c : Char} {text : List Char} (hgap : Blank.isGap c = false)
    (hcomment : ¬(c = '#' ∨ c = '/' ∧ text.head? = some '/')) : skip (c :: text) = c :: text := by
  simp only [skip, skipFrom, hgap, hcomment, Bool.false_eq_true, if_false]

/-! ## The next lexeme -/

theorem Spells.exists_start {text rest : List Char} {w : Lexeme} (h : Spells text w rest) :
    ∃ c tail, text = c :: tail ∧ starts c = true ∧ rest.length < text.length := by
  cases h with
  | @integer digits rest hne hd _ =>
    obtain ⟨c, tail, rfl⟩ := List.exists_cons_of_ne_nil hne
    refine ⟨c, tail ++ rest, rfl, by simp [starts, hd c (by simp)], ?_⟩
    simp only [List.cons_append, List.length_cons, List.length_append]
    omega
  | keyword k _ =>
    have hlen : 0 < k.spelling.length := by cases k <;> decide
    have hshort : rest.length < (k.spelling ++ rest).length := by
      rw [List.length_append]
      omega
    cases k <;> exact ⟨_, _, rfl, by decide, hshort⟩
  | @name c word rest hc _ _ _ =>
    refine ⟨c, word ++ rest, rfl, by simp [starts, hc], ?_⟩
    simp only [List.cons_append, List.length_cons, List.length_append]
    omega
  | @symbol c rest hc => exact ⟨c, rest, rfl, by simp [starts, hc], by simp⟩

theorem skip_eq_of_starts {c : Char} {text : List Char} (h : starts c = true) :
    skip (c :: text) = c :: text := by
  simp [skip, skipFrom, isGap_of_starts h, ne_of_starts h (d := '#') (by simp),
    ne_of_starts h (d := '/') (by simp)]

theorem Spells.skip_eq {text rest : List Char} {w : Lexeme} (h : Spells text w rest) :
    skip text = text := by
  obtain ⟨c, tail, rfl, hc, -⟩ := h.exists_start
  exact skip_eq_of_starts hc

/-- The first lexeme of a text is the one that the skipping leaves in front. -/
theorem lexes_cons_iff {text : List Char} {w : Lexeme} {ws : List Lexeme} :
    Lexes text (w :: ws) ↔ ∃ rest, Spells (skip text) w rest ∧ Lexes rest ws := by
  constructor
  · intro h
    cases h with
    | @cons _ start rest _ _ hs hw hr => exact ⟨rest, by rw [hs.skip_eq, hw.skip_eq]; exact hw, hr⟩
  · rintro ⟨rest, hw, hr⟩
    exact .cons (skips_skip text) hw hr

theorem lexes_nil_iff {text : List Char} : Lexes text [] ↔ skip text = [] := by
  constructor
  · intro h
    cases h with
    | nil hs => exact hs.skip_eq
  · intro h
    exact .nil (h ▸ skips_skip text)

theorem Skips.lexes_iff {text rest : List Char} {ws : List Lexeme} (h : Skips text rest) :
    Lexes text ws ↔ Lexes rest ws := by
  cases ws with
  | nil => rw [lexes_nil_iff, lexes_nil_iff, h.skip_eq]
  | cons w ws => rw [lexes_cons_iff, lexes_cons_iff, h.skip_eq]

/-- Each lexeme takes up a character. -/
theorem Lexes.length_le {text : List Char} {ws : List Lexeme} (h : Lexes text ws) :
    ws.length ≤ text.length := by
  induction ws generalizing text with
  | nil => simp
  | cons w ws ih =>
    obtain ⟨rest, hw, hr⟩ := lexes_cons_iff.1 h
    obtain ⟨-, -, -, -, hlt⟩ := hw.exists_start
    have := ih hr
    have := length_skip_le text
    simp only [List.length_cons]
    omega

/-- No lexeme starts with a dollar sign, so none stands right before one. -/
theorem Lexes.notNext_dollar {text : List Char} {ws : List Lexeme} (h : Lexes text ws) :
    NotNext (· = '$') text := by
  intro c hc
  obtain ⟨tail, rfl⟩ := List.head?_eq_some_iff.1 hc
  apply decide_eq_false
  rintro rfl
  have hs : skip ('$' :: tail) = '$' :: tail := rfl
  cases ws with
  | nil =>
    rw [lexes_nil_iff, hs] at h
    cases h
  | cons w ws =>
    obtain ⟨rest, hw, -⟩ := lexes_cons_iff.1 h
    obtain ⟨c, _, he, hc, -⟩ := hw.exists_start
    rw [hs] at he
    injection he with he
    exact ne_of_starts hc (by simp) he.symm

/-! ## Words -/

theorem afterKeyword?_eq_some {k : Keyword} {text rest : List Char} :
    afterKeyword? k text = some rest ↔
      text = k.spelling ++ rest ∧ NotNext Word.joinsKeyword rest := by
  have hn : ∀ rest : List Char, rest.head?.any Word.joinsKeyword = false ↔
      NotNext Word.joinsKeyword rest := by
    intro rest
    cases rest <;> simp [NotNext]
  unfold afterKeyword?
  constructor
  · intro h
    split at h
    · rename_i hp
      obtain ⟨rest', rfl⟩ := List.isPrefixOf_iff_prefix.1 hp
      simp only [List.drop_left] at h
      split at h
      · cases h
      · rename_i hj
        cases h
        exact ⟨rfl, (hn rest).1 (by simpa using hj)⟩
    · cases h
  · rintro ⟨rfl, hj⟩
    rw [if_pos (List.isPrefixOf_iff_prefix.2 (List.prefix_append _ _))]
    simp only [List.drop_left, (hn rest).2 hj]
    rfl

theorem notNext_isPart {rest : List Char} (h : NotNext Word.joinsKeyword rest) :
    NotNext Word.isPart rest :=
  h.mono fun _ => Word.joinsKeyword_of_isPart

theorem notNext_joinsKeyword {rest : List Char} (h : NotNext Word.isPart rest)
    (hd : NotNext (· = '$') rest) : NotNext Word.joinsKeyword rest := by
  intro c hc
  simp [Word.joinsKeyword, h c hc, hd c hc]

theorem ofWord?_eq_some {word : List Char} {k : Keyword} :
    Keyword.ofWord? word = some k ↔ word = k.spelling := by
  constructor
  · intro h
    have := List.find?_some h
    exact (of_decide_eq_true this).symm
  · rintro rfl
    exact Keyword.ofWord?_spelling k

/-- A word is a keyword exactly when a keyword stands at its start. -/
theorem atKeyword_append {word rest : List Char} (hw : ∀ c ∈ word, Word.isPart c = true)
    (hr : NotNext Word.isPart rest) (hd : NotNext (· = '$') rest) :
    atKeyword (word ++ rest) = (Keyword.ofWord? word).isSome := by
  rw [Bool.eq_iff_iff, Option.isSome_iff_exists]
  constructor
  · intro h
    obtain ⟨k, -, hk⟩ := List.any_eq_true.1 h
    obtain ⟨rest', hk⟩ := Option.isSome_iff_exists.1 hk
    obtain ⟨he, hj⟩ := afterKeyword?_eq_some.1 hk
    refine ⟨k, ofWord?_eq_some.2 ?_⟩
    rw [← takeWhile_append hw hr, he,
      takeWhile_append (Word.isPart_of_mem_spelling k) (notNext_isPart hj)]
  · rintro ⟨k, hk⟩
    rw [ofWord?_eq_some] at hk
    have := (afterKeyword?_eq_some (k := k)).2 ⟨rfl, notNext_joinsKeyword hr hd⟩
    refine List.any_eq_true.2 ⟨k, by cases k <;> decide, ?_⟩
    rw [hk, this]
    rfl

/-- The lexeme that a word is. -/
def ofWord (word : List Char) : Lexeme :=
  match Keyword.ofWord? word with
  | some k => .keyword k
  | none => .name (String.ofList word)

/-- The lexeme that stands at the start of a text, and the text after it, if one does. -/
def first (text : List Char) : Lexeme × List Char :=
  match text with
  | [] => (.integer [], [])
  | c :: tail =>
    if Digit.isDigit c then (.integer (text.takeWhile Digit.isDigit), text.dropWhile Digit.isDigit)
    else if Word.isStart c then (ofWord (text.takeWhile Word.isPart), text.dropWhile Word.isPart)
    else (.symbol c, tail)

theorem first_word {c : Char} {word rest : List Char} (hc : Word.isStart c = true)
    (hw : ∀ d ∈ word, Word.isPart d = true) (hr : NotNext Word.isPart rest) :
    first (c :: word ++ rest) = (ofWord (c :: word), rest) := by
  have hcw : ∀ d ∈ c :: word, Word.isPart d = true := by
    simpa using ⟨Word.isPart_of_isStart hc, hw⟩
  have ht := takeWhile_append hcw hr
  have hd := dropWhile_append hcw hr
  simp only [List.cons_append] at ht hd ⊢
  simp only [first, Word.isDigit_of_isStart hc, hc, ht, hd]
  rfl

theorem Spells.eq_first {text rest : List Char} {w : Lexeme} (h : Spells text w rest) :
    first text = (w, rest) := by
  cases h with
  | @integer digits rest hne hd hr =>
    have ht := takeWhile_append hd hr
    have hdr := dropWhile_append hd hr
    obtain ⟨c, tail, rfl⟩ := List.exists_cons_of_ne_nil hne
    simp only [List.cons_append] at ht hdr ⊢
    simp only [first, hd c (by simp), ht, hdr, if_true]
  | @keyword k rest hr =>
    obtain ⟨c, word, hs, hc⟩ : ∃ c word, k.spelling = c :: word ∧ Word.isStart c = true := by
      cases k <;> exact ⟨_, _, rfl, by decide⟩
    have hw := Word.isPart_of_mem_spelling k
    rw [hs] at hw ⊢
    rw [first_word hc (fun d hd => hw d (List.mem_cons_of_mem c hd)) (notNext_isPart hr), ← hs]
    simp only [ofWord, Keyword.ofWord?_spelling]
  | name hc hw hr hk =>
    rw [first_word hc hw hr]
    simp only [ofWord, hk]
  | @symbol c rest hc =>
    obtain ⟨h1, h2⟩ := symbols_spec c hc
    simp [first, h1, h2]

theorem Spells.unique {text rest rest' : List Char} {w w' : Lexeme} (h : Spells text w rest)
    (h' : Spells text w' rest') : w = w' ∧ rest = rest' := by
  have := h.eq_first.symm.trans h'.eq_first
  simpa using this

/-- A text has its lexemes in one way only. -/
theorem Lexes.unique {text : List Char} {ws vs : List Lexeme} (h : Lexes text ws)
    (h' : Lexes text vs) : ws = vs := by
  induction ws generalizing text vs with
  | nil =>
    cases vs with
    | nil => rfl
    | cons v vs =>
      obtain ⟨rest, hv, -⟩ := lexes_cons_iff.1 h'
      obtain ⟨_, _, he, -⟩ := hv.exists_start
      rw [lexes_nil_iff.1 h] at he
      cases he
  | cons w ws ih =>
    obtain ⟨rest, hw, hr⟩ := lexes_cons_iff.1 h
    cases vs with
    | nil =>
      obtain ⟨_, _, he, -⟩ := hw.exists_start
      rw [lexes_nil_iff.1 h'] at he
      cases he
    | cons v vs =>
      obtain ⟨rest', hv, hr'⟩ := lexes_cons_iff.1 h'
      obtain ⟨rfl, rfl⟩ := hw.unique hv
      rw [ih hr hr']

/-! ## What follows a lexeme -/

theorem starts_of_isPart {c : Char} (h : Word.isPart c = true) : starts c = true := by
  simp only [Word.isPart, Bool.or_eq_true, Bool.and_eq_true, decide_eq_true_eq, Char.le_def,
    UInt32.le_iff_toNat_le] at h
  rcases h with h | ⟨lo, hi⟩
  · simp [starts, h]
  · simp [starts, Digit.isDigit_ascii lo hi]

/-- A text begins with the first character of another one, or with a gap, or not at all. -/
def BeginsAs (text other : List Char) : Prop :=
  ∀ c ∈ text.head?, other.head? = some c ∨ Blank.isGap c = true

theorem NotNext.beginsAs {p : Char → Bool} {text other : List Char} (h : NotNext p other)
    (hb : BeginsAs text other) (hp : ∀ c, Blank.isGap c = true → p c = false) :
    NotNext p text := by
  intro c hc
  rcases hb c hc with ho | hg
  · exact h c ho
  · exact hp c hg

theorem not_starts_of_isGap {c : Char} (h : Blank.isGap c = true) : starts c = false := by
  cases hs : starts c with
  | false => rfl
  | true =>
    rw [isGap_of_starts hs] at h
    cases h

theorem isDigit_of_isGap {c : Char} (h : Blank.isGap c = true) : Digit.isDigit c = false := by
  have hs := not_starts_of_isGap h
  simp only [starts, Bool.or_eq_false_iff] at hs
  exact hs.1.1

theorem isPart_of_isGap {c : Char} (h : Blank.isGap c = true) : Word.isPart c = false := by
  cases hp : Word.isPart c with
  | false => rfl
  | true =>
    rw [isGap_of_starts (starts_of_isPart hp)] at h
    cases h

theorem joinsKeyword_of_isGap {c : Char} (h : Blank.isGap c = true) :
    Word.joinsKeyword c = false := by
  have hd : c ≠ '$' := by
    rintro rfl
    cases h
  simp [Word.joinsKeyword, isPart_of_isGap h, hd]

/-- The characters of a lexeme each start one. What follows may be exchanged for a text that begins
alike, or with a gap. -/
theorem Spells.exists_word {text rest : List Char} {w : Lexeme} (h : Spells text w rest) :
    ∃ word, text = word ++ rest ∧ (∀ c ∈ word, starts c = true) ∧
      ∀ rest', BeginsAs rest' rest → Spells (word ++ rest') w rest' := by
  cases h with
  | @integer digits rest hne hd hr =>
    refine ⟨digits, rfl, fun c hc => by simp [starts, hd c hc], fun rest' hb => ?_⟩
    exact .integer hne hd (hr.beginsAs hb fun _ => isDigit_of_isGap)
  | keyword k hr =>
    refine ⟨k.spelling, rfl, fun c hc => starts_of_isPart (Word.isPart_of_mem_spelling k c hc),
      fun rest' hb => ?_⟩
    exact .keyword k (hr.beginsAs hb fun _ => joinsKeyword_of_isGap)
  | @name c word rest hc hw hr hk =>
    refine ⟨c :: word, rfl, fun d hd => ?_, fun rest' hb => ?_⟩
    · rcases List.mem_cons.1 hd with rfl | hd
      · exact starts_of_isPart (Word.isPart_of_isStart hc)
      · exact starts_of_isPart (hw d hd)
    · exact .name hc hw (hr.beginsAs hb fun _ => isPart_of_isGap) hk
  | @symbol c rest hc =>
    refine ⟨[c], rfl, fun d hd => ?_, fun rest' _ => .symbol hc⟩
    cases List.mem_singleton.1 hd
    simp [starts, hc]

end Grammar
end Tama
