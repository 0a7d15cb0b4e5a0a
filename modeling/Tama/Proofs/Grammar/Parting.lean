import Tama.Proofs.Grammar.Location
import Tama.Proofs.Grammar.Lockstep

/-!
# Texts that part behind an expression

Two texts may be the same up to some place, from which each goes on in its own way (`Parted`). Where
neither has anything there but gaps, comments and a semicolon (`Finishes`), the readers of an
expression keep in step on the two: none of them takes a semicolon, and no word or number goes on
over the place. So an expression is read off both alike (`expressionAt_parted`).
-/

set_option autoImplicit false

namespace Tama.Grammar

open Tama.Parser

/-! ## Texts that end differently -/

/-- The two texts are the same, but for what one and the other end with. -/
def Parted (last last' text text' : List Char) : Prop :=
  ∃ front, text = front ++ last ∧ text' = front ++ last'

/-- What is not skipped in a text, also from inside of a comment, is nothing or starts with a
semicolon. -/
def Finishes (text : List Char) : Prop :=
  ∀ inComment, ∀ c ∈ (skipFrom inComment text).head?, c = ';'

/-- Nothing that belongs to an expression stands at the start of a text. -/
def Blocked (text : List Char) : Prop :=
  ∀ c ∈ text.head?, c = ';' ∨ c = '/'

section
variable {text text' last last' : List Char}

theorem Blocked.notNext (h : Blocked text) {p : Char → Bool} (hsemi : p ';' = false)
    (hslash : p '/' = false) : NotNext p text := by
  intro c hc
  rcases h c hc with rfl | rfl
  · exact hsemi
  · exact hslash

theorem Finishes.blocked (h : Finishes last) (inComment : Bool) :
    Blocked (skipFrom inComment last) :=
  fun c hc => .inl (h inComment c hc)

/-- Nothing of a word or a number stands at the start. -/
theorem Finishes.notNext (h : Finishes last) {p : Char → Bool}
    (hgap : ∀ c, Blank.isGap c = true → p c = false) (hhash : p '#' = false)
    (hslash : p '/' = false) (hsemi : p ';' = false) : NotNext p last := by
  intro c hc
  obtain ⟨rest, rfl⟩ := List.head?_eq_some_iff.1 hc
  by_cases hg : Blank.isGap c = true
  · exact hgap c hg
  by_cases hcomment : c = '#' ∨ c = '/' ∧ rest.head? = some '/'
  · rcases hcomment with rfl | ⟨rfl, -⟩
    · exact hhash
    · exact hslash
  · have hskip : skipFrom false (c :: rest) = c :: rest := by simp [skipFrom, hg, hcomment]
    obtain rfl := h false c (by rw [hskip]; rfl)
    exact hsemi

theorem Finishes.joinsKeyword (h : Finishes last) : NotNext Word.joinsKeyword last :=
  h.notNext (fun _ => joinsKeyword_of_isGap) (by decide) (by decide) (by decide)

theorem Finishes.isPart (h : Finishes last) : NotNext Word.isPart last :=
  h.notNext (fun _ => isPart_of_isGap) (by decide) (by decide) (by decide)

theorem Finishes.isDigit (h : Finishes last) : NotNext Digit.isDigit last :=
  h.notNext (fun _ => isDigit_of_isGap) (by decide) (by decide) (by decide)

/-- A slash where the texts part may begin a comment in one of them and not in the other. -/
theorem Finishes.blocked_slash (h : Finishes last) : Blocked (skip ('/' :: last)) := by
  have hgap : Blank.isGap '/' = false := by decide
  unfold skip
  simp only [skipFrom, hgap, Bool.false_eq_true, if_false]
  split
  · exact h.blocked true
  · rintro c ⟨⟩
    exact .inr rfl

/-- Nothing of an expression is left on either text, or they go on alike and part further on. -/
theorem Parted.skip_cases (h : Parted last last' text text') (hlast : Finishes last)
    (hlast' : Finishes last') :
    Blocked (skip text) ∧ Blocked (skip text') ∨
    ∃ c front, skip text = c :: (front ++ last) ∧ skip text' = c :: (front ++ last') := by
  obtain ⟨front, rfl, rfl⟩ := h
  cases hskip : skip front with
  | nil =>
    obtain ⟨still, hstill⟩ := exists_skipFrom_append hskip
    unfold skip
    rw [hstill, hstill]
    exact .inl ⟨hlast.blocked still, hlast'.blocked still⟩
  | cons c tail =>
    obtain ⟨hgap, hcomment⟩ := not_skipped_of_skip hskip
    rw [skip_append_of_cons hskip, skip_append_of_cons hskip]
    by_cases hslash : c = '/' ∧ tail = []
    · obtain ⟨rfl, rfl⟩ := hslash
      exact .inl ⟨hlast.blocked_slash, hlast'.blocked_slash⟩
    · have behind : ∀ more, ¬(c = '#' ∨ c = '/' ∧ (tail ++ more).head? = some '/') := by
        intro more
        cases tail with
        | nil => simp_all
        | cons d tail => simpa using hcomment
      exact .inr ⟨c, tail, skip_cons hgap (behind last), skip_cons hgap (behind last')⟩

end

/-! ## Words -/

section
variable {text rest last : List Char}

/-- A word stands before the end that a text has, or not at all. -/
theorem exists_of_append_notNext {word : List Char} (hw : ∀ c ∈ word, Word.isPart c = true)
    (hlast : NotNext Word.isPart last) (h : text ++ last = word ++ rest) :
    ∃ tail, text = word ++ tail ∧ rest = tail ++ last := by
  rcases List.append_eq_append_iff.1 h with ⟨front, hword, hmore⟩ | ⟨tail, htext, hrest⟩
  · cases front with
    | nil => exact ⟨[], by simpa using hword.symm, by simpa using hmore.symm⟩
    | cons c front =>
      have hc : Word.isPart c = true := hw c (by simp [hword])
      rw [hmore] at hlast
      rw [hlast c rfl] at hc
      cases hc
  · exact ⟨tail, htext, hrest⟩

theorem afterKeyword?_append (k : Keyword) (text : List Char)
    (h : NotNext Word.joinsKeyword last) :
    afterKeyword? k (text ++ last) = (afterKeyword? k text).map (· ++ last) := by
  ext rest
  rw [afterKeyword?_eq_some, Option.map_eq_some_iff]
  constructor
  · rintro ⟨htext, hnext⟩
    obtain ⟨tail, rfl, rfl⟩ :=
      exists_of_append_notNext (Word.isPart_of_mem_spelling k) (notNext_isPart h) htext
    exact ⟨tail, afterKeyword?_eq_some.2 ⟨rfl, hnext.of_append⟩, rfl⟩
  · rintro ⟨tail, htail, rfl⟩
    obtain ⟨rfl, hnext⟩ := afterKeyword?_eq_some.1 htail
    exact ⟨List.append_assoc .., hnext.append h⟩

theorem atKeyword_append_notNext (text : List Char) (h : NotNext Word.joinsKeyword last) :
    atKeyword (text ++ last) = atKeyword text := by
  simp only [atKeyword, afterKeyword?_append _ _ h, Option.isSome_map]

end

/-! ## Readers -/

section
variable {last last' : List Char} (hlast : Finishes last) (hlast' : Finishes last')
include hlast hlast'

/-- A reader that looks at nothing before what it skips keeps in step if it fails where nothing of
an expression is left, and takes up nothing of what the texts end with. -/
theorem lockstep_of_parted {α : Type} {p : Parser α}
    (blocked : ∀ text, Blocked (skip text) → Fails p text)
    (cons : ∀ text text' c front, skip text = c :: (front ++ last) →
      skip text' = c :: (front ++ last') → Parallel (Parted last last') (p text) (p text')) :
    Lockstep (Parted last last') (Parted last last') p := by
  intro text text' h
  rcases h.skip_cases hlast hlast' with ⟨hb, hb'⟩ | ⟨c, front, hs, hs'⟩
  · exact (blocked text hb).parallel (blocked text' hb')
  · exact cons text text' c front hs hs'

theorem symbol_parted {c : Char} (hc : c ≠ ';' ∧ c ≠ '/') :
    Lockstep (Parted last last') (Parted last last') (symbol c) := by
  refine lockstep_of_parted hlast hlast' (fun text hb => ?_) fun text text' d front hs hs' => ?_
  · refine symbol_fails_of_head fun h => ?_
    rcases hb c h with rfl | rfl
    · exact hc.1 rfl
    · exact hc.2 rfl
  · simp only [symbol, hs, hs']
    split
    · exact .done ⟨front, rfl, rfl⟩
    · exact .failed

theorem keyword_parted (k : Keyword) :
    Lockstep (Parted last last') (Parted last last') (keyword k) := by
  refine lockstep_of_parted hlast hlast' (fun text hb => ?_) fun text text' c front hs hs' => ?_
  · exact keyword_fails_of_head (hb.notNext (by decide) (by decide)) k
  · unfold keyword
    rw [hs, hs', ← List.cons_append, ← List.cons_append,
      afterKeyword?_append k _ hlast.joinsKeyword, afterKeyword?_append k _ hlast'.joinsKeyword]
    cases afterKeyword? k (c :: front) with
    | none => exact .failed
    | some rest => exact .done ⟨rest, rfl, rfl⟩

theorem name_parted : Lockstep (Parted last last') (Parted last last') name := by
  refine lockstep_of_parted hlast hlast' (fun text hb => ?_) fun text text' c front hs hs' => ?_
  · exact name_fails_of_head (hb.notNext (by decide) (by decide))
  · have hkeyword : ∀ {more}, Finishes more →
        atKeyword (c :: (front ++ more)) = atKeyword (c :: front) :=
      fun h => atKeyword_append_notNext (c :: front) h.joinsKeyword
    simp only [name, hs, hs', hkeyword hlast, hkeyword hlast',
      takeWhile_append_notNext hlast.isPart, takeWhile_append_notNext hlast'.isPart,
      dropWhile_append_notNext hlast.isPart, dropWhile_append_notNext hlast'.isPart]
    split
    · exact .done ⟨_, rfl, rfl⟩
    · exact .failed

theorem integer_parted : Lockstep (Parted last last') (Parted last last') integer := by
  refine lockstep_of_parted hlast hlast' (fun text hb => ?_) fun text text' c front hs hs' => ?_
  · exact integer_fails_of_head (hb.notNext (by decide) (by decide))
  · simp only [integer, hs, hs', ← List.cons_append,
      takeWhile_append_notNext hlast.isDigit, takeWhile_append_notNext hlast'.isDigit,
      dropWhile_append_notNext hlast.isDigit, dropWhile_append_notNext hlast'.isDigit]
    split
    · exact .failed
    · split
      · exact .done ⟨_, rfl, rfl⟩
      · exact .halted _

end

/-! ## Expressions -/

section
variable {last last' : List Char} (hlast : Finishes last) (hlast' : Finishes last')
variable {expression : Parser Tree}
  (he : Lockstep (Parted last last') (Parted last last') expression)
  (hb : ∀ text a rest, expression text = .done a rest → rest.length ≤ text.length)
include hlast hlast' he hb

theorem callArguments_parted :
    Lockstep (Parted last last') (Parted last last') (callArguments expression) := by
  have hopen := symbol_parted hlast hlast' (c := '(') (by decide)
  have hcomma := symbol_parted hlast hlast' (c := ',') (by decide)
  have hclose := symbol_parted hlast hlast' (c := ')') (by decide)
  refine hopen.bind fun _ => .bind (.orElse (he.bind fun first => ?_) (.pure [])) fun args => ?_
  · exact (hcomma.manyAfter he hb).bind fun rest => .pure (first :: rest)
  · exact hclose.bind fun _ => .pure args

theorem operand_parted :
    Lockstep (Parted last last') (Parted last last') (operand expression) := by
  have hopen := symbol_parted hlast hlast' (c := '(') (by decide)
  have hclose := symbol_parted hlast hlast' (c := ')') (by decide)
  have hinside := he.bind fun e => hclose.bind fun _ => .pure e
  exact .operand (integer_parted hlast hlast') (keyword_parted hlast hlast')
    (name_parted hlast hlast') hopen (callArguments_parted hlast hlast' he hb) hinside

end

/-- An expression is read in step off two texts that part where nothing of it is left. -/
theorem expressionAt_parted {last last' : List Char} (hlast : Finishes last)
    (hlast' : Finishes last') (depth : Nat) :
    Lockstep (Parted last last') (Parted last last') (expressionAt depth) := by
  induction depth with
  | zero => exact .halt .tooDeep
  | succ depth ih =>
    have hb := expressionAt_bounded depth
    have ho := operand_parted hlast hlast' ih hb.length_le
    have hplus := symbol_parted hlast hlast' (c := '+') (by decide)
    refine ho.bind fun first => .bind ?_ fun rest => .pure _
    exact hplus.manyAfter ho (operand_bounded hb).length_le

end Tama.Grammar
