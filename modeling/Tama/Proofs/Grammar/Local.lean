import Mathlib.Data.List.Basic
import Tama.Proofs.Grammar.Nesting

/-!
# Reading does not depend on what follows

A parser is local if it reads the same off every text that goes on as the first one did, or at least
begins its rest alike (`Local`); one that does so whatever follows is closed (`Closed`). What
follows is not looked at beyond that, so it need not have any lexemes. Sequences, lists and
repetitions of such parsers are again local. Main statement: `Chain.exchange`.
-/

set_option autoImplicit false

namespace Tama.Grammar

open Tama.Parser

/-! ## Texts that begin alike -/

/-- Two texts begin with the same gaps and comments, and then the same character of a lexeme. -/
def StartAlike (text text' : List Char) : Prop :=
  ∃ gap c tail tail', text = gap ++ c :: tail ∧ text' = gap ++ c :: tail' ∧
    skip text = c :: tail ∧ skip text' = c :: tail' ∧ starts c = true

/-- One of these characters comes next, gaps and comments apart. -/
def At (cs text : List Char) : Prop :=
  ∃ c ∈ cs, (skip text).head? = some c

/-- Two texts begin alike, with one of these characters. -/
def Before (cs rest rest' : List Char) : Prop :=
  At cs rest ∧ StartAlike rest rest'

section
variable {text text' rest rest' cs ds : List Char} {c : Char}

theorem StartAlike.symm (h : StartAlike text text') : StartAlike text' text := by
  obtain ⟨gap, c, tail, tail', ht, ht', hs, hs', hc⟩ := h
  exact ⟨gap, c, tail', tail, ht', ht, hs', hs, hc⟩

theorem StartAlike.head?_skip (h : StartAlike text text') :
    (skip text').head? = (skip text).head? := by
  obtain ⟨gap, c, tail, tail', -, -, hs, hs', -⟩ := h
  rw [hs, hs', List.head?_cons, List.head?_cons]

theorem StartAlike.ne_nil (h : StartAlike text text') : text ≠ [] := by
  obtain ⟨gap, c, tail, tail', rfl, -⟩ := h
  simp

theorem StartAlike.beginsAs (h : StartAlike text text') : BeginsAs text' text := by
  obtain ⟨gap, c, tail, tail', rfl, rfl, -⟩ := h
  intro d hd
  cases gap <;> exact .inl hd

/-- What is skipped does not start with a dollar sign, nor does a lexeme. -/
theorem StartAlike.notNext_dollar (h : StartAlike text text') : NotNext (· = '$') text := by
  obtain ⟨gap, c, tail, tail', -, -, hs, -, hc⟩ := h
  intro d hd
  obtain ⟨others, rfl⟩ := List.head?_eq_some_iff.1 hd
  apply decide_eq_false
  rintro rfl
  have hdollar : skip ('$' :: others) = '$' :: others := rfl
  rw [hdollar] at hs
  exact ne_of_starts hc (by simp) (List.cons.inj hs).1.symm

theorem At.mono (h : At cs text) (hs : cs ⊆ ds) : At ds text := by
  obtain ⟨c, hc, ht⟩ := h
  exact ⟨c, hs hc, ht⟩

theorem At.alike (h : At cs text) (ht : StartAlike text text') : At cs text' := by
  obtain ⟨c, hc, hs⟩ := h
  exact ⟨c, hc, by rw [ht.head?_skip, hs]⟩

theorem Before.mono (h : Before cs rest rest') (hs : cs ⊆ ds) : Before ds rest rest' :=
  ⟨h.1.mono hs, h.2⟩

/-- What is skipped before a lexeme is skipped before any other text that starts as it does. -/
theorem exists_gap {tail : List Char} (h : skip text = c :: tail) (hc : starts c = true) :
    ∃ gap, text = gap ++ c :: tail ∧ ∀ tail', skip (gap ++ c :: tail') = c :: tail' := by
  have hskips := skips_skip text
  rw [h] at hskips
  suffices hgap : ∃ gap, text = gap ++ c :: tail ∧
      ∀ tail', Skips (gap ++ c :: tail') (c :: tail') by
    obtain ⟨gap, htext, hskips⟩ := hgap
    exact ⟨gap, htext, fun tail' => by rw [(hskips tail').skip_eq, skip_eq_of_starts hc]⟩
  clear h
  generalize hs : c :: tail = start at hskips ⊢
  induction hskips with
  | refl text => exact ⟨[], rfl, fun tail' => .refl _⟩
  | @gap d text rest hd _ ih =>
    obtain ⟨gap, rfl, hskips⟩ := ih hs
    exact ⟨d :: gap, rfl, fun tail' => .gap hd (hskips tail')⟩
  | @comment body text rest hb ht _ ih =>
    obtain ⟨gap, rfl, hskips⟩ := ih hs
    refine ⟨body ++ gap, (List.append_assoc ..).symm, fun tail' => ?_⟩
    have hnext : NotNext (· ≠ '\n') (gap ++ c :: tail') := by
      subst hs
      cases gap <;> exact fun d hd => ht d hd
    rw [List.append_assoc]
    exact .comment hb hnext (hskips tail')

end

/-! ## Local parsers -/

/-- Where a parser succeeds, it reads the same off every text that goes on as `R` says. -/
def Local {α : Type} (p : Parser α) (R : List Char → List Char → Prop) : Prop :=
  ∀ text rest rest' a, p text = .done a rest → R rest rest' →
    ∃ word, text = word ++ rest ∧ StartAlike text (word ++ rest') ∧
      p (word ++ rest') = .done a rest'

/-- A parser reads the same whatever follows. -/
abbrev Closed {α : Type} (p : Parser α) : Prop :=
  Local p fun _ _ => True

section
variable {α β : Type} {p q : Parser α} {R S : List Char → List Char → Prop}

theorem Local.mono (hp : Local p R) (h : ∀ rest rest', S rest rest' → R rest rest') :
    Local p S :=
  fun text rest rest' a hd hs => hp text rest rest' a hd (h rest rest' hs)

theorem Local.map (hp : Local p R) (f : α → β) : Local (p >>= fun a => pure (f a)) R := by
  intro text rest rest' b h hr
  obtain ⟨a, mid, ha, h⟩ := bind_eq_done.1 h
  cases h
  obtain ⟨word, htext, halike, hp'⟩ := hp text _ rest' a ha hr
  exact ⟨word, htext, halike, by rw [bind_apply, hp']; rfl⟩

theorem Local.bind_of {f : α → Parser β} (hp : Local p R) (hf : ∀ a, Local (f a) S)
    (hstep : ∀ a b mid mid' rest rest', f a mid = .done b rest → S rest rest' →
      StartAlike mid mid' → R mid mid') : Local (p >>= f) S := by
  intro text rest rest' b h hs
  obtain ⟨a, mid, ha, hb⟩ := bind_eq_done.1 h
  obtain ⟨after, rfl, hmid, hb'⟩ := hf a mid rest rest' b hb hs
  have hr := hstep a b _ _ rest rest' hb hs hmid
  obtain ⟨word, rfl, halike, ha'⟩ := hp text _ _ a ha hr
  refine ⟨word ++ after, (List.append_assoc ..).symm, ?_, ?_⟩
  · rwa [List.append_assoc]
  · rw [bind_apply, List.append_assoc, ha']
    exact hb'

theorem Local.bind {f : α → Parser β} (hp : Local p StartAlike) (hf : ∀ a, Local (f a) S) :
    Local (p >>= f) S :=
  hp.bind_of hf fun _ _ _ _ _ _ _ _ h => h

theorem Closed.bind {f : α → Parser β} (hp : Closed p) (hf : ∀ a, Local (f a) S) :
    Local (p >>= f) S :=
  hp.bind_of hf fun _ _ _ _ _ _ _ _ _ => trivial

/-- A parser before one that begins with a symbol. -/
theorem Local.bind_symbol {cs : List Char} {c : Char} {f : α → Parser β}
    (hp : Local p (Before cs)) (hf : ∀ a, Local (symbol c >>= fun _ => f a) S) (hc : c ∈ cs) :
    Local (p >>= fun a => symbol c >>= fun _ => f a) S := by
  refine hp.bind_of hf fun a b mid mid' rest rest' h _ halike => ⟨⟨c, hc, ?_⟩, halike⟩
  obtain ⟨u, after, hs, -⟩ := bind_eq_done.1 h
  rw [symbol_eq_done hs, List.head?_cons]

/-- A closed parser takes up a character that is not skipped. -/
theorem Local.length_lt_skip (hp : Closed p) {text rest : List Char} {a : α}
    (h : p text = .done a rest) : rest.length < (skip text).length := by
  obtain ⟨word, rfl, halike, -⟩ := hp text rest [] a h trivial
  obtain ⟨gap, c, tail, tail', ht, hw, hs, -, -⟩ := halike
  have hlength := congrArg List.length ht
  rw [List.append_nil] at hw
  rw [hs]
  simp only [hw, List.length_append, List.length_cons] at hlength ⊢
  omega

theorem Local.length_lt (hp : Closed p) {text rest : List Char} {a : α}
    (h : p text = .done a rest) : rest.length < text.length :=
  Nat.lt_of_lt_of_le (hp.length_lt_skip h) (length_skip_le text)

theorem orElse_of_done {text rest : List Char} {a : α} (h : p text = .done a rest) :
    Parser.orElse p q text = .done a rest :=
  orElse_eq_done.2 (.inl h)

theorem orElse_of_fails {text : List Char} (h : Fails p text) :
    Parser.orElse p q text = q text := by
  obtain ⟨rest, wanted, h⟩ := h
  rw [Parser.orElse, h]

end

/-! ## Repetitions -/

/-- A parser reads results off a text, one after the other. -/
inductive Chain {α : Type} (p : Parser α) : List Char → List α → List Char → Prop
  | nil (text : List Char) : Chain p text [] text
  | cons {text mid rest : List Char} {a : α} {as : List α} : p text = .done a mid →
      Chain p mid as rest → Chain p text (a :: as) rest

section
variable {α : Type} {p : Parser α} {text rest : List Char} {as : List α}

theorem Chain.length_le (hlt : ∀ text a rest, p text = .done a rest → rest.length < text.length)
    (h : Chain p text as rest) : as.length + rest.length ≤ text.length := by
  induction h with
  | nil => simp
  | cons ha _ ih =>
    have := hlt _ _ _ ha
    simp only [List.length_cons]
    omega

theorem repeatUpTo_eq_done {n : Nat} (h : Parser.repeatUpTo p n text = .done as rest) :
    Chain p text as rest ∧ (as.length = n ∨ Fails p rest) := by
  induction n generalizing text as with
  | zero =>
    cases h
    exact ⟨.nil rest, .inl rfl⟩
  | succ n ih =>
    unfold Parser.repeatUpTo at h
    split at h
    · rename_i a mid ha
      split at h
      · rename_i as' last hl
        cases h
        obtain ⟨hchain, hend⟩ := ih hl
        exact ⟨.cons ha hchain, by simpa using hend⟩
      · cases h
      · cases h
    · rename_i r w hf
      cases h
      exact ⟨.nil _, .inr ⟨r, w, hf⟩⟩
    · cases h

theorem Chain.repeatUpTo (h : Chain p text as rest) (hend : Fails p rest) {n : Nat}
    (hn : as.length ≤ n) : Parser.repeatUpTo p n text = .done as rest := by
  induction h generalizing n with
  | nil text =>
    obtain ⟨r, w, hend⟩ := hend
    cases n with
    | zero => rfl
    | succ n => simp only [Parser.repeatUpTo, hend]
  | cons ha _ ih =>
    obtain ⟨n, rfl⟩ : ∃ m, n = m + 1 := ⟨n - 1, by simp only [List.length_cons] at hn; omega⟩
    simp only [Parser.repeatUpTo, ha, ih hend (by simpa using hn)]

/-- A repetition reads results until its parser fails, where each of them takes up a character and
the parser fails at the end of the text. -/
theorem many_eq_done_iff
    (hlt : ∀ text a rest, p text = .done a rest → rest.length < text.length)
    (hend : rest = [] → Fails p []) :
    Parser.many p text = .done as rest ↔ Chain p text as rest ∧ Fails p rest := by
  constructor
  · intro h
    obtain ⟨hchain, hall | hfails⟩ := repeatUpTo_eq_done h
    · have := hchain.length_le hlt
      obtain rfl : rest = [] := List.eq_nil_of_length_eq_zero (by omega)
      exact ⟨hchain, hend rfl⟩
    · exact ⟨hchain, hfails⟩
  · rintro ⟨hchain, hfails⟩
    have := hchain.length_le hlt
    exact hchain.repeatUpTo hfails (by omega)

/-- **Closed items stay what they are.** What a closed parser reads off a text it reads off every
text that begins with the same characters. -/
theorem Chain.exchange (hp : Closed p) (h : Chain p text as rest) (rest' : List Char) :
    ∃ word, text = word ++ rest ∧ Chain p (word ++ rest') as rest' := by
  induction h with
  | nil text => exact ⟨[], rfl, .nil rest'⟩
  | @cons text mid rest a as ha _ ih =>
    obtain ⟨after, rfl, hchain⟩ := ih
    obtain ⟨word, rfl, -, ha'⟩ := hp text _ (after ++ rest') a ha trivial
    refine ⟨word ++ after, (List.append_assoc ..).symm, ?_⟩
    rw [List.append_assoc]
    exact .cons ha' hchain

/-- Items that may each be followed by another one, or by what comes last, stay what they are where
what comes last begins as it did. -/
theorem Chain.alike {R : List Char → List Char → Prop} (hp : Local p R)
    (hnext : ∀ text text' a rest, p text = .done a rest → StartAlike text text' → R text text')
    (h : Chain p text as rest) {rest' : List Char} (halike : StartAlike rest rest')
    (hr : R rest rest') :
    ∃ word, text = word ++ rest ∧ StartAlike text (word ++ rest') ∧ R text (word ++ rest') ∧
      Chain p (word ++ rest') as rest' := by
  -- from the last item to the first: an item stays what it is once what follows it is alike
  induction h with
  | nil text => exact ⟨[], rfl, halike, hr, .nil rest'⟩
  | @cons text mid rest a as ha _ ih =>
    obtain ⟨after, rfl, -, hmid, hchain⟩ := ih halike hr
    obtain ⟨word, rfl, htext, ha'⟩ := hp text _ _ a ha hmid
    refine ⟨word ++ after, (List.append_assoc ..).symm, ?_⟩
    rw [List.append_assoc word after rest']
    exact ⟨htext, hnext _ _ _ _ ha htext, .cons ha' hchain⟩

theorem Chain.length_skip_le (hp : Closed p) (h : Chain p text as rest) :
    (skip rest).length ≤ (skip text).length := by
  induction h with
  | nil text => exact Nat.le_refl _
  | @cons text mid rest a as ha _ ih =>
    have := hp.length_lt_skip ha
    have := Parser.length_skip_le mid
    omega

/-- A parser reads on until it fails, from wherever it has read to so far. -/
theorem Chain.reads_on (h : Chain p text as rest) (hend : Fails p rest) {bs : List α}
    {mid : List Char} (h' : Chain p text bs mid) : ∃ more, Chain p mid more rest := by
  -- the shorter chain reads the first items of the longer one, since a parser has one result
  induction h' generalizing as with
  | nil text => exact ⟨as, h⟩
  | cons hb _ ih =>
    cases h with
    | nil =>
      obtain ⟨_, _, hend⟩ := hend
      rw [hend] at hb
      cases hb
    | cons ha h =>
      rw [ha] at hb
      cases hb
      exact ih h

/-- A repetition up to one of some symbols, where its parser fails. -/
theorem Local.many {R : List Char → List Char → Prop} {cs : List Char} (hp : Local p R)
    (hlt : ∀ text a rest, p text = .done a rest → rest.length < text.length)
    (hnext : ∀ text text' a rest, p text = .done a rest → StartAlike text text' → R text text')
    (hlast : ∀ rest rest', Before cs rest rest' → R rest rest')
    (hstop : ∀ text text', Fails p text → At cs text' → Fails p text') :
    Local (Parser.many p) (Before cs) := by
  intro text rest rest' as h hr
  obtain ⟨hat, halike⟩ := id hr
  obtain ⟨hchain, hfails⟩ := (many_eq_done_iff hlt fun he => absurd he halike.ne_nil).1 h
  obtain ⟨word, htext, ht, -, hchain'⟩ := hchain.alike hp hnext halike (hlast rest rest' hr)
  refine ⟨word, htext, ht, (many_eq_done_iff hlt fun he => ?_).2 ⟨hchain', ?_⟩⟩
  · exact absurd he halike.symm.ne_nil
  · exact hstop rest rest' hfails (hat.alike halike)

end

/-! ## Readers -/

section
variable {text rest rest' : List Char} {w : Lexeme} {R : List Char → List Char → Prop}

/-- A lexeme stays what it is where the text goes on with the same character. -/
theorem Spells.exchange (h : Spells (skip text) w rest) (hr : StartAlike rest rest') :
    ∃ word, text = word ++ rest ∧ StartAlike text (word ++ rest') ∧
      Spells (skip (word ++ rest')) w rest' := by
  obtain ⟨word, hs, -, hfollow⟩ := h.exists_word
  obtain ⟨c, tail, ht, hc, hlt⟩ := h.exists_start
  obtain ⟨d, word, rfl⟩ : ∃ d others, word = d :: others := by
    refine List.exists_cons_of_ne_nil fun hnil => ?_
    rw [hs, hnil, List.nil_append] at hlt
    exact Nat.lt_irrefl _ hlt
  rw [hs] at ht
  obtain ⟨rfl, rfl⟩ := List.cons.inj ht
  obtain ⟨gap, rfl, hskip⟩ := exists_gap hs hc
  have hs' : skip (gap ++ d :: (word ++ rest')) = d :: (word ++ rest') := hskip (word ++ rest')
  refine ⟨gap ++ d :: word, by simp, ?_, ?_⟩
  · exact ⟨gap, d, word ++ rest, word ++ rest', rfl, by simp, hs, by simpa using hs', hc⟩
  · rw [List.append_assoc, List.cons_append, hs']
    exact hfollow rest' hr.beginsAs

theorem symbol_closed {c : Char} (hc : c ∈ symbols) : Closed (symbol c) := by
  intro text rest rest' u h _
  have hs := symbol_eq_done h
  have hstarts : starts c = true := by simp [starts, hc]
  obtain ⟨gap, rfl, hskip⟩ := exists_gap hs hstarts
  refine ⟨gap ++ [c], by simp, ?_, ?_⟩
  · exact ⟨gap, c, rest, rest', rfl, by simp, hs, by simpa using hskip rest', hstarts⟩
  · exact symbol_of_skip (by simpa using hskip rest')

theorem openOperand_closed : Closed openOperand := by
  intro text rest rest' u h _
  have hs : symbol '(' text = .done u rest := by
    rcases openOperand_cases text with ⟨mid, ho, hs⟩ | ⟨⟨_, _, ho⟩, -⟩ <;> rw [ho] at h <;> cases h
    exact hs
  obtain ⟨word, htext, halike, hs'⟩ := symbol_closed (by decide) text rest rest' u hs trivial
  refine ⟨word, htext, halike, ?_⟩
  rcases openOperand_cases (word ++ rest') with ⟨mid, ho, hmid⟩ | ⟨-, _, _, hf⟩
  · rwa [ho, ← hmid]
  · rw [hf] at hs'
    cases hs'

theorem keyword_local (k : Keyword) : Local (keyword k) StartAlike := by
  intro text rest rest' u h hr
  obtain ⟨word, htext, halike, hw⟩ := (keyword_eq_done h).exchange hr
  exact ⟨word, htext, halike, keyword_of_spells hw⟩

theorem name_local : Local name StartAlike := by
  intro text rest rest' x h hr
  obtain ⟨word, htext, halike, hw⟩ := (name_spells h hr.notNext_dollar).exchange hr
  exact ⟨word, htext, halike, name_of_spells hw hr.symm.notNext_dollar⟩

theorem integer_local : Local integer StartAlike := by
  intro text rest rest' n h hr
  obtain ⟨digits, rfl, hl, hw⟩ := integer_spells h
  obtain ⟨word, htext, halike, hw'⟩ := hw.exchange hr
  exact ⟨word, htext, halike, integer_of_spells hl hw'⟩

/-! ## Where readers fail -/

/-- Nothing starts here that an operand starts with. -/
structure Idle (text : List Char) : Prop where
  digit : NotNext Digit.isDigit (skip text)
  word : NotNext Word.isStart (skip text)
  parenthesis : (skip text).head? ≠ some '('

theorem idle_of_skip (h : skip text = []) : Idle text := by
  constructor <;> rw [h] <;> nofun

theorem At.idle {cs : List Char} (h : At cs text) (hsub : cs ⊆ symbols) (hopen : '(' ∉ cs) :
    Idle text := by
  obtain ⟨c, hc, hs⟩ := h
  obtain ⟨tail, hs⟩ := List.head?_eq_some_iff.1 hs
  obtain ⟨hd, hw⟩ := symbols_spec c (hsub hc)
  refine ⟨hs ▸ notNext_cons.2 hd, hs ▸ notNext_cons.2 hw, fun he => hopen ?_⟩
  rw [hs] at he
  exact Option.some.inj he ▸ hc

theorem symbol_fails_of_at {cs : List Char} {c : Char} (h : At cs text) (hc : c ∉ cs) :
    Fails (symbol c) text := by
  obtain ⟨d, hd, hs⟩ := h
  refine symbol_fails_of_head fun he => hc ?_
  rw [hs] at he
  exact Option.some.inj he ▸ hd

end

/-! ## Combinators of the grammar -/

/-- Where nothing starts that an operand starts with, a parser fails, unless it halts on every
text. -/
def Refuses {α : Type} (p : Parser α) : Prop :=
  (∀ text, p text = .halted .tooDeep) ∨ ∀ text, Idle text → Fails p text

section
variable {α : Type} {p : Parser α} {R : List Char → List Char → Prop}

theorem Refuses.fails (hp : Refuses p) {text text' : List Char} (h : Fails p text)
    (hidle : Idle text') : Fails p text' := by
  rcases hp with hp | hp
  · obtain ⟨rest, wanted, h⟩ := h
    rw [hp] at h
    cases h
  · exact hp text' hidle

/-- Items after a symbol each, up to another symbol. -/
theorem Local.manyAfter {c : Char} {cs ds : List Char} (hp : Local p (Before (c :: cs)))
    (hb : ∀ text a rest, p text = .done a rest → rest.length ≤ text.length) (hc : c ∈ symbols)
    (hcs : c ∉ ds) (hsub : ds ⊆ c :: cs) :
    Local (Parser.many do symbol c; p) (Before ds) := by
  refine Local.many (R := Before (c :: cs)) ?item ?progress ?next ?last ?stop
  case item =>
    exact (symbol_closed hc).bind fun _ => hp
  case progress =>
    intro text a rest h
    obtain ⟨u, mid, hs, h⟩ := bind_eq_done.1 h
    exact Nat.lt_of_le_of_lt (hb mid a rest h) ((takes_symbol c).length_lt text u mid hs)
  case next =>
    intro text text' a rest h halike
    obtain ⟨u, mid, hs, -⟩ := bind_eq_done.1 h
    exact ⟨⟨c, List.mem_cons_self, by rw [symbol_eq_done hs]; rfl⟩, halike⟩
  case last => exact fun rest rest' h => h.mono hsub
  case stop =>
    intro text text' _ hat
    exact (symbol_fails_of_at hat hcs).bind

/-- Items after a symbol each begin with this symbol, or there are none. -/
theorem at_of_manyAfter {c : Char} {cs text rest : List Char} {as : List α}
    (h : Parser.many (do symbol c; p) text = .done as rest) (hr : At cs rest) :
    At (c :: cs) text := by
  obtain ⟨hchain, -⟩ := repeatUpTo_eq_done h
  cases hchain with
  | nil => exact hr.mono (List.subset_cons_self c cs)
  | cons ha _ =>
    obtain ⟨u, mid, hs, -⟩ := bind_eq_done.1 ha
    exact ⟨c, List.mem_cons_self, by rw [symbol_eq_done hs]; rfl⟩

/-- A list in parentheses, up to the closing one. -/
theorem Local.listed {cs : List Char} (hp : Local p (Before (',' :: cs)))
    (hb : ∀ text a rest, p text = .done a rest → rest.length ≤ text.length)
    (hc : ')' ∈ cs) (hr : Refuses p) :
    Local (orEmpty (Parser.separatedBy (symbol ',') p)) (Before [')']) := by
  have hlist : Local (Parser.separatedBy (symbol ',') p) (Before [')']) := by
    have hsub : [')'] ⊆ cs := by simpa using hc
    have hmany : Local (Parser.many do symbol ','; p) (Before [')']) :=
      hp.manyAfter hb (by decide) (by decide) (List.subset_cons_of_subset ',' hsub)
    refine hp.bind_of (fun first => hmany.map _) fun a as mid mid' rest rest' h hend halike => ?_
    obtain ⟨bs, last, hbs, h⟩ := bind_eq_done.1 h
    cases h
    exact ⟨(at_of_manyAfter hbs hend.1).mono (List.cons_subset_cons ',' hsub), halike⟩
  intro text rest rest' as h hend
  rcases orElse_eq_done.1 h with h | ⟨⟨r, w, hf⟩, h⟩
  · obtain ⟨word, htext, halike, h'⟩ := hlist text rest rest' as h hend
    exact ⟨word, htext, halike, orElse_of_done h'⟩
  · -- nothing stands in the parentheses: the list has failed on its first item
    cases h
    have hp' : Fails p rest' := by
      rcases hr with hr | hr
      · rw [Parser.separatedBy, bind_apply, hr] at hf
        cases hf
      · exact hr rest' ((hend.1.alike hend.2).idle (by decide) (by decide))
    refine ⟨[], rfl, hend.2, ?_⟩
    exact orElse_of_fails (p := Parser.separatedBy (symbol ',') p) hp'.bind

end

end Tama.Grammar
