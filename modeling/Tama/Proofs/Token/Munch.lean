import Tama.Proofs.Grammar.Tokens

/-!
# What a token is read from

A number is read from a run of digits that no digit follows, and a word from a stretch of the text
that stands in no longer word (`Lexeme.ReadFrom`). That a word is not part of a longer one to its
left rests on how the scan comes to it: a word that ends before it would have been read on
(`Settled`).
-/

set_option autoImplicit false

namespace Tama

open Grammar

/-! ## Words -/

namespace Word

/-- A name or a keyword. -/
def IsWord (word : List Char) : Prop :=
  ∃ c part, word = c :: part ∧ isStart c = true ∧ ∀ d ∈ part, isPart d = true

/-- A word that stands in no longer one of the text around it. -/
def Maximal (before word after : List Char) : Prop :=
  IsWord word ∧ ∀ left right, left <:+ before → right <+: after →
    IsWord (left ++ (word ++ right)) → left = [] ∧ right = []

variable {u v word : List Char}

theorem IsWord.isPart (h : IsWord word) : ∀ c ∈ word, isPart c = true := by
  obtain ⟨c, part, rfl, hc, hpart⟩ := h
  exact List.forall_mem_cons.2 ⟨isPart_of_isStart hc, hpart⟩

theorem IsWord.of_append (h : IsWord (u ++ v)) (hu : u ≠ []) : IsWord u := by
  obtain ⟨c, u, rfl⟩ := List.exists_cons_of_ne_nil hu
  obtain ⟨d, part, heq, hd, hpart⟩ := h
  obtain ⟨rfl, rfl⟩ := List.cons.inj heq
  exact ⟨c, u, rfl, hd, fun e he => hpart e (List.mem_append_left v he)⟩

end Word

namespace Lexer

open Word

variable {before rest word : List Char} {c : Char}

/-- A word that ends where the rest of a text begins does not go on there. -/
def Settled (before rest : List Char) : Prop :=
  ∀ left, left <:+ before → IsWord left → NotNext isPart rest

theorem settled_nil (rest : List Char) : Settled [] rest := by
  rintro left hleft ⟨c, part, rfl, -⟩
  cases List.suffix_nil.1 hleft

/-- No word ends with a character that no word has. -/
theorem settled_append (hne : word ≠ []) (hw : ∀ c ∈ word, isPart c = false) :
    Settled (before ++ word) rest := by
  intro left hleft hword
  obtain ⟨front, last, rfl⟩ : ∃ front last, word = front ++ [last] :=
    ⟨_, _, (List.dropLast_append_getLast hne).symm⟩
  rw [← List.append_assoc] at hleft
  rcases List.suffix_concat_iff.1 hleft with rfl | ⟨_, rfl, -⟩
  · obtain ⟨c, part, heq, -⟩ := hword
    cases heq
  · have hpart := hword.isPart last (by simp)
    rw [hw last (by simp)] at hpart
    cases hpart

/-- No word begins in a run of digits, so one that ends with it went on before. -/
theorem Settled.digits (h : Settled before (word ++ rest)) (hne : word ≠ [])
    (hw : ∀ c ∈ word, Digit.isDigit c = true) : Settled (before ++ word) rest := by
  intro left hleft hword
  have hnot : ¬ left <:+ word := by
    intro hsuffix
    obtain ⟨c, part, rfl, hc, -⟩ := hword
    have hdigit := hw c (hsuffix.subset List.mem_cons_self)
    rw [isDigit_of_isStart hc] at hdigit
    cases hdigit
  rcases List.suffix_or_suffix_of_suffix hleft (List.suffix_append before word) with hs | hs
  · exact absurd hs hnot
  · obtain ⟨first, rfl⟩ := hs
    have hfirst : first ≠ [] := by
      rintro rfl
      exact hnot (List.suffix_refl word)
    obtain ⟨u, hu⟩ := hleft
    rw [← List.append_assoc] at hu
    have hnext := h first ⟨u, List.append_cancel_right hu⟩ (hword.of_append hfirst)
    obtain ⟨d, digits, rfl⟩ := List.exists_cons_of_ne_nil hne
    have hpart := hword.isPart d (by simp)
    rw [notNext_cons.1 hnext] at hpart
    cases hpart

/-- A word that the scan comes to and reads as far as it goes stands in no longer one. -/
theorem Settled.maximal (h : Settled before (word ++ rest)) (hword : IsWord word)
    (hrest : NotNext isPart rest) : Maximal before word rest := by
  refine ⟨hword, fun left right hleft hright hlonger => ⟨?_, ?_⟩⟩
  · by_contra hne
    have hnext := h left hleft (hlonger.of_append hne)
    obtain ⟨c, part, rfl, hc, -⟩ := hword
    have hpart := isPart_of_isStart hc
    rw [notNext_cons.1 hnext] at hpart
    cases hpart
  · cases right with
    | nil => rfl
    | cons d right =>
      obtain ⟨tail, rfl⟩ := hright
      have hpart := hlonger.isPart d (by simp)
      rw [notNext_cons.1 hrest] at hpart
      cases hpart

end Lexer

/-! ## Tokens -/

/-- A token is read from characters with these before and after them: a number from digits as far
as they go, no more than can be read, whose value it is; an operator and a delimiter from
themselves; a word from a word that stands in no longer one, a keyword if it is spelled like one and
otherwise a name. -/
def Lexeme.ReadFrom (before part after : List Char) : Lexeme → Prop
  | .int n => part ≠ [] ∧ (∀ c ∈ part, Digit.isDigit c = true) ∧ NotNext Digit.isDigit after ∧
      part.length ≤ Decimal.maxDigits ∧ n = Digit.number part
  | .operator c => part = [c] ∧ c ∈ ['+', '=']
  | .delimiter c => part = [c] ∧ c ∈ ['(', ')', '\x7b', '\x7d', ',', ';']
  | .keyword k => part = k.spelling ∧ Word.Maximal before part after
  | .identifier x => x = String.ofList part ∧ (∀ k : Keyword, part ≠ k.spelling) ∧
      Word.Maximal before part after

section

variable {before part after : List Char} {l : Lexeme}

theorem Lexeme.ReadFrom.ne_nil (h : l.ReadFrom before part after) : part ≠ [] := by
  rintro rfl
  cases l with
  | int n => exact h.1 rfl
  | operator c => cases h.1
  | delimiter c => cases h.1
  | keyword k => obtain ⟨-, ⟨c, part, heq, -⟩, -⟩ := h; cases heq
  | identifier x => obtain ⟨-, -, ⟨c, part, heq, -⟩, -⟩ := h; cases heq

/-- A token has no characters but those that one can start with. -/
theorem Lexeme.ReadFrom.starts (h : l.ReadFrom before part after) :
    ∀ c ∈ part, Grammar.starts c = true := by
  have hsymbols : ∀ d, d ∈ symbols → ∀ c ∈ [d], Grammar.starts c = true := by
    intro d hd c hc
    simpa [Grammar.starts, List.mem_singleton.1 hc] using .inr hd
  cases l with
  | int n => exact fun c hc => by simp [Grammar.starts, h.2.1 c hc]
  | operator d => exact h.1 ▸ hsymbols d (mem_symbols_iff.2 (.inl (decide_eq_true h.2)))
  | delimiter d => exact h.1 ▸ hsymbols d (mem_symbols_iff.2 (.inr (decide_eq_true h.2)))
  | keyword k => exact fun c hc => starts_of_isPart (h.2.1.isPart c hc)
  | identifier x => exact fun c hc => starts_of_isPart (h.2.2.1.isPart c hc)

/-- No word goes on with a digit where no word goes on. -/
theorem Word.Maximal.not_digit {u v : List Char} {c : Char} (h : Maximal before (u ++ c :: v) after)
    (hs : Lexer.Settled (before ++ u) (c :: v ++ after)) : Digit.isDigit c = false := by
  cases u with
  | nil =>
    obtain ⟨d, part, heq, hd, -⟩ := h.1
    cases heq
    exact isDigit_of_isStart hd
  | cons d u =>
    have hnext := hs _ (List.suffix_append before _) (h.1.of_append (List.cons_ne_nil d u))
    have hpart := h.1.isPart c (by simp)
    rw [List.cons_append, notNext_cons] at hnext
    rw [hnext] at hpart
    cases hpart

/-- From within a token, if no word goes on there, there are no more digits than can be read. -/
theorem Lexeme.ReadFrom.digits_length {u v digits back : List Char}
    (h : l.ReadFrom before (u ++ v) after) (hv : v ≠ [])
    (hs : Lexer.Settled (before ++ u) (v ++ after)) (heq : v ++ after = digits ++ back)
    (hdigits : ∀ c ∈ digits, Digit.isDigit c = true) : digits.length ≤ Decimal.maxDigits := by
  obtain ⟨c, v, rfl⟩ := List.exists_cons_of_ne_nil hv
  cases digits with
  | nil => exact Nat.zero_le _
  | cons d digits =>
    obtain ⟨rfl, -⟩ := List.cons.inj heq
    have hc : Digit.isDigit c = true := hdigits c List.mem_cons_self
    have hnot : Digit.isDigit c ≠ false := by simp [hc]
    have hsymbol : ∀ e, u ++ c :: v = [e] → e ∈ symbols → False := by
      intro e hpart he
      obtain rfl : c = e := List.mem_singleton.1 (hpart ▸ by simp)
      exact hnot (symbols_spec c he).1
    cases l with
    | int n =>
      obtain ⟨-, -, hafter, hshort, -⟩ := h
      rw [List.length_append] at hshort
      rcases List.append_eq_append_iff.1 heq with ⟨more, hmore, hback⟩ | ⟨more, hmore, -⟩
      · -- the digits would go on behind the token
        cases more with
        | nil =>
          rw [hmore, List.append_nil]
          exact Nat.le_trans (Nat.le_add_left _ _) hshort
        | cons e more =>
          have he := hdigits e (by rw [hmore]; simp)
          rw [hback, List.cons_append, notNext_cons] at hafter
          rw [hafter] at he
          cases he
      · have hlength := congrArg List.length hmore
        rw [List.length_append] at hlength
        omega
    | operator e => exact (hsymbol e h.1 (mem_symbols_iff.2 (.inl (decide_eq_true h.2)))).elim
    | delimiter e => exact (hsymbol e h.1 (mem_symbols_iff.2 (.inr (decide_eq_true h.2)))).elim
    | keyword k => exact absurd (h.2.not_digit hs) hnot
    | identifier x => exact absurd (h.2.2.not_digit hs) hnot

end

namespace Lexer

variable {before part rest cs : List Char} {c : Char} {l : Lexeme}

theorem readFrom_ofWord (h : Word.Maximal before part rest) :
    (ofWord part).ReadFrom before part rest := by
  unfold ofWord
  cases hk : Keyword.ofWord? part with
  | some k => exact ⟨ofWord?_eq_some.1 hk, h⟩
  | none =>
    refine ⟨rfl, fun k hpart => ?_, h⟩
    rw [ofWord?_eq_some.2 hpart] at hk
    cases hk

/-- What is read next is a token, and the rest of the text is settled again. -/
theorem readFrom_of_munch (hs : Settled before (c :: cs))
    (h : munch? c cs = some (.ok l, part, rest)) :
    l.ReadFrom before (c :: part) rest ∧ Settled (before ++ c :: part) rest := by
  have hsplit : c :: cs = (c :: part) ++ rest := by rw [List.cons_append, munch?_append h]
  rcases munch?_cases c cs with ⟨hd, hm⟩ | ⟨hw, hm⟩ | ⟨hc, hm⟩ | ⟨-, -, -, hm⟩ <;> rw [hm] at h
  · rw [Decimal.read] at h
    split at h
    · rename_i hshort
      cases h
      have hall : ∀ d ∈ c :: cs.takeWhile Digit.isDigit, Digit.isDigit d = true :=
        List.forall_mem_cons.2 ⟨hd, List.all_eq_true.1 List.all_takeWhile⟩
      exact ⟨⟨List.cons_ne_nil _ _, hall, notNext_dropWhile _ _, hshort, rfl⟩,
        (hsplit ▸ hs).digits (List.cons_ne_nil _ _) hall⟩
    · cases h
  · cases h
    have hnext := notNext_dropWhile Word.isPart cs
    have hword : Word.IsWord (c :: cs.takeWhile Word.isPart) :=
      ⟨c, _, rfl, hw, List.all_eq_true.1 List.all_takeWhile⟩
    exact ⟨readFrom_ofWord ((hsplit ▸ hs).maximal hword hnext), fun _ _ _ => hnext⟩
  · have hpart : ∀ d ∈ [c], Word.isPart d = false := by
      have h : symbols.all (fun d => !Word.isPart d) = true := by decide
      simpa using List.all_eq_true.1 h c hc
    rw [Lexeme.token] at h
    cases h
    refine ⟨?_, settled_append (List.cons_ne_nil _ _) hpart⟩
    split
    · rename_i hop
      exact ⟨rfl, by simpa [isOperator] using hop⟩
    · rename_i hop
      exact ⟨rfl, by simpa [isDelimiter] using (mem_symbols_iff.1 hc).resolve_left hop⟩
  · cases h

end Lexer
end Tama
