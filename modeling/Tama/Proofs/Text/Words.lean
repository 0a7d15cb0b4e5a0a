import Tama.Proofs.Token.Munch
import Tama.Text.Quoted

/-!
# Words and numbers in a text

The words of a text are its stretches of letters, digits and underscores; everything else separates
them (`words_append_cons`). Quotes around a word leave it as it is (`Quoted.encode_of_isPart`), and
the decimal digits of a number are read as that number (`Digit.number_toDigits`).
-/

set_option autoImplicit false

namespace Tama

/-! ## Numbers -/

namespace Digit

theorem ascii_of_mem_toDigits {n : Nat} {c : Char} (h : c ∈ Nat.toDigits 10 n) :
    '0'.toNat ≤ c.toNat ∧ c.toNat ≤ '9'.toNat := by
  have hdigit := Nat.isDigit_of_mem_toDigits (by decide) (by decide) h
  rwa [Char.isDigit_iff_toNat] at hdigit

/-- The digits of a number are read as the number. -/
theorem number_toDigits (n : Nat) : number (Nat.toDigits 10 n) = n := by
  calc
    number (Nat.toDigits 10 n) = Nat.ofDigitChars 10 (Nat.toDigits 10 n) 0 := by
      rw [number, Nat.ofDigitChars_eq_foldl]
      refine List.foldl_ext _ _ _ fun a c hc => ?_
      obtain ⟨lo, hi⟩ := ascii_of_mem_toDigits hc
      rw [value?_ascii lo hi]
      rfl
    _ = n := Nat.ofDigitChars_ten_toDigits

end Digit

/-! ## Words -/

namespace Word

theorem isPart_range {c : Char} (h : isPart c = true) : 0x30 ≤ c.toNat ∧ c.toNat < 0x7F := by
  simp only [isPart, isStart, Bool.or_eq_true, Bool.and_eq_true, decide_eq_true_eq, Char.le_def,
    UInt32.le_iff_toNat_le] at h
  rcases h with ((⟨lo, hi⟩ | ⟨lo, hi⟩) | rfl) | ⟨lo, hi⟩
  · exact ⟨Nat.le_trans (by decide) lo, Nat.lt_of_le_of_lt hi (by decide)⟩
  · exact ⟨Nat.le_trans (by decide) lo, Nat.lt_of_le_of_lt hi (by decide)⟩
  · decide
  · exact ⟨lo, Nat.lt_of_le_of_lt hi (by decide)⟩

theorem isPart_of_mem_toDigits {n : Nat} {c : Char} (h : c ∈ Nat.toDigits 10 n) :
    isPart c = true := by
  obtain ⟨lo, hi⟩ := Digit.ascii_of_mem_toDigits h
  have hlo : '0' ≤ c := lo
  have hhi : c ≤ '9' := hi
  simp [isPart, hlo, hhi]

/-- The words of a text, from left to right. -/
def words (text : List Char) : List String :=
  ((text.splitOnP fun c => !isPart c).filter (!·.isEmpty)).map String.ofList

variable {word : List Char} {c : Char}

theorem words_nil : words [] = [] := by
  simp [words]

/-- No word goes on over a character that no word has. -/
theorem words_append_cons (hc : isPart c = false) (front text : List Char) :
    words (front ++ c :: text) = words front ++ words text := by
  simp [words, List.splitOnP_append_cons, hc]

theorem words_cons (hc : isPart c = false) (text : List Char) : words (c :: text) = words text :=
  words_append_cons hc [] text

theorem words_replicate_append (hc : isPart c = false) (n : Nat) (text : List Char) :
    words (List.replicate n c ++ text) = words text := by
  induction n with
  | zero => rfl
  | succ n ih => rw [List.replicate_succ, List.cons_append, words_cons hc, ih]

theorem words_of_isPart (hne : word ≠ []) (hw : ∀ c ∈ word, isPart c = true) :
    words word = [String.ofList word] := by
  rw [words, List.splitOnP_eq_singleton fun c hc => by simp [hw c hc]]
  simp [hne]

instance (word : List Char) : Decidable (IsWord word) :=
  decidable_of_iff ((word.head?.any isStart && word.tail.all isPart) = true) <| by
    cases word with
    | nil => simp [IsWord]
    | cons c part =>
      simp only [List.head?_cons, Option.any_some, List.tail_cons, Bool.and_eq_true,
        List.all_eq_true]
      exact ⟨fun h => ⟨c, part, rfl, h⟩, fun ⟨_, _, heq, h⟩ => by cases heq; exact h⟩

namespace IsWord

theorem ne_nil (h : IsWord word) : word ≠ [] := by
  obtain ⟨c, part, rfl, -⟩ := h
  exact List.cons_ne_nil c part

theorem not_mem (h : IsWord word) (hc : Word.isPart c = false) : c ∉ word := by
  intro hm
  rw [h.isPart c hm] at hc
  cases hc

theorem words_eq {x : String} (h : IsWord x.toList) : words x.toList = [x] := by
  rw [words_of_isPart h.ne_nil h.isPart, String.ofList_toList]

/-- A text that begins with a word does not begin with a character that no word has. -/
theorem notNext (h : IsWord word) {p : Char → Bool} (hp : ∀ c, Word.isPart c = true → p c = false)
    (rest : List Char) : Grammar.NotNext p (word ++ rest) := by
  obtain ⟨c, part, rfl, hc, -⟩ := h
  exact Grammar.notNext_cons.2 (hp c (isPart_of_isStart hc))

end IsWord

theorem toList_intercalate_cons_cons (x y : String) (rest : List String) :
    (", ".intercalate (x :: y :: rest)).toList =
      x.toList ++ ',' :: ' ' :: (", ".intercalate (y :: rest)).toList := by
  rw [String.intercalate_cons_cons]
  simp

variable {names : List String}

/-- A list of words is read as these words. -/
theorem words_intercalate (h : ∀ x ∈ names, IsWord x.toList) :
    words (", ".intercalate names).toList = names := by
  induction names with
  | nil => exact words_nil
  | cons x rest ih =>
    obtain ⟨hx, hrest⟩ := List.forall_mem_cons.1 h
    cases rest with
    | nil => rw [String.intercalate_singleton, hx.words_eq]
    | cons y rest =>
      rw [toList_intercalate_cons_cons, words_append_cons (by decide), words_cons (by decide),
        hx.words_eq, ih hrest, List.singleton_append]

theorem newline_not_mem_intercalate (h : ∀ x ∈ names, IsWord x.toList) :
    '\n' ∉ (", ".intercalate names).toList := by
  induction names with
  | nil => exact List.not_mem_nil
  | cons x rest ih =>
    obtain ⟨hx, hrest⟩ := List.forall_mem_cons.1 h
    have hno : '\n' ∉ x.toList := hx.not_mem (by decide)
    cases rest with
    | nil => rwa [String.intercalate_singleton]
    | cons y rest =>
      rw [toList_intercalate_cons_cons, List.mem_append, List.mem_cons, List.mem_cons]
      exact not_or.2 ⟨hno, not_or.2 ⟨by decide, not_or.2 ⟨by decide, ih hrest⟩⟩⟩

end Word

/-! ## Quotes -/

theorem Printable.isPrintable_of_isPart {c : Char} (h : Word.isPart c = true) :
    isPrintable c = true := by
  obtain ⟨lo, hi⟩ := Word.isPart_range h
  have hgaps : gaps.all (fun g => decide (g.2 < 0x30 ∨ 0x7F ≤ g.1)) = true := by decide +kernel
  rw [isPrintable, Bool.not_eq_true', List.any_eq_false]
  intro g hg
  have hout := of_decide_eq_true (List.all_eq_true.1 hgaps g hg)
  simp only [Bool.and_eq_true, decide_eq_true_eq]
  omega

namespace Quoted

open Word

variable {word : List Char}

theorem escape_of_isPart {c : Char} (h : isPart c = true) : escape '\'' c = [c] := by
  have hspecial : ['\'', '\\', '\n', '\r', '\t'].all (fun d => !isPart d) = true := by decide
  have hne : ∀ d ∈ ['\'', '\\', '\n', '\r', '\t'], c ≠ d := by
    rintro d hd rfl
    simpa [h] using List.all_eq_true.1 hspecial c hd
  simp only [List.forall_mem_cons] at hne
  simp [escape, hne, Printable.isPrintable_of_isPart h]

/-- A word stands between quotes as it is. -/
theorem encode_of_isPart (h : ∀ c ∈ word, isPart c = true) :
    encode word = '\'' :: (word ++ ['\'']) := by
  have hquote : quoteFor word = '\'' := by
    have hno : '\'' ∉ word := fun hm => by cases h _ hm
    simp [quoteFor, hno]
  have hflat : word.flatMap (escape '\'') = word := by
    rw [List.flatMap_congr (g := fun c => [c]) fun c hc => escape_of_isPart (h c hc)]
    simp
  simp only [encode, hquote, hflat, List.cons_append]

theorem toList_quote {x : String} (h : IsWord x.toList) :
    (quote x).toList = '\'' :: (x.toList ++ ['\'']) := by
  rw [quote, String.toList_ofList, encode_of_isPart h.isPart]

theorem words_quote {x : String} (h : IsWord x.toList) : words (quote x).toList = [x] := by
  rw [toList_quote h, words_cons (by decide), words_append_cons (by decide), h.words_eq, words_nil]
  rfl

end Quoted
end Tama
