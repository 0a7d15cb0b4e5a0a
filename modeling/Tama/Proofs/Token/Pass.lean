import Tama.Proofs.Token.Munch

/-!
# How the scan goes through a text

The scan goes from offset to offset of a text, over a blank, over a comment or over a token
(`Passes`), up to the end of the text or to where it cannot go on (`Ending`). It never comes into a
comment other than at its start, which is why no token stands in one: what stands on a line before
the scan begins no comment (`Clear`).
-/

set_option autoImplicit false

namespace Tama

open Grammar

namespace Lexer

/-! ## Comments -/

/-- The character at an offset lies in a comment: at or after a `#` or `//` of its line. -/
def Commented (text : List Char) (offset : Nat) : Prop :=
  ∃ before comment after, text = before ++ (comment ++ after) ∧ Comment comment ∧
    before.length ≤ offset ∧ offset < before.length + comment.length

/-- Before an offset nothing on its line begins a comment. -/
def Clear (text : List Char) (offset : Nat) : Prop :=
  ∀ c ∈ Position.lineBefore text offset, c ≠ '#' ∧ c ≠ '/'

section

variable {before word rest : List Char} {c : Char}

theorem Clear.newline (before rest : List Char) :
    Clear (before ++ '\n' :: rest) (before.length + 1) := by
  rw [Clear, Position.lineBefore_newline]
  exact List.forall_mem_nil _

theorem Clear.add (h : Clear (before ++ (word ++ rest)) before.length)
    (hw : ∀ c ∈ word, c ≠ '\n' ∧ c ≠ '#' ∧ c ≠ '/') :
    Clear (before ++ (word ++ rest)) (before.length + word.length) := by
  rw [Clear, Position.lineBefore_add before fun hm => (hw _ hm).1 rfl]
  exact List.forall_mem_append.2 ⟨h, fun c hc => (hw c hc).2⟩

theorem exists_head_of_comment {comment : List Char} (h : Comment comment) :
    ∃ d tail, comment = d :: tail ∧ (d = '#' ∨ d = '/' ∧ tail.head? = some '/') := by
  cases h with
  | hash _ => exact ⟨_, _, rfl, .inl rfl⟩
  | slashes _ => exact ⟨_, _, rfl, .inr ⟨rfl, rfl⟩⟩

/-- Where the line is clear, a character lies in a comment only if one begins there. -/
theorem Clear.not_commented (h : Clear (before ++ c :: rest) before.length) (hhash : c ≠ '#')
    (hslash : ¬ (c = '/' ∧ rest.head? = some '/')) :
    ¬ Commented (before ++ c :: rest) before.length := by
  rintro ⟨front, comment, after, heq, hcomment, hle, hlt⟩
  obtain ⟨between, rfl⟩ : front <+: before :=
    List.prefix_of_prefix_length_le (List.prefix_append front _) (heq ▸ List.prefix_append before _)
      hle
  rw [List.append_assoc] at heq h
  have hrest : between ++ c :: rest = comment ++ after := List.append_cancel_left heq
  obtain ⟨d, tail, rfl, hmark⟩ := exists_head_of_comment hcomment
  cases between with
  | nil =>
    -- the comment begins with the character
    obtain ⟨rfl, rfl⟩ := List.cons.inj hrest
    refine hmark.elim hhash fun ⟨hd, htail⟩ => hslash ⟨hd, ?_⟩
    exact (List.head?_append ..).trans (by rw [htail]; rfl)
  | cons e between =>
    -- the comment begins before it on the same line, which is clear
    obtain ⟨rfl, -⟩ := List.cons.inj hrest
    have hinside : e :: between <+: e :: tail := by
      refine List.prefix_of_prefix_length_le (hrest ▸ List.prefix_append (e :: between) _)
        (List.prefix_append (e :: tail) after) ?_
      rw [List.length_append] at hlt
      omega
    have hline : '\n' ∉ e :: between := fun hm => hcomment.not_mem_newline (hinside.subset hm)
    have hclear := h e (by
      rw [List.length_append, Position.lineBefore_add front hline]
      simp)
    exact hmark.elim hclear.1 fun hd => hclear.2 hd.1

/-- Where the line is clear, characters that begin no comment lie in none. -/
theorem Clear.not_commented_of_mem (h : Clear (before ++ (word ++ rest)) before.length)
    (hw : ∀ c ∈ word, c ≠ '\n' ∧ c ≠ '#' ∧ c ≠ '/') {i : Nat} (hle : before.length ≤ i)
    (hlt : i < before.length + word.length) : ¬ Commented (before ++ (word ++ rest)) i := by
  obtain ⟨k, rfl⟩ := Nat.exists_eq_add_of_le hle
  have hk : k < word.length := by omega
  obtain ⟨hword, hlength⟩ := Position.eq_append_cons (List.getElem?_eq_getElem hk)
  generalize word[k] = d at hword
  generalize word.take k = u, word.drop (k + 1) = v at hword hlength
  subst hword hlength
  obtain ⟨hu, hd⟩ := List.forall_mem_append.1 hw
  rw [List.append_assoc] at h
  have hclear : Clear (before ++ (u ++ (d :: v ++ rest))) (before.length + u.length) := h.add hu
  rw [← List.append_assoc, ← List.length_append] at hclear
  have hdd := hd d List.mem_cons_self
  have hnot := Clear.not_commented hclear hdd.2.1 fun hs => hdd.2.2 hs.1
  rw [List.length_append] at hnot
  simpa using hnot

end

end Lexer

/-! ## Passes -/

/-- A token stands in a text between what is before and what is after it. -/
structure Token.Stands (filename : String) (text before part after : List Char) (t : Token) :
    Prop where
  text_eq : text = before ++ (part ++ after)
  span_eq : t.span = Lexer.spanOf filename (Position.line text before.length)
    (Position.column text before.length) part
  read : t.lexeme.ReadFrom before part after

namespace Lexer

/-- `Passes filename text n tokens m`: the scan goes from the offset `n` to the offset `m` and reads
these tokens. -/
inductive Passes (filename : String) (text : List Char) : Nat → List Token → Nat → Prop
  | done (n : Nat) : Passes filename text n [] n
  | blank {n m : Nat} {c : Char} {tokens : List Token} : text[n]? = some c →
      Blank.isBlank c = true → Passes filename text (n + 1) tokens m →
      Passes filename text n tokens m
  | comment {n k m : Nat} {tokens : List Token} : n < k → k ≤ text.length →
      (∀ i, n ≤ i → i < k → Commented text i) → Passes filename text k tokens m →
      Passes filename text n tokens m
  | token {before part after : List Char} {m : Nat} {t : Token} {tokens : List Token} :
      t.Stands filename text before part after →
      (∀ i, before.length ≤ i → i < before.length + part.length → ¬ Commented text i) →
      Passes filename text (before.length + part.length) tokens m →
      Passes filename text before.length (t :: tokens) m

/-- The character at an offset is unknown: it stands outside comments and is no blank, no digit, no
letter or underscore, and no symbol. -/
structure UnknownAt (text : List Char) (offset : Nat) (c : Char) : Prop where
  get : text[offset]? = some c
  not_commented : ¬ Commented text offset
  not_blank : Blank.isBlank c = false
  not_digit : Digit.isDigit c = false
  not_start : Word.isStart c = false
  not_symbol : c ∉ symbols

/-- From an offset of a text on stand so many digits, as far as they go, and they are too many to be
read. They stand outside comments, and no word goes on with them. -/
structure LongLiteralAt (text : List Char) (offset n : Nat) : Prop where
  not_commented : ¬ Commented text offset
  too_long : Decimal.maxDigits < n
  stands : ∃ before digits after, text = before ++ (digits ++ after) ∧ before.length = offset ∧
    digits.length = n ∧ (∀ c ∈ digits, Digit.isDigit c = true) ∧ NotNext Digit.isDigit after ∧
    Settled before (digits ++ after)

/-- How a scan ends that has come to an offset and read these tokens on its way. -/
inductive Ending (filename : String) (text : List Char) (n : Nat) (tokens : List Token) :
    Except LexFailure (List Token) → Prop
  | done : n = text.length → Ending filename text n tokens (.ok tokens)
  | unknown {c : Char} : UnknownAt text n c → Ending filename text n tokens
      (.error (.unknown c (spanOf filename (Position.line text n) (Position.column text n) [c])))
  | tooLong {digits : Nat} : LongLiteralAt text n digits →
      Ending filename text n tokens (.error (.fault (.digits (.reading digits))))

variable {filename : String} {text before part rest cs : List Char} {n : Nat} {c : Char}

theorem Ending.cons {tokens : List Token} {x : Except LexFailure (List Token)} (t : Token)
    (h : Ending filename text n tokens x) :
    Ending filename text n (t :: tokens) (do
      let others ← x
      return t :: others) := by
  cases h with
  | done hn => exact .done hn
  | unknown hc => exact .unknown hc
  | tooLong hd => exact .tooLong hd

/-! ## The scan -/

/-- The scan has come to a place in a text. -/
structure Reached (text before rest : List Char) : Prop where
  text_eq : text = before ++ rest
  clear : Clear text before.length
  settled : Settled before rest

/-- The scan of the rest of a text goes through it and ends as said. -/
def Scanned (filename : String) (text before rest : List Char) : Prop :=
  ∃ tokens m, Passes filename text before.length tokens m ∧
    Ending filename text m tokens (scanFrom filename (Position.line text before.length)
      (Position.column text before.length) rest)

theorem reached_start (text : List Char) : Reached text [] text :=
  ⟨rfl, List.forall_mem_nil _, settled_nil text⟩

/-- Over characters of one line that begin no comment the scan comes to the next place. -/
theorem Reached.add (h : Reached text before (part ++ rest))
    (hpart : ∀ c ∈ part, c ≠ '\n' ∧ c ≠ '#' ∧ c ≠ '/') (hs : Settled (before ++ part) rest) :
    Reached text (before ++ part) rest ∧
      Position.line text (before ++ part).length = Position.line text before.length ∧
      Position.column text (before ++ part).length =
        Position.column text before.length + part.length := by
  obtain ⟨rfl, hclear, -⟩ := h
  have hline : '\n' ∉ part := fun hm => (hpart _ hm).1 rfl
  rw [List.length_append]
  exact ⟨⟨(List.append_assoc ..).symm, by
    rw [List.length_append]
    exact hclear.add hpart, hs⟩, Position.line_add before hline rest,
    Position.column_add before hline rest⟩

/-- Over a line feed the scan comes to the next line, wherever it has been on the last one. -/
theorem reached_newline (h : text = before ++ '\n' :: rest) :
    Reached text (before ++ ['\n']) rest ∧
      Position.line text (before ++ ['\n']).length = Position.line text before.length + 1 ∧
      Position.column text (before ++ ['\n']).length = 1 := by
  subst h
  have hlength : (before ++ ['\n']).length = before.length + 1 := List.length_append
  rw [hlength]
  refine ⟨⟨(List.append_assoc before ['\n'] rest).symm, ?_, ?_⟩, Position.line_newline before rest,
    Position.column_newline before rest⟩
  · rw [hlength]
    exact Clear.newline before rest
  · exact settled_append (List.cons_ne_nil _ _) (List.forall_mem_singleton.2 rfl)

theorem getElem?_of_eq (h : text = before ++ c :: rest) : text[before.length]? = some c := by
  rw [h]
  simp

theorem scanned_newline (h : text = before ++ '\n' :: rest)
    (hnext : Scanned filename text (before ++ ['\n']) rest) :
    Scanned filename text before ('\n' :: rest) := by
  obtain ⟨-, hline, hcolumn⟩ := reached_newline h
  obtain ⟨tokens, m, hp, he⟩ := hnext
  rw [hline, hcolumn] at he
  rw [List.length_append] at hp
  refine ⟨tokens, m, .blank (getElem?_of_eq h) rfl hp, ?_⟩
  rw [scanFrom_newline]
  exact he

theorem scanned_blank (h : Reached text before (c :: rest)) (hc : c ≠ '\n')
    (hblank : Blank.isBlank c = true)
    (hnext : Reached text (before ++ [c]) rest → Scanned filename text (before ++ [c]) rest) :
    Scanned filename text before (c :: rest) := by
  have hpart : Word.isPart c = false := by
    cases hp : Word.isPart c with
    | false => rfl
    | true =>
      rw [isBlank_of_starts (starts_of_isPart hp)] at hblank
      cases hblank
  have hone : ∀ d ∈ [c], d ≠ '\n' ∧ d ≠ '#' ∧ d ≠ '/' := by
    simpa using ⟨hc, ne_of_isBlank hblank⟩
  obtain ⟨hreached, hline, hcolumn⟩ := h.add hone
    (settled_append (List.cons_ne_nil _ _) (by simpa using hpart))
  obtain ⟨tokens, m, hp, he⟩ := hnext hreached
  rw [hline, hcolumn] at he
  rw [List.length_append] at hp
  refine ⟨tokens, m, .blank (getElem?_of_eq h.text_eq) hblank hp, ?_⟩
  rw [scanFrom_blank hc hblank]
  exact he

theorem scanned_comment {body : List Char} (hb : Comment body) (hr : NotNext (· ≠ '\n') rest)
    (h : text = before ++ (body ++ rest))
    (hnext : ∀ tail, rest = '\n' :: tail →
      Scanned filename text (before ++ body) ('\n' :: tail)) :
    Scanned filename text before (body ++ rest) := by
  have hpos : before.length < (before ++ body).length := by
    cases hb <;> simp
  have hle : (before ++ body).length ≤ text.length := by
    rw [h]
    simp
  have hcommented : ∀ i, before.length ≤ i → i < (before ++ body).length → Commented text i := by
    intro i hle hlt
    rw [List.length_append] at hlt
    exact ⟨before, body, rest, h, hb, hle, hlt⟩
  unfold Scanned
  rw [scanFrom_comment hb hr]
  cases rest with
  | nil =>
    have hend : (before ++ body).length = text.length := by
      rw [h, List.append_nil]
    exact ⟨[], _, .comment hpos hle hcommented (.done _), by rw [scanFrom_nil]; exact .done hend⟩
  | cons c tail =>
    obtain rfl : c = '\n' := by simpa using notNext_cons.1 hr
    obtain ⟨tokens, m, hp, he⟩ := hnext tail rfl
    refine ⟨tokens, m, .comment hpos hle hcommented hp, ?_⟩
    have hline : Position.line text (before ++ body).length = Position.line text before.length := by
      rw [h, List.length_append]
      exact Position.line_add before hb.not_mem_newline _
    rw [scanFrom_newline, hline] at he
    rw [scanFrom_newline]
    exact he

/-- Where no token starts stands an unknown character. -/
theorem unknownAt_of_munch (h : text = before ++ c :: cs) (hn : ¬ Commented text before.length)
    (hblank : Blank.isBlank c = false) (hm : munch? c cs = none) :
    UnknownAt text before.length c := by
  rcases munch?_cases c cs with ⟨-, h'⟩ | ⟨-, h'⟩ | ⟨-, h'⟩ | ⟨hd, hs, hc, -⟩
  · cases hm.symm.trans h'
  · cases hm.symm.trans h'
  · cases hm.symm.trans h'
  · exact ⟨getElem?_of_eq h, hn, hblank, hd, hs, hc⟩

/-- Only a literal cannot be read, and only for its many digits. -/
theorem longLiteralAt_of_munch {limit : DigitLimit} (h : Reached text before (c :: cs))
    (hn : ¬ Commented text before.length)
    (hm : munch? c cs = some (.error limit, part, rest)) :
    ∃ digits, limit = .reading digits ∧ LongLiteralAt text before.length digits := by
  rcases munch?_cases c cs with ⟨hd, h'⟩ | ⟨-, h'⟩ | ⟨-, h'⟩ | ⟨-, -, -, h'⟩ <;> rw [h'] at hm
  · rw [Decimal.read] at hm
    split at hm
    · cases hm
    · rename_i hlong
      cases hm
      have hsplit : c :: cs = (c :: cs.takeWhile Digit.isDigit) ++ cs.dropWhile Digit.isDigit := by
        rw [List.cons_append, List.takeWhile_append_dropWhile]
      exact ⟨_, rfl, hn, Nat.not_le.1 hlong, before, _, _, hsplit ▸ h.text_eq, rfl, rfl,
        List.forall_mem_cons.2 ⟨hd, List.all_eq_true.1 List.all_takeWhile⟩,
        notNext_dropWhile _ _, hsplit ▸ h.settled⟩
  · cases hm
  · cases hm
  · cases hm

/-- At a character that is no blank and begins no comment a token is read, or the scan ends. -/
theorem scanned_cons (h : Reached text before (c :: cs)) (hblank : Blank.isBlank c = false)
    (hhash : c ≠ '#') (hslash : ¬ (c = '/' ∧ cs.head? = some '/'))
    (hnext : ∀ part rest, part ++ rest = cs → Reached text (before ++ c :: part) rest →
      Scanned filename text (before ++ c :: part) rest) :
    Scanned filename text before (c :: cs) := by
  have hn : ¬ Commented text before.length := by
    have htext := h.text_eq
    subst htext
    exact h.clear.not_commented hhash hslash
  unfold Scanned
  rw [scanFrom_cons hblank hhash hslash]
  split
  · rename_i hm
    exact ⟨[], _, .done _, .unknown (unknownAt_of_munch h.text_eq hn hblank hm)⟩
  · rename_i limit part rest hm
    obtain ⟨digits, rfl, hlong⟩ := longLiteralAt_of_munch h hn hm
    exact ⟨[], _, .done _, .tooLong hlong⟩
  · rename_i l part rest hm
    obtain rfl := munch?_append hm
    obtain ⟨hread, hsettled⟩ := readFrom_of_munch h.settled hm
    have hpart : ∀ d ∈ c :: part, d ≠ '\n' ∧ d ≠ '#' ∧ d ≠ '/' :=
      fun d hd => ne_of_starts (hread.starts d hd)
    obtain ⟨hreached, hline, hcolumn⟩ := Reached.add h hpart hsettled
    obtain ⟨tokens, m, hp, he⟩ := hnext part rest rfl hreached
    rw [hline, hcolumn] at he
    rw [List.length_append] at hp
    refine ⟨_, m, .token ⟨h.text_eq, rfl, hread⟩ (fun i => ?_) hp, he.cons _⟩
    obtain ⟨rfl, hclear, -⟩ := h
    exact Clear.not_commented_of_mem hclear hpart

/-- From any place that it comes to, the scan goes on through the text to its end. -/
theorem Reached.scanned : ∀ {before rest : List Char}, Reached text before rest →
    Scanned filename text before rest
  | before, [], h => by
    have hend : before.length = text.length := by rw [h.text_eq, List.append_nil]
    exact ⟨[], _, .done _, by rw [scanFrom_nil]; exact .done hend⟩
  | before, c :: cs, h => by
    by_cases hn : c = '\n'
    · subst hn
      exact scanned_newline h.text_eq (reached_newline h.text_eq).1.scanned
    by_cases hblank : Blank.isBlank c = true
    · exact scanned_blank h hn hblank fun hnext => hnext.scanned
    by_cases hcomment : c = '#' ∨ c = '/' ∧ cs.head? = some '/'
    · obtain ⟨body, rest, hrest, hb, hr⟩ := exists_comment hcomment
      have htext : text = before ++ (body ++ rest) := hrest ▸ h.text_eq
      rw [hrest]
      refine scanned_comment hb hr htext fun tail htail => ?_
      have hline : text = (before ++ body) ++ '\n' :: tail := by
        rw [htext, htail, List.append_assoc]
      have hlt : tail.length < (c :: cs).length := by
        rw [hrest, htail, List.length_append, List.length_cons]
        omega
      exact scanned_newline hline (reached_newline hline).1.scanned
    · obtain ⟨hhash, hslash⟩ := not_or.1 hcomment
      refine scanned_cons h (by simpa using hblank) hhash hslash fun part rest hcs hnext => ?_
      have hlt : rest.length < (c :: cs).length := by
        rw [← hcs, List.length_cons, List.length_append]
        omega
      exact hnext.scanned
termination_by _ rest => rest.length
decreasing_by all_goals first | assumption | exact Nat.lt_succ_self _

end Lexer
end Tama
