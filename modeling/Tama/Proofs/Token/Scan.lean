import Tama.Proofs.Text.Position
import Tama.Token.Lexer

/-!
# Scanning from the middle of a line

The token stream is made line by line, each without its comment. Here the scan is followed through
the text itself (`scanFrom`), from any place on a line: a line feed and a blank are passed over, so
is a comment, and at any other character a token is read or the scan fails (`scanFrom_cons`). A
token ends before the end of its line and before a comment, so it does not matter that the scan sees
no more than that.
-/

set_option autoImplicit false

namespace Tama.Lexer

open Grammar

/-! ## Comments -/

theorem stripComment_append {word : List Char} (hw : ∀ c ∈ word, c ≠ '#' ∧ c ≠ '/')
    (text : List Char) : stripComment (word ++ text) = word ++ stripComment text := by
  induction word with
  | nil => rfl
  | cons c word ih =>
    obtain ⟨hhash, hslash⟩ := hw c List.mem_cons_self
    simp [stripComment, hhash, hslash, ih fun d hd => hw d (List.mem_cons_of_mem c hd)]

theorem head?_stripComment (text : List Char) :
    ∀ c ∈ (stripComment text).head?, text.head? = some c := by
  intro c hc
  cases text with
  | nil => cases hc
  | cons d text =>
    unfold stripComment at hc
    split at hc
    · cases hc
    · exact hc

theorem stripComment_comment {body : List Char} (h : Comment body) : stripComment body = [] := by
  cases h <;> simp [stripComment]

theorem ne_of_isBlank {c : Char} (h : Blank.isBlank c = true) : c ≠ '#' ∧ c ≠ '/' := by
  constructor <;>
  · rintro rfl
    revert h
    decide

theorem ne_of_starts {c : Char} (h : starts c = true) : c ≠ '\n' ∧ c ≠ '#' ∧ c ≠ '/' :=
  ⟨Grammar.ne_of_starts h (by simp), Grammar.ne_of_starts h (by simp),
    Grammar.ne_of_starts h (by simp)⟩

/-! ## Single tokens -/

theorem munch?_starts {c : Char} {cs part rest : List Char} {l : Except DigitLimit Tama.Lexeme}
    (h : munch? c cs = some (l, part, rest)) : ∀ d ∈ part, starts d = true := by
  intro d hd
  unfold munch? at h
  split at h
  · cases h
    have hdigit : Digit.isDigit d = true := List.all_eq_true.1 List.all_takeWhile d hd
    simp [starts, hdigit]
  split at h
  · cases h
    cases hd
  split at h
  · cases h
    cases hd
  split at h
  · cases h
    exact starts_of_isPart (List.all_eq_true.1 List.all_takeWhile d hd)
  · cases h

theorem takeWhile_beginsAs {p : Char → Bool} {part left other : List Char}
    (hp : ∀ c, Blank.isGap c = true → p c = false) (ht : (part ++ left).takeWhile p = part)
    (hd : (part ++ left).dropWhile p = left) (hb : BeginsAs other left) :
    (part ++ other).takeWhile p = part ∧ (part ++ other).dropWhile p = other := by
  have hpart : ∀ c ∈ part, p c = true := by
    rw [← ht]
    exact List.all_eq_true.1 List.all_takeWhile
  have hleft : NotNext p left := by
    have hnext := notNext_dropWhile p (part ++ left)
    rwa [hd] at hnext
  have hother := hleft.beginsAs hb hp
  exact ⟨Grammar.takeWhile_append hpart hother, Grammar.dropWhile_append hpart hother⟩

/-- A token stays the same when what follows it is exchanged for a text that begins alike. -/
theorem munch?_beginsAs {c : Char} {part left other : List Char}
    {l : Except DigitLimit Tama.Lexeme} (h : munch? c (part ++ left) = some (l, part, left))
    (hb : BeginsAs other left) : munch? c (part ++ other) = some (l, part, other) := by
  unfold munch? at h ⊢
  split at h
  · rename_i hdigit
    obtain ⟨hl, hrest⟩ := Prod.mk.inj (Option.some.inj h)
    obtain ⟨ht, hd⟩ := Prod.mk.inj hrest
    obtain ⟨ht', hd'⟩ := takeWhile_beginsAs (fun _ => isDigit_of_isGap) ht hd hb
    rw [ht] at hl
    simp only [hdigit, if_true, ht', hd', hl]
  rename_i hdigit
  split at h
  · rename_i hop
    cases h
    simp [hdigit, hop]
  rename_i hop
  split at h
  · rename_i hdel
    cases h
    simp [hdigit, hop, hdel]
  rename_i hdel
  split at h
  · rename_i hstart
    obtain ⟨hl, hrest⟩ := Prod.mk.inj (Option.some.inj h)
    obtain ⟨ht, hd⟩ := Prod.mk.inj hrest
    obtain ⟨ht', hd'⟩ := takeWhile_beginsAs (fun _ => isPart_of_isGap) ht hd hb
    rw [ht] at hl
    simp only [hdigit, hop, hdel, hstart, ht', hd', hl]
    rfl
  · cases h

/-- Whether a token starts is told by one character. -/
theorem munch?_eq_none {c : Char} {cs : List Char} (h : munch? c cs = none) (other : List Char) :
    munch? c other = none := by
  unfold munch? at h ⊢
  split at h
  · cases h
  split at h
  · cases h
  split at h
  · cases h
  split at h
  · cases h
  · simp_all

/-! ## Scanning -/

/-- The tokens of a text that starts at a column of a line. -/
def scanFrom (filename : String) (line column : Nat) (text : List Char) :
    Except LexFailure (List Token) :=
  match Position.lines text with
  | [] => .ok []
  | first :: rest => do
    let tokens ← scanLine filename line column (stripComment first)
    return tokens ++ (← scanLines filename (line + 1) rest)

section

variable {filename : String} {line column : Nat} {c : Char} {cs text : List Char}

theorem tokenize_eq_scanFrom (source filename : String) :
    tokenize source filename = scanFrom filename 1 1 source.toList := by
  obtain ⟨first, rest, h⟩ := List.exists_cons_of_ne_nil (Position.lines_ne_nil source.toList)
  rw [tokenize, scanFrom, h]
  rfl

theorem scanFrom_of_lines {first : List Char} {rest : List (List Char)}
    (h : Position.lines text = first :: rest) :
    scanFrom filename line column text = (do
      let tokens ← scanLine filename line column (stripComment first)
      return tokens ++ (← scanLines filename (line + 1) rest)) := by
  rw [scanFrom, h]

@[simp] theorem scanLine_nil : scanLine filename line column [] = .ok [] := by
  unfold scanLine
  rfl

theorem scanLine_blank (h : Blank.isBlank c = true) (cs : List Char) :
    scanLine filename line column (c :: cs) = scanLine filename line (column + 1) cs := by
  rw [scanLine.eq_def]
  simp only [h, if_true]

theorem scanLine_cons (h : Blank.isBlank c = false) (cs : List Char) :
    scanLine filename line column (c :: cs) =
      match munch? c cs with
      | none => .error (.unknown c (spanOf filename line column [c]))
      | some (.error limit, _, _) => .error (.fault (.digits limit))
      | some (.ok lexeme, part, rest) => do
        let tokens ← scanLine filename line (column + (part.length + 1)) rest
        return ⟨lexeme, spanOf filename line column (c :: part)⟩ :: tokens := by
  rw [scanLine.eq_def]
  simp only [h, Bool.false_eq_true, if_false]
  split <;> rename_i hm <;> simp only [hm]

theorem scanFrom_nil : scanFrom filename line column [] = .ok [] := by
  rw [scanFrom_of_lines rfl, stripComment, scanLine_nil]
  rfl

theorem scanFrom_newline (text : List Char) :
    scanFrom filename line column ('\n' :: text) = scanFrom filename (line + 1) 1 text := by
  obtain ⟨first, rest, h⟩ := List.exists_cons_of_ne_nil (Position.lines_ne_nil text)
  rw [scanFrom_of_lines (Position.lines_newline text), scanFrom_of_lines h, h, stripComment,
    scanLine_nil, scanLines]
  cases scanLine filename (line + 1) 1 (stripComment first) with
  | error e => rfl
  | ok tokens => cases scanLines filename (line + 1 + 1) rest <;> rfl

theorem scanFrom_blank (hc : c ≠ '\n') (h : Blank.isBlank c = true) (text : List Char) :
    scanFrom filename line column (c :: text) = scanFrom filename line (column + 1) text := by
  obtain ⟨first, rest, htext, he⟩ := Position.lines_cons hc text
  obtain ⟨hhash, hslash⟩ := ne_of_isBlank h
  have hstrip : stripComment (c :: first) = c :: stripComment first := by
    simp [stripComment, hhash, hslash]
  rw [scanFrom_of_lines he, scanFrom_of_lines htext, hstrip, scanLine_blank h]

theorem scanFrom_comment {body : List Char} (h : Comment body) (ht : NotNext (· ≠ '\n') text) :
    scanFrom filename line column (body ++ text) = scanFrom filename line column text := by
  obtain ⟨rest, hrest⟩ := Position.lines_of_notNext ht
  obtain ⟨first, rest', htext, he⟩ := Position.lines_append h.not_mem_newline text
  cases hrest.symm.trans htext
  rw [scanFrom_of_lines he, scanFrom_of_lines htext, List.append_nil, stripComment_comment h]
  rfl

/-- At a character that is no blank and begins no comment a token is read, or the scan fails. -/
theorem scanFrom_cons (hblank : Blank.isBlank c = false) (hhash : c ≠ '#')
    (hslash : ¬ (c = '/' ∧ cs.head? = some '/')) :
    scanFrom filename line column (c :: cs) =
      match munch? c cs with
      | none => .error (.unknown c (spanOf filename line column [c]))
      | some (.error limit, _, _) => .error (.fault (.digits limit))
      | some (.ok lexeme, part, rest) => do
        let tokens ← scanFrom filename line (column + (part.length + 1)) rest
        return ⟨lexeme, spanOf filename line column (c :: part)⟩ :: tokens := by
  have hc : c ≠ '\n' := by
    rintro rfl
    cases hblank
  obtain ⟨first, rest, hcs, he⟩ := Position.lines_cons hc cs
  have hstrip : stripComment (c :: first) = c :: stripComment first := by
    rw [stripComment, if_neg]
    rintro (h | ⟨h, hfirst⟩)
    · exact hhash h
    · exact hslash ⟨h, Position.head?_of_lines hcs _ hfirst⟩
  rw [scanFrom_of_lines he, hstrip, scanLine_cons hblank]
  cases hm : munch? c cs with
  | none =>
    rw [munch?_eq_none hm]
    rfl
  | some token =>
    obtain ⟨l, part, left⟩ := token
    obtain rfl := munch?_append hm
    have hpart : ∀ d ∈ part, d ≠ '\n' ∧ d ≠ '#' ∧ d ≠ '/' :=
      fun d hd => ne_of_starts (munch?_starts hm d hd)
    obtain ⟨first', rest', hleft, he'⟩ :=
      Position.lines_append (fun h => (hpart _ h).1 rfl : '\n' ∉ part) left
    cases hcs.symm.trans he'
    have hbegins : BeginsAs (stripComment first') left := fun d hd =>
      .inl (Position.head?_of_lines hleft d (head?_stripComment first' d hd))
    rw [stripComment_append (fun d hd => (hpart d hd).2), munch?_beginsAs hm hbegins]
    cases l with
    | error limit => rfl
    | ok lexeme =>
      simp only [scanFrom_of_lines hleft]
      cases scanLine filename line (column + (part.length + 1)) (stripComment first') with
      | error e => rfl
      | ok tokens => cases scanLines filename (line + 1) rest <;> rfl

end

end Tama.Lexer
