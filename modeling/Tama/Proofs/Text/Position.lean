import Tama.Proofs.Grammar.Lexing
import Tama.Text.Position

/-!
# Lines and columns

How the lines of a text, and the line and column of an offset, follow from what the text is made of.
Going on over characters of one line moves the column (`column_add`), a line feed begins the next
line (`line_newline`). So places stand in the order of their offsets (`place_lt`), and a line holds
the characters of its offsets at their columns (`exists_line_at`).
-/

set_option autoImplicit false

namespace Tama.Position

/-! ## Lines -/

theorem lines_newline (text : List Char) : lines ('\n' :: text) = [] :: lines text := by
  obtain ⟨first, rest, h⟩ := List.exists_cons_of_ne_nil (lines_ne_nil text)
  simp [lines, h]

theorem lines_cons {c : Char} (hc : c ≠ '\n') (text : List Char) :
    ∃ first rest, lines text = first :: rest ∧ lines (c :: text) = (c :: first) :: rest := by
  obtain ⟨first, rest, h⟩ := List.exists_cons_of_ne_nil (lines_ne_nil text)
  exact ⟨first, rest, h, by simp [lines, h, hc]⟩

theorem lines_append {word : List Char} (hw : '\n' ∉ word) (text : List Char) :
    ∃ first rest, lines text = first :: rest ∧ lines (word ++ text) = (word ++ first) :: rest := by
  induction word with
  | nil =>
    obtain ⟨first, rest, h⟩ := List.exists_cons_of_ne_nil (lines_ne_nil text)
    exact ⟨first, rest, h, h⟩
  | cons c word ih =>
    obtain ⟨hc, hw⟩ : '\n' ≠ c ∧ '\n' ∉ word := by simpa using hw
    obtain ⟨first, rest, htext, h⟩ := ih hw
    obtain ⟨line, others, hword, he⟩ := lines_cons (Ne.symm hc) (word ++ text)
    cases h.symm.trans hword
    exact ⟨first, rest, htext, he⟩

theorem head?_of_lines {text first : List Char} {rest : List (List Char)}
    (h : lines text = first :: rest) : ∀ c ∈ first.head?, text.head? = some c := by
  intro c hc
  cases text with
  | nil =>
    cases h
    cases hc
  | cons d text =>
    by_cases hd : d = '\n'
    · subst hd
      rw [lines_newline] at h
      cases h
      cases hc
    · obtain ⟨first', rest', -, he⟩ := lines_cons hd text
      cases h.symm.trans he
      exact hc

theorem lines_of_notNext {text : List Char} (h : Grammar.NotNext (· ≠ '\n') text) :
    ∃ rest, lines text = [] :: rest := by
  cases text with
  | nil => exact ⟨[], rfl⟩
  | cons c text =>
    obtain rfl : c = '\n' := by simpa using Grammar.notNext_cons.1 h
    exact ⟨_, lines_newline text⟩

theorem lines_append_newline (text more : List Char) :
    lines (text ++ '\n' :: more) = lines text ++ lines more := by
  induction text with
  | nil => exact lines_newline more
  | cons c text ih =>
    by_cases hc : c = '\n'
    · subst hc
      rw [List.cons_append, lines_newline, lines_newline, ih, List.cons_append]
    · obtain ⟨first, rest, htext, h⟩ := lines_cons hc text
      obtain ⟨first', rest', htext', h'⟩ := lines_cons hc (text ++ '\n' :: more)
      rw [ih, htext, List.cons_append] at htext'
      obtain ⟨rfl, rfl⟩ := List.cons.inj htext'
      rw [List.cons_append, h', h, List.cons_append]

/-! ## The line of an offset -/

/-- The text before an offset: whole lines, and the part of its own line. -/
theorem exists_before (text : List Char) (offset : Nat) :
    ∃ before, text.take offset = before ++ lineBefore text offset ∧
      '\n' ∉ lineBefore text offset ∧ (before = [] ∨ ∃ whole, before = whole ++ ['\n']) := by
  have hsplit := List.takeWhile_append_dropWhile (p := (· ≠ '\n')) (l := (text.take offset).reverse)
  refine ⟨((text.take offset).reverse.dropWhile (· ≠ '\n')).reverse, ?_, fun h => ?_, ?_⟩
  · rw [lineBefore, ← List.reverse_append, hsplit, List.reverse_reverse]
  · have := List.all_eq_true.1 List.all_takeWhile _ (List.mem_reverse.1 h)
    simp at this
  · have hnext := Grammar.notNext_dropWhile (· ≠ '\n') (text.take offset).reverse
    generalize (text.take offset).reverse.dropWhile (· ≠ '\n') = after at hnext
    cases after with
    | nil => exact .inl rfl
    | cons c after =>
      obtain rfl : c = '\n' := by simpa using Grammar.notNext_cons.1 hnext
      exact .inr ⟨after.reverse, by simp⟩

/-- After whole lines a text goes on with a line of its own. -/
theorem lines_at {before word tail : List Char}
    (hbefore : before = [] ∨ ∃ whole, before = whole ++ ['\n']) (hword : '\n' ∉ word)
    (htail : Grammar.NotNext (· ≠ '\n') tail) :
    (lines (before ++ (word ++ tail)))[before.count '\n']? = some word := by
  obtain ⟨first, rest, hfirst, hlines⟩ := lines_append hword tail
  obtain ⟨others, hend⟩ := lines_of_notNext htail
  obtain ⟨rfl, rfl⟩ := List.cons.inj (hend.symm.trans hfirst)
  rw [List.append_nil] at hlines
  rcases hbefore with rfl | ⟨whole, rfl⟩
  · rw [List.nil_append, hlines]
    rfl
  · have hlength := length_lines whole
    rw [List.append_assoc, List.singleton_append, lines_append_newline, hlines,
      List.getElem?_append_right (by simp [hlength])]
    simp [hlength]

/-! ## Going on from an offset -/

section

variable {word : List Char}

theorem line_append (before rest : List Char) :
    line (before ++ rest) before.length = before.count '\n' + 1 := by
  rw [line, List.take_left]

theorem column_append (before rest : List Char) :
    column (before ++ rest) before.length =
      (lineBefore (before ++ rest) before.length).length + 1 := by
  rw [column, List.length_append, Nat.sub_eq_zero_of_le (Nat.le_add_right ..), Nat.add_zero]

theorem lineBefore_append (before rest : List Char) :
    lineBefore (before ++ rest) before.length =
      (before.reverse.takeWhile (· ≠ '\n')).reverse := by
  rw [lineBefore, List.take_left]

theorem lineBefore_add (before : List Char) (hw : '\n' ∉ word) (rest : List Char) :
    lineBefore (before ++ (word ++ rest)) (before.length + word.length) =
      lineBefore (before ++ (word ++ rest)) before.length ++ word := by
  have hword : ∀ c ∈ word.reverse, decide (c ≠ '\n') = true := by
    intro c hc
    simpa using fun h : c = '\n' => hw (h ▸ List.mem_reverse.1 hc)
  rw [lineBefore_append, ← List.append_assoc, ← List.length_append, lineBefore_append,
    List.reverse_append, List.takeWhile_append_of_pos hword, List.reverse_append,
    List.reverse_reverse]

theorem line_add (before : List Char) (hw : '\n' ∉ word) (rest : List Char) :
    line (before ++ (word ++ rest)) (before.length + word.length) =
      line (before ++ (word ++ rest)) before.length := by
  rw [line_append, ← List.append_assoc, ← List.length_append, line_append, List.count_append,
    List.count_eq_zero_of_not_mem hw, Nat.add_zero]

/-- On a line the column counts the characters. -/
theorem column_add (before : List Char) (hw : '\n' ∉ word) (rest : List Char) :
    column (before ++ (word ++ rest)) (before.length + word.length) =
      column (before ++ (word ++ rest)) before.length + word.length := by
  have hcolumn := column_append (before ++ word) rest
  rw [List.append_assoc, List.length_append, lineBefore_add before hw] at hcolumn
  rw [hcolumn, column_append, List.length_append]
  omega

theorem lineBefore_newline (before rest : List Char) :
    lineBefore (before ++ '\n' :: rest) (before.length + 1) = [] := by
  have h := lineBefore_append (before ++ ['\n']) rest
  rw [List.append_assoc, List.length_append] at h
  exact h.trans (by simp)

theorem line_newline (before rest : List Char) :
    line (before ++ '\n' :: rest) (before.length + 1) =
      line (before ++ '\n' :: rest) before.length + 1 := by
  have h := line_append (before ++ ['\n']) rest
  rw [List.append_assoc, List.length_append] at h
  rw [line_append]
  exact h.trans (by simp)

theorem column_newline (before rest : List Char) :
    column (before ++ '\n' :: rest) (before.length + 1) = 1 := by
  have h := column_append (before ++ ['\n']) rest
  rw [List.append_assoc, List.length_append] at h
  exact h.trans (by rw [show before.length + ['\n'].length = before.length + 1 from rfl,
    List.singleton_append, lineBefore_newline]; rfl)

theorem lineBefore_behind_line (front before rest : List Char) :
    lineBefore ((front ++ '\n' :: before) ++ rest) (front ++ '\n' :: before).length =
      lineBefore (before ++ rest) before.length := by
  rw [lineBefore_append, lineBefore_append, List.reverse_append, List.reverse_cons,
    List.append_assoc, List.singleton_append,
    Grammar.takeWhile_append_notNext (Grammar.notNext_cons.2 (by decide))]

/-- Behind whole lines an offset is as many lines further down, at the same column. -/
theorem place_behind_line (front before rest : List Char) :
    line ((front ++ '\n' :: before) ++ rest) (front ++ '\n' :: before).length =
        front.count '\n' + 1 + line (before ++ rest) before.length ∧
      column ((front ++ '\n' :: before) ++ rest) (front ++ '\n' :: before).length =
        column (before ++ rest) before.length := by
  constructor
  · rw [line_append, line_append, List.count_append, List.count_cons_self]
    omega
  · rw [column_append, column_append, lineBefore_behind_line]

/-- The line of an offset, counted from one, is what stands on it before and after the offset. -/
theorem lines_lineText (before rest : List Char) :
    (lines (before ++ rest))[line (before ++ rest) before.length - 1]? =
      some (lineText (before ++ rest) before.length) := by
  obtain ⟨whole, htake, hown, hwhole⟩ := exists_before (before ++ rest) before.length
  rw [List.take_left] at htake
  have hline : line (before ++ rest) before.length - 1 = whole.count '\n' := by
    rw [line_append, htake, List.count_append, List.count_eq_zero_of_not_mem hown]
    rfl
  have hafter : lineAfter (before ++ rest) before.length = rest.takeWhile (· ≠ '\n') := by
    rw [lineAfter, List.drop_left]
  rw [lineText, hafter, hline]
  generalize lineBefore (before ++ rest) before.length = own at htake hown
  have hword : '\n' ∉ own ++ rest.takeWhile (· ≠ '\n') := by
    rw [List.mem_append]
    refine not_or.2 ⟨hown, fun h => ?_⟩
    simpa using List.all_eq_true.1 List.all_takeWhile _ h
  have h := lines_at hwhole hword (Grammar.notNext_dropWhile (· ≠ '\n') rest)
  rwa [List.append_assoc, List.takeWhile_append_dropWhile, ← List.append_assoc, ← htake] at h

/-- A line holds what stands on it behind an offset, at the column of the offset. -/
theorem exists_line_at (before : List Char) (hw : '\n' ∉ word) (rest : List Char) : ∃ after,
    (lines (before ++ (word ++ rest)))[line (before ++ (word ++ rest)) before.length - 1]? =
      some (lineBefore (before ++ (word ++ rest)) before.length ++ (word ++ after)) := by
  have hword : ∀ c ∈ word, decide (c ≠ '\n') = true := by
    intro c hc
    simpa using fun h : c = '\n' => hw (h ▸ hc)
  refine ⟨rest.takeWhile (· ≠ '\n'), ?_⟩
  rw [lines_lineText, lineText, lineAfter, List.drop_left, List.takeWhile_append_of_pos hword]

end

/-! ## Places -/

/-- A text goes on after an offset with the character there. -/
theorem eq_append_cons {α : Type} {text : List α} {offset : Nat} {c : α}
    (h : text[offset]? = some c) :
    text = text.take offset ++ c :: text.drop (offset + 1) ∧
      (text.take offset).length = offset := by
  obtain ⟨hlt, rfl⟩ := List.getElem?_eq_some_iff.1 h
  rw [← List.drop_eq_getElem_cons hlt, List.take_append_drop, List.length_take]
  exact ⟨rfl, Nat.min_eq_left (Nat.le_of_lt hlt)⟩

theorem place_succ {text : List Char} {offset : Nat} (h : offset < text.length) :
    line text offset < line text (offset + 1) ∨
      line text (offset + 1) = line text offset ∧
      column text (offset + 1) = column text offset + 1 := by
  obtain ⟨htext, hlength⟩ := eq_append_cons (List.getElem?_eq_getElem h)
  generalize text[offset] = c at htext
  generalize text.take offset = before, text.drop (offset + 1) = rest at htext hlength
  subst htext hlength
  by_cases hc : c = '\n'
  · subst hc
    exact .inl (by rw [line_newline]; exact Nat.lt_succ_self _)
  · have hw : '\n' ∉ [c] := by simpa using Ne.symm hc
    exact .inr ⟨line_add before hw rest, column_add before hw rest⟩

/-- Places stand in the order of their offsets. -/
theorem place_lt {text : List Char} {i j : Nat} (hij : i < j) (hj : j ≤ text.length) :
    line text i < line text j ∨ line text i = line text j ∧ column text i < column text j := by
  induction j with
  | zero => cases hij
  | succ j ih =>
    have hstep : line text j < line text (j + 1) ∨ _ := place_succ hj
    rcases Nat.lt_succ_iff_lt_or_eq.1 hij with h | rfl
    · have := ih h (Nat.le_of_succ_le hj)
      omega
    · omega

/-- The line of an offset, counted from one, holds its character at its column. -/
theorem lines_line_column {text : List Char} {offset : Nat} {c : Char}
    (h : text[offset]? = some c) (hc : c ≠ '\n') :
    ((lines text)[line text offset - 1]?).bind (·[column text offset - 1]?) = some c := by
  obtain ⟨htext, hlength⟩ := eq_append_cons h
  generalize text.take offset = before, text.drop (offset + 1) = rest at htext hlength
  subst htext hlength
  obtain ⟨after, hown⟩ := exists_line_at before
    (by simpa using Ne.symm hc : '\n' ∉ [c]) rest
  rw [List.singleton_append] at hown
  rw [hown, column_append]
  simp

end Tama.Position
