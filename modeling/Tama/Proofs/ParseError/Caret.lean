import Tama.Proofs.Grammar.Failure
import Tama.Proofs.Grammar.Sequence

/-!
# The caret under a failure

The context of a parse error ends in the failing line and a caret below it. A number takes up four
columns in front of its line, or as many as it has digits, and the caret counts on four: it stands
under the failing character in the first 9999 lines of a text, and to the left of it on any later
line (`caret_position`).
-/

set_option autoImplicit false

namespace Tama.ParseFailure

open Position

/-! ## Excerpts -/

/-- The lines of a source up to a failing one, of which the last two before it are shown. -/
structure Excerpt (source : List Char) (line : Nat) where
  above : List (List Char)
  shown : List (List Char)
  failing : List Char
  below : List (List Char)
  lines_eq : lines source = above ++ (shown ++ failing :: below)
  first_eq : above.length + 1 = max 1 (line - 2)
  last_eq : above.length + shown.length + 1 = line

/-- The lines that are shown before the failing one, each with its number. -/
def Excerpt.numbered {source : List Char} {line : Nat} (x : Excerpt source line) :
    List (List Char) :=
  x.shown.mapIdx fun i text => ParseFailure.numbered (x.above.length + 1 + i) text

/-- The line that marks an index of the line above it. -/
def mark (index : Nat) : List Char :=
  List.replicate index ' ' ++ "^ Error here".toList

theorem Excerpt.getElem?_failing {source : List Char} {line : Nat} (x : Excerpt source line) :
    (lines source)[line - 1]? = some x.failing := by
  have hlast : line - 1 = x.above.length + x.shown.length := by
    have := x.last_eq
    omega
  rw [x.lines_eq, hlast, List.getElem?_append_right (Nat.le_add_right ..), Nat.add_sub_cancel_left,
    List.getElem?_append_right (Nat.le_refl _), Nat.sub_self, List.getElem?_cons_zero]

/-- An offset in the expanded text is on a line of the source. -/
theorem exists_excerpt {source before rest : List Char} (h : Tab.expand source = before ++ rest) :
    ∃ x : Excerpt source (line (before ++ rest) before.length),
      Tab.expand x.failing = lineText (before ++ rest) before.length := by
  have hown : ((lines source)[line (before ++ rest) before.length - 1]?).map Tab.expand =
      some (lineText (before ++ rest) before.length) := by
    rw [← List.getElem?_map, ← Tab.lines_expand, h]
    exact lines_lineText before rest
  obtain ⟨failing, hget, hfailing⟩ := Option.map_eq_some_iff.1 hown
  obtain ⟨hlt, -⟩ := List.getElem?_eq_some_iff.1 hget
  have hpos : 0 < line (before ++ rest) before.length := Nat.succ_pos _
  obtain ⟨above, shown, failing', below, hlines, habove, hshown⟩ :=
    exists_split hlt (max 1 (line (before ++ rest) before.length - 2) - 1) (by omega)
  let x : Excerpt source (line (before ++ rest) before.length) :=
    ⟨above, shown, failing', below, hlines, by omega, by omega⟩
  obtain rfl : failing' = failing := Option.some.inj (x.getElem?_failing.symm.trans hget)
  exact ⟨x, hfailing⟩

/-! ## Columns -/

/-- A number takes up four columns, or more when it has more digits, and two characters come between
it and its line. -/
theorem exists_numbered (number : Nat) (text : List Char) : ∃ lead,
    numbered number text = lead ++ text ∧
      lead.length = max 4 (Nat.toDigits 10 number).length + 2 := by
  refine ⟨List.replicate (4 - (Nat.toDigits 10 number).length) ' ' ++
    (Nat.toDigits 10 number ++ [':', ' ']), by simp [numbered], ?_⟩
  simp only [List.length_append, List.length_replicate, List.length_cons, List.length_nil]
  omega

/-- Where an offset stands in its numbered line. -/
theorem exists_numbered_lineText (before rest : List Char) (number : Nat) : ∃ front,
    numbered number (lineText (before ++ rest) before.length) =
        front ++ rest.takeWhile (· ≠ '\n') ∧
      front.length =
        max 4 (Nat.toDigits 10 number).length + 1 + column (before ++ rest) before.length := by
  obtain ⟨lead, hlead, hlength⟩ :=
    exists_numbered number (lineText (before ++ rest) before.length)
  refine ⟨lead ++ lineBefore (before ++ rest) before.length, ?_, ?_⟩
  · rw [hlead, lineText, lineAfter, List.drop_left, List.append_assoc]
  · rw [List.length_append, hlength, column_append]
    omega

theorem length_toDigits_le_four (n : Nat) : (Nat.toDigits 10 n).length ≤ 4 ↔ n < 10000 :=
  Nat.length_toDigits_le_iff (by decide) (by decide)

/-! ## Failures -/

section

variable {source filename : String} {e : ParseError}

/-- What is not skipped stands on the line. -/
theorem head?_takeWhile_of_skip {rest : List Char} (h : Parser.skip rest = rest) :
    (rest.takeWhile (· ≠ '\n')).head? = rest.head? := by
  cases rest with
  | nil => rfl
  | cons c tail =>
    have hc : c ≠ '\n' := by
      rintro rfl
      cases Grammar.isGap_of_skip h
    simp [hc]

/-- **The caret under a failure.** The context of a text that cannot be read is always there. It
shows the lines of the source from the second one before the failing line on, each with its number,
the failing line with its tabs expanded. There the character at the location of the error, or the
end of the text, stands behind `front`. The caret falls short of it by as many columns as the number
of the line has digits beyond four, so it stands under it exactly in the first 9999 lines. -/
theorem caret_position
    (h : Program.read source filename = .error (.syntaxError e) ∨
      Program.readExpression source filename = .error (.syntaxError e)) :
    ∃ (before rest front : List Char) (line index : Nat) (x : Excerpt source.toList line),
      Tab.expand source.toList = before ++ rest ∧ e.location = before.length ∧ e.line = line ∧
      line = before.count '\n' + 1 ∧
      e.context = some ("\n".intercalate ((x.numbered ++
        [front ++ rest.takeWhile (· ≠ '\n'), mark index]).map String.ofList)) ∧
      numbered line (Tab.expand x.failing) = front ++ rest.takeWhile (· ≠ '\n') ∧
      (rest.takeWhile (· ≠ '\n')).head? = rest.head? ∧
      index + ((Nat.toDigits 10 line).length - 4) = front.length ∧
      (index = front.length ↔ line < 10000) := by
  have hfailure : ∃ before rest wanted, Tab.expand source.toList = before ++ rest ∧
      Parser.skip rest = rest ∧
      report ⟨before ++ rest, before.length, Wanted.message wanted⟩ source filename = some e := by
    rcases h with h | h
    · obtain ⟨before, rest, wanted, htext, hskip, -, hreport⟩ :=
        Grammar.readWith_failure (Grammar.program_onward _) h
      exact ⟨before, rest, wanted, htext, hskip, hreport⟩
    · obtain ⟨before, rest, wanted, htext, hskip, -, hreport⟩ :=
        Grammar.readWith_failure (Grammar.wholeExpression_onward _) h
      exact ⟨before, rest, wanted, htext, hskip, hreport⟩
  obtain ⟨before, rest, wanted, htext, hskip, hreport⟩ := hfailure
  obtain ⟨x, hfailing⟩ := exists_excerpt htext
  obtain ⟨hlocation, hline, -, hcontext⟩ := of_report hreport
  have hlines := contextLines_eq ⟨before ++ rest, before.length, wanted.message⟩ x.lines_eq
    x.first_eq x.last_eq
  obtain ⟨front, hfront, hlength⟩ :=
    exists_numbered_lineText before rest (line (before ++ rest) before.length)
  have hwidth := length_toDigits_le_four (line (before ++ rest) before.length)
  refine ⟨before, rest, front, _, 5 + column (before ++ rest) before.length, x, htext,
    hlocation, hline, line_append before rest, ?_, hfailing ▸ hfront,
    head?_takeWhile_of_skip hskip, by omega, ?_⟩
  · rw [hcontext, ParseFailure.context, hlines, hfront]
    rfl
  · rw [← hwidth]
    omega

/-- Behind a tab the caret is under the character that the parser stops at. -/
theorem caret_position_behind_tab : ∃ e,
    Program.read "x = 1;\n\ty 2;" "" = .error (.syntaxError e) ∧ e.line = 2 ∧
    ∃ before rest front shown, Tab.expand "x = 1;\n\ty 2;".toList = before ++ rest ∧
      e.location = before.length ∧
      e.context = some ("\n".intercalate ((shown ++
        [front ++ rest.takeWhile (· ≠ '\n'), mark front.length]).map String.ofList)) := by
  have hplace : (Program.syntaxError? "x = 1;\n\ty 2;" "").map (·.line) = some 2 := by
    decide +kernel
  obtain ⟨e, he, hline⟩ := Option.map_eq_some_iff.1 hplace
  have hread := Program.read_of_syntaxError? he
  obtain ⟨before, rest, front, line, index, x, htext, hlocation, hl, -, hcontext, -, -, -,
    hindex⟩ := caret_position (.inl hread)
  have hsmall : line < 10000 := by
    have : (line : Int) = 2 := hl.symm.trans hline
    omega
  rw [hindex.2 hsmall] at hcontext
  exact ⟨e, hread, hline, before, rest, front, x.numbered, htext, hlocation, hcontext⟩

end

/-! ## Blank lines -/

section

open Tama.Parser Tama.Grammar

theorem skip_newlines (n : Nat) (text : List Char) :
    skip (List.replicate n '\n' ++ text) = skip text := by
  induction n with
  | zero => rfl
  | succ n ih => exact ih

theorem lines_newlines (n : Nat) (text : List Char) :
    lines (List.replicate n '\n' ++ text) = List.replicate n [] ++ lines text := by
  induction n with
  | zero => rfl
  | succ n ih =>
    rw [List.replicate_succ, List.cons_append, lines_newline, ih]
    rfl

theorem program_newlines (n : Nat) :
    unlimited program (List.replicate n '\n' ++ ['@']) = .failed ['@'] .endOfText := by
  have hskip : skip (List.replicate n '\n' ++ ['@']) = ['@'] := skip_newlines n ['@']
  have hidle : Idle (List.replicate n '\n' ++ ['@']) := by
    constructor <;> rw [hskip]
    · exact notNext_cons.2 (by decide)
    · exact notNext_cons.2 (by decide)
    · decide
  exact program_of_fails (Nat.succ_pos _) (.nil _)
    (hidle.programStatement_fails (Nat.succ_pos _)) hskip

/-- The context of a character that no statement starts with, below empty lines. -/
theorem context_newlines (n : Nat) (filename : String) : ∃ e,
    Program.read (String.ofList (List.replicate (n + 2) '\n' ++ ['@'])) filename =
      .error (.syntaxError e) ∧ e.location = (n + 2 : Nat) ∧
    e.context = some ("\n".intercalate ([numbered (n + 1) [], numbered (n + 2) [],
      numbered (n + 3) ['@'], mark 6].map String.ofList)) := by
  have hlines : lines (List.replicate (n + 2) '\n' ++ ['@']) =
      List.replicate n [] ++ ([[], []] ++ ['@'] :: []) := by
    rw [lines_newlines, List.replicate_add, List.append_assoc]
    rfl
  have hbefore : lineBefore (List.replicate (n + 2) '\n' ++ ['@']) (n + 2) = [] := by
    have h := lineBefore_append (List.replicate (n + 2) '\n') ['@']
    rw [List.length_replicate] at h
    rw [h, List.reverse_replicate]
    rfl
  have hline : line (List.replicate (n + 2) '\n' ++ ['@']) (n + 2) = n + 3 := by
    have h := line_append (List.replicate (n + 2) '\n') ['@']
    rwa [List.length_replicate, List.count_replicate_self] at h
  have hcolumn : column (List.replicate (n + 2) '\n' ++ ['@']) (n + 2) = 1 := by
    have h := column_append (List.replicate (n + 2) '\n') ['@']
    rwa [List.length_replicate, hbefore] at h
  have hown : lineText (List.replicate (n + 2) '\n' ++ ['@']) (n + 2) = ['@'] := by
    rw [lineText, hbefore, lineAfter, List.drop_left' (List.length_replicate ..)]
    rfl
  have hexpand : Tab.expand (List.replicate (n + 2) '\n' ++ ['@']) =
      List.replicate (n + 2) '\n' ++ ['@'] := Tab.expand_eq_self (by simp)
  have hfailed := program_newlines (n + 2)
  have hlength : (List.replicate (n + 2) '\n' ++ ['@']).length - ['@'].length = n + 2 := by simp
  generalize List.replicate (n + 2) '\n' ++ ['@'] = text at *
  obtain ⟨e, hread⟩ : ∃ e, Program.read (String.ofList text) filename =
      .error (.syntaxError e) :=
    ⟨_, by simp only [Program.read, Program.readWith, String.toList_ofList, hexpand, hfailed]; rfl⟩
  obtain ⟨rest, wanted, hfailed', hreport⟩ := Program.readWith_syntaxError hread
  rw [String.toList_ofList, hexpand] at hfailed' hreport
  cases hfailed.symm.trans hfailed'
  have hcontext := contextLines_eq ⟨text, n + 2, Wanted.endOfText.message⟩ hlines
    (by rw [hline, List.length_replicate]; omega) (by rw [hline, List.length_replicate]; rfl)
  rw [hline, hcolumn, hown, List.length_replicate] at hcontext
  rw [hlength, report, ParseFailure.context, String.toList_ofList, hcontext] at hreport
  cases hreport
  exact ⟨_, hread, rfl, rfl⟩

/-- Behind ten thousand lines the caret is one column short. -/
theorem caret_short_of_failure : ∃ e,
    Program.read (String.ofList (List.replicate 9999 '\n' ++ ['@'])) "<input>" =
      .error (.syntaxError e) ∧ e.location = 9999 ∧
    e.context = some "9998: \n9999: \n10000: @\n      ^ Error here" ∧
    "10000: @".toList.idxOf '@' = 7 ∧ "      ^ Error here".toList.idxOf '^' = 6 := by
  obtain ⟨e, hread, hlocation, hcontext⟩ := context_newlines 9997 "<input>"
  have hshown : "\n".intercalate ([numbered (9997 + 1) [], numbered (9997 + 2) [],
      numbered (9997 + 3) ['@'], mark 6].map String.ofList) =
      "9998: \n9999: \n10000: @\n      ^ Error here" := by decide +kernel
  exact ⟨e, hread, hlocation, hcontext.trans (congrArg some hshown), by decide, by decide⟩

end

end Tama.ParseFailure
