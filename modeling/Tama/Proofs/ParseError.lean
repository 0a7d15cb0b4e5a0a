import Tama.Program
import Tama.Proofs.Grammar.Expansion
import Tama.Proofs.Text.Position

/-!
# What a report shows

A source has the lines of its expansion, each with its tabs (`Tab.lines_expand`). So a failure in
the expansion can be reported (`ParseFailure.exists_report`): its context is made of the lines of
the source before the failing one, of the failing line as it is expanded, and of a caret
(`ParseFailure.contextLines_eq`).
-/

set_option autoImplicit false

namespace Tama

open Position

/-! ## Lines of an expansion -/

namespace Tab

theorem lines_expandFrom (column : Nat) (text : List Char) : ∃ first rest,
    lines text = first :: rest ∧
      lines (expandFrom column text) = expandFrom column first :: rest.map expand := by
  induction text generalizing column with
  | nil => exact ⟨[], [], rfl, rfl⟩
  | cons c text ih =>
    by_cases hn : c = '\n'
    · subst hn
      obtain ⟨first, rest, htext, h⟩ := ih 0
      have hstep : expandFrom column ('\n' :: text) = '\n' :: expandFrom 0 text := by
        simp [expandFrom]
      exact ⟨[], first :: rest, by rw [lines_newline, htext], by rw [hstep, lines_newline, h]; rfl⟩
    by_cases ht : c = '\t'
    · subst ht
      obtain ⟨first, rest, htext, h⟩ := ih (column + (stop - column % stop))
      obtain ⟨_, _, hlines, hcons⟩ := lines_cons hn text
      obtain ⟨rfl, rfl⟩ := List.cons.inj (htext.symm.trans hlines)
      have hspaces : '\n' ∉ List.replicate (stop - column % stop) ' ' := by simp
      obtain ⟨_, _, hexpand, happend⟩ :=
        lines_append hspaces (expandFrom (column + (stop - column % stop)) text)
      obtain ⟨rfl, rfl⟩ := List.cons.inj (h.symm.trans hexpand)
      exact ⟨_, _, hcons, happend⟩
    · obtain ⟨column', hstep⟩ := exists_expandFrom_cons column ht
      obtain ⟨first, rest, htext, h⟩ := ih column'
      obtain ⟨_, _, hlines, hcons⟩ := lines_cons hn text
      obtain ⟨rfl, rfl⟩ := List.cons.inj (htext.symm.trans hlines)
      obtain ⟨_, _, hexpand, hcons'⟩ := lines_cons hn (expandFrom column' text)
      obtain ⟨rfl, rfl⟩ := List.cons.inj (h.symm.trans hexpand)
      exact ⟨_, _, hcons, by rw [hstep, hstep, hcons']⟩

/-- Tabs are expanded line by line. -/
theorem lines_expand (text : List Char) : lines (expand text) = (lines text).map expand := by
  obtain ⟨first, rest, htext, h⟩ := lines_expandFrom 0 text
  rw [expand, h, htext, List.map_cons, expand]

theorem count_newline_expandFrom (column : Nat) (text : List Char) :
    (expandFrom column text).count '\n' = text.count '\n' := by
  obtain ⟨first, rest, htext, h⟩ := lines_expandFrom column text
  have hexpanded := length_lines (expandFrom column text)
  have hlength := length_lines text
  rw [h, List.length_cons, List.length_map] at hexpanded
  rw [htext, List.length_cons] at hlength
  omega

end Tab

/-! ## Context -/

namespace ParseFailure

variable {source : List Char} {above shown below : List (List Char)} {failing : List Char}

theorem mapM_numbered (above shown below : List (List Char)) :
    (List.range' (above.length + 1) shown.length).mapM (fun n =>
      ((above ++ (shown ++ below))[n - 1]?).map (numbered n)) =
      some (shown.mapIdx fun i text => numbered (above.length + 1 + i) text) := by
  induction shown generalizing above with
  | nil => rfl
  | cons text shown ih =>
    have h := ih (above ++ [text])
    rw [List.length_append, List.length_singleton, List.append_assoc, List.singleton_append] at h
    have hget : (above ++ (text :: shown ++ below))[above.length + 1 - 1]? = some text := by simp
    rw [List.length_cons, List.range'_succ, List.mapM_cons, hget, Option.map_some,
      List.cons_append, h, List.mapIdx_cons]
    simp only [Nat.add_zero, Nat.add_assoc, Nat.add_comm 1]
    rfl

/-- The context of a failure, when the source has the failing line and those before it. -/
theorem contextLines_eq (f : ParseFailure)
    (hlines : lines source = above ++ (shown ++ failing :: below))
    (habove : above.length + 1 = max 1 (line f.text f.offset - 2))
    (hshown : above.length + shown.length + 1 = line f.text f.offset) :
    f.contextLines source =
      some (shown.mapIdx (fun i text => numbered (above.length + 1 + i) text) ++
        [numbered (line f.text f.offset) (lineText f.text f.offset),
          caret (column f.text f.offset)]) := by
  have hcount : line f.text f.offset - (above.length + 1) = shown.length := by omega
  have hbefore := mapM_numbered above shown (failing :: below)
  rw [contextLines]
  simp only [← habove, hcount, hlines, hbefore]
  rfl

/-- A source has a line and those before it. -/
theorem exists_split {n : Nat} (h : n < (lines source).length) (first : Nat) (hf : first ≤ n) :
    ∃ above shown failing below, lines source = above ++ (shown ++ failing :: below) ∧
      above.length = first ∧ above.length + shown.length = n := by
  obtain ⟨hsplit, hlength⟩ := eq_append_cons (List.getElem?_eq_getElem h)
  refine ⟨((lines source).take n).take first, ((lines source).take n).drop first,
    (lines source)[n], (lines source).drop (n + 1), ?_, ?_, ?_⟩
  · rw [← List.append_assoc, List.take_append_drop]
    exact hsplit
  · rw [List.length_take, hlength, Nat.min_eq_left hf]
  · rw [← List.length_append, List.take_append_drop, hlength]

/-- A failure can be reported when the source has all lines before the failing one. -/
theorem exists_report (f : ParseFailure) {source : String} (filename : String)
    (h : f.text.count '\n' ≤ source.toList.count '\n') :
    ∃ e, f.report source filename = some e ∧ e.location = f.offset ∧
      e.line = Position.line f.text f.offset ∧ e.column = Position.column f.text f.offset := by
  have hline : Position.line f.text f.offset ≤ (lines source.toList).length := by
    have := (List.take_sublist f.offset f.text).count_le '\n'
    rw [Position.line, Position.length_lines]
    omega
  have hpos : 0 < Position.line f.text f.offset := Nat.succ_pos _
  obtain ⟨above, shown, failing, below, hlines, habove, hshown⟩ :=
    exists_split (Nat.lt_of_lt_of_le (Nat.sub_lt hpos Nat.one_pos) hline)
      (max 1 (Position.line f.text f.offset - 2) - 1) (by omega)
  have hcontext := f.contextLines_eq hlines (by omega) (by omega)
  exact ⟨_, by rw [report, context, hcontext]; rfl, rfl, rfl, rfl⟩

theorem of_report {f : ParseFailure} {source filename : String} {e : ParseError}
    (h : f.report source filename = some e) :
    e.location = f.offset ∧ e.line = Position.line f.text f.offset ∧ e.got = some f.got ∧
      e.context = f.context source.toList := by
  obtain ⟨shown, hcontext, h⟩ := Option.bind_eq_some_iff.1 h
  cases h
  exact ⟨rfl, rfl, rfl, hcontext.symm⟩

/-- What was expected comes from the message, and the hints from that and the quotation. -/
theorem hints_of_report {f : ParseFailure} {source filename : String} {e : ParseError}
    (h : f.report source filename = some e) :
    e.expected = Expectation.ofMessage f.message ∧
      e.suggestions = Hint.suggest f.got (Expectation.ofMessage f.message) := by
  obtain ⟨shown, -, h⟩ := Option.bind_eq_some_iff.1 h
  cases h
  exact ⟨rfl, rfl⟩

end ParseFailure

namespace Program

variable {α : Type} {p : Parser α} {source filename : String} {e : ParseError}

/-- A syntax error is the report of a failure in the expanded source. -/
theorem readWith_syntaxError (h : readWith p source filename = .error (.syntaxError e)) :
    ∃ rest wanted, p (Tab.expand source.toList) = .failed rest wanted ∧
      ParseFailure.report ⟨Tab.expand source.toList,
        (Tab.expand source.toList).length - rest.length, wanted.message⟩ source filename =
          some e := by
  unfold readWith at h
  simp only at h
  split at h
  · cases h
  · cases h
  · rename_i rest wanted hp
    obtain ⟨e', hreport, -⟩ := ParseFailure.exists_report
      ⟨Tab.expand source.toList, (Tab.expand source.toList).length - rest.length, wanted.message⟩
      filename (Nat.le_of_eq (Tab.count_newline_expandFrom 0 source.toList))
    rw [hreport] at h
    cases h
    exact ⟨rest, wanted, hp, hreport⟩

/-- The syntax error of a text that is no program. -/
def syntaxError? (source filename : String) : Option ParseError :=
  match read source filename with
  | .error (.syntaxError e) => some e
  | .error (.fault _) => none
  | .ok _ => none

theorem read_of_syntaxError? (h : syntaxError? source filename = some e) :
    read source filename = .error (.syntaxError e) := by
  unfold syntaxError? at h
  split at h <;> cases h
  assumption

end Program
end Tama
