import Mathlib.Order.Bounds.Basic
import Tama.Proofs.Grammar.Acceptance
import Tama.Proofs.Grammar.Closed
import Tama.Proofs.ParseError

/-!
# Where a text stops being a program

A text that is no program is read up to the place where its longest prefix ends that is one. Its
statements up to there are read in the same way off the prefix, and off every longer one
(`Chain.exchange`), so no longer prefix can be a program (`error_location`). The line and the column
of the report are those of the character at that place (`Position.lines_line_column`).
-/

set_option autoImplicit false

namespace Tama.Grammar

open Tama.Parser

/-! ## Reports -/

theorem read_syntaxError {source filename : String} {e : ParseError}
    (h : Program.read source filename = .error (.syntaxError e)) :
    ∃ rest wanted, program ((Tab.expand source.toList).length + 1) (Tab.expand source.toList) =
        .failed rest wanted ∧
      e.location = ((Tab.expand source.toList).length - rest.length : Nat) ∧
      e.line = Position.line (Tab.expand source.toList)
        ((Tab.expand source.toList).length - rest.length) ∧
      e.column = Position.column (Tab.expand source.toList)
        ((Tab.expand source.toList).length - rest.length) := by
  obtain ⟨rest, wanted, hp, hreport⟩ := Program.readWith_syntaxError h
  obtain ⟨e', hreport', hlocation, hline, hcolumn⟩ := ParseFailure.exists_report
    ⟨Tab.expand source.toList, (Tab.expand source.toList).length - rest.length, wanted.message⟩
    filename (Nat.le_of_eq (Tab.count_newline_expandFrom 0 source.toList))
  cases hreport.symm.trans hreport'
  exact ⟨rest, wanted, hp, hlocation, hline, hcolumn⟩

/-! ## What is skipped -/

theorem exists_skipped (text : List Char) : ∃ gap, text = gap ++ skip text ∧ skip gap = [] := by
  have hskips := skips_skip text
  generalize skip text = rest at hskips
  suffices hgap : ∃ gap, text = gap ++ rest ∧ Skips gap [] by
    obtain ⟨gap, htext, hgap⟩ := hgap
    exact ⟨gap, htext, hgap.skip_eq⟩
  induction hskips with
  | refl text => exact ⟨[], rfl, .refl []⟩
  | @gap c text rest hc _ ih =>
    obtain ⟨gap, rfl, hgap⟩ := ih
    exact ⟨c :: gap, rfl, .gap hc hgap⟩
  | @comment body text rest hb ht _ ih =>
    obtain ⟨gap, rfl, hgap⟩ := ih
    have hnext : NotNext (· ≠ '\n') gap := by
      cases gap with
      | nil => nofun
      | cons c gap => exact notNext_cons.2 (notNext_cons.1 ht)
    exact ⟨body ++ gap, (List.append_assoc ..).symm, .comment hb hnext hgap⟩

theorem isGap_of_skip {text tail : List Char} {c : Char} (h : skip text = c :: tail) :
    Blank.isGap c = false :=
  (not_skipped_of_skip h).1

/-- What is skipped altogether ends inside of a comment or not, whatever follows it. -/
theorem exists_skipFrom_append {inComment : Bool} {gap : List Char}
    (h : skipFrom inComment gap = []) :
    ∃ still, ∀ rest, skipFrom inComment (gap ++ rest) = skipFrom still rest := by
  induction gap generalizing inComment with
  | nil => exact ⟨inComment, fun rest => rfl⟩
  | cons c gap ih =>
    cases inComment with
    | true =>
      by_cases hn : c = '\n'
      · simp only [List.cons_append, skipFrom, hn, if_true] at h ⊢
        exact ih h
      · simp only [List.cons_append, skipFrom, hn, if_false] at h ⊢
        exact ih h
    | false =>
      by_cases hg : Blank.isGap c = true
      · simp only [List.cons_append, skipFrom, hg, if_true] at h ⊢
        exact ih h
      · simp only [List.cons_append, skipFrom, hg, Bool.false_eq_true, if_false] at h ⊢
        split at h
        · -- two slashes stand in what is skipped, not one before its end and one behind it
          rename_i hcomment
          have hcomment' : ∀ rest, c = '#' ∨ c = '/' ∧ (gap ++ rest).head? = some '/' := by
            intro rest
            refine hcomment.imp_right fun hslash => ⟨hslash.1, ?_⟩
            rw [List.head?_append, hslash.2]
            rfl
          simp only [hcomment', if_true]
          exact ih h
        · cases h

/-- Behind what is skipped altogether, no more is left than follows it. -/
theorem length_skipFrom_append_le (inComment : Bool) (gap rest : List Char)
    (h : skipFrom inComment gap = []) :
    (skipFrom inComment (gap ++ rest)).length ≤ rest.length := by
  obtain ⟨still, hstill⟩ := exists_skipFrom_append h
  rw [hstill]
  exact length_skipFrom_le still rest

/-- Where a text is not skipped to its end, what follows it comes after the rest. -/
theorem skip_append_of_cons {text tail : List Char} {c : Char} (h : skip text = c :: tail)
    (more : List Char) : skip (text ++ more) = skip (c :: (tail ++ more)) := by
  obtain ⟨gap, htext, hgap⟩ := exists_skipped text
  obtain ⟨still, hstill⟩ := exists_skipFrom_append hgap
  rw [h] at htext
  have hself : skipFrom still (c :: tail) = c :: tail := by rw [← hstill, ← htext]; exact h
  cases still with
  | true =>
    -- inside of a comment one character is skipped at least
    have hle : (skipFrom true (c :: tail)).length ≤ tail.length := by
      simp only [skipFrom]
      split <;> exact length_skipFrom_le _ tail
    rw [hself, List.length_cons] at hle
    omega
  | false =>
    rw [htext, List.append_assoc]
    exact hstill _

/-! ## Failing programs -/

theorem repeatUpTo_ne_failed {α : Type} (p : Parser α) (n : Nat) (text rest : List Char)
    (wanted : Wanted) : Parser.repeatUpTo p n text ≠ .failed rest wanted := by
  induction n generalizing text with
  | zero => nofun
  | succ n ih =>
    intro h
    unfold Parser.repeatUpTo at h
    split at h
    · rename_i a mid _
      split at h
      · cases h
      · rename_i last w hl
        exact ih mid (by rw [hl]; cases h; rfl)
      · cases h
    · cases h
    · cases h

section
variable {nesting : Nat} {text rest : List Char} {trees : List Tree}

/-- The statements of a program, up to where none can be read. -/
theorem statements_iff (hn : 0 < nesting) :
    Parser.many (statementAt (expressionAt nesting) nesting) text = .done trees rest ↔
      Chain (statementAt (expressionAt nesting) nesting) text trees rest ∧
        Fails (statementAt (expressionAt nesting) nesting) rest :=
  many_eq_done_iff (fun _ _ _ => (programStatement_closed nesting).length_lt)
    fun _ => (idle_of_skip rfl).programStatement_fails hn

theorem program_eq_done (hn : 0 < nesting) : program nesting text = .done trees [] ↔
    ∃ gap, Chain (statementAt (expressionAt nesting) nesting) text trees gap ∧ skip gap = [] := by
  constructor
  · intro h
    obtain ⟨body, gap, hbody, h⟩ := bind_eq_done.1 h
    obtain ⟨u, last, hend, h⟩ := bind_eq_done.1 h
    cases h
    exact ⟨gap, ((statements_iff hn).1 hbody).1, lexes_nil_iff.1 (ending_done hend).2.lexes⟩
  · rintro ⟨gap, hchain, hskip⟩
    have hfails := (idle_of_skip hskip).programStatement_fails hn
    rw [program, bind_apply, (statements_iff hn).2 ⟨hchain, hfails⟩]
    simp only [bind_apply, ending, hskip]
    rfl

/-- A text fails as a program where its statements and what may be skipped after them end. -/
theorem program_eq_failed (hn : 0 < nesting) {wanted : Wanted}
    (h : program nesting text = .failed rest wanted) :
    ∃ trees mid c tail, Chain (statementAt (expressionAt nesting) nesting) text trees mid ∧
      Fails (statementAt (expressionAt nesting) nesting) mid ∧ skip mid = c :: tail ∧
      rest = c :: tail := by
  rw [program, bind_apply] at h
  cases hbody : Parser.many (statementAt (expressionAt nesting) nesting) text with
  | failed rest wanted => exact (repeatUpTo_ne_failed _ _ _ _ _ hbody).elim
  | halted cause =>
    rw [hbody] at h
    cases h
  | done trees mid =>
    rw [hbody] at h
    obtain ⟨hchain, hfails⟩ := (statements_iff hn).1 hbody
    cases hskip : skip mid with
    | nil =>
      simp only [bind_apply, ending, hskip] at h
      cases h
    | cons c tail =>
      simp only [bind_apply, ending, hskip] at h
      cases h
      exact ⟨trees, mid, c, tail, hchain, hfails, hskip, rfl⟩

end

/-! ## The main statement -/

/-- A prefix of a text is read at the nesting of the text. -/
theorem read_take_iff (text : List Char) (h : '\t' ∉ text) (n : Nat) (filename : String)
    (trees : List Tree) : Program.read (String.ofList (text.take n)) filename = .ok trees ↔
      ∃ gap, Chain (statementAt (expressionAt (text.length + 1)) (text.length + 1))
        (text.take n) trees gap ∧ skip gap = [] := by
  have hexpand : Tab.expand (text.take n) = text.take n :=
    Tab.expand_eq_self fun ht => h (List.mem_of_mem_take ht)
  have hlt : (Tab.expand (String.ofList (text.take n)).toList).length < text.length + 1 := by
    rw [String.toList_ofList, hexpand]
    exact Nat.lt_succ_of_le (List.length_take_le' n text)
  rw [read_eq_ok_iff_program hlt, String.toList_ofList, hexpand, program_eq_done (Nat.succ_pos _)]

/-- **A parse error is where the longest program ends.** A text that cannot be read fails inside the
expanded text, at the end of its longest prefix that is read as a program; the line and the column
of the error are those of the character there. -/
theorem error_location (source filename : String) (e : ParseError)
    (h : Program.read source filename = .error (.syntaxError e)) :
    ∃ location line column : Nat, e.location = location ∧ e.line = line ∧ e.column = column ∧
      IsGreatest {n | n ≤ (Tab.expand source.toList).length ∧
        ∃ trees, Program.read (String.ofList ((Tab.expand source.toList).take n)) filename =
          .ok trees} location ∧
      location < (Tab.expand source.toList).length ∧ 1 ≤ line ∧ 1 ≤ column ∧
      ((Position.lines (Tab.expand source.toList))[line - 1]?).bind (·[column - 1]?) =
        (Tab.expand source.toList)[location]? := by
  obtain ⟨rest, wanted, hp, hlocation, hline, hcolumn⟩ := read_syntaxError h
  have htab := Tab.not_mem_expand source.toList
  generalize Tab.expand source.toList = text at *
  obtain ⟨trees, mid, c, tail, hchain, hfails, hskip, rfl⟩ := program_eq_failed (Nat.succ_pos _) hp
  have hclosed := programStatement_closed (text.length + 1)
  obtain ⟨gap, hmid, hgap⟩ := exists_skipped mid
  rw [hskip] at hmid
  obtain ⟨word, htext, hprefix⟩ := hchain.exchange hclosed gap
  have hsplit : text = (word ++ gap) ++ c :: tail := by rw [htext, hmid, List.append_assoc]
  have hlength : text.length - (c :: tail).length = (word ++ gap).length := by
    rw [hsplit, List.length_append, Nat.add_sub_cancel]
  rw [hlength] at hlocation hline hcolumn
  have htake : text.take (word ++ gap).length = word ++ gap := by rw [hsplit, List.take_left]
  have hget : text[(word ++ gap).length]? = some c := by rw [hsplit]; simp
  have hlt : (word ++ gap).length < text.length := by rw [hsplit]; simp
  refine ⟨_, _, _, hlocation, hline, hcolumn, ⟨⟨Nat.le_of_lt hlt, trees, ?_⟩, ?_⟩, hlt,
    Nat.le_add_left .., Nat.le_add_left .., ?_⟩
  · rw [read_take_iff text htab, htake]
    exact ⟨gap, hprefix, hgap⟩
  · -- what is read of a longer prefix is read of the text, which is then read on to the same end
    rintro n ⟨hn, others, hread⟩
    obtain ⟨last, hothers, hlast⟩ := (read_take_iff text htab n filename others).1 hread
    obtain ⟨front, hfront, hlonger⟩ := hothers.exchange hclosed (last ++ text.drop n)
    rw [← List.append_assoc, ← hfront, List.take_append_drop] at hlonger
    obtain ⟨more, hmore⟩ := hchain.reads_on hfails hlonger
    have hleft := hmore.length_skip_le hclosed
    have hskipped : (skip (last ++ text.drop n)).length ≤ (text.drop n).length :=
      length_skipFrom_append_le false last (text.drop n) hlast
    rw [hskip] at hleft
    rw [← hlength]
    rw [List.length_drop] at hskipped
    omega
  · rw [hget]
    refine Position.lines_line_column hget fun hc => ?_
    have hno := isGap_of_skip hskip
    rw [hc] at hno
    cases hno

/-- A tab counts as the spaces that it stands for. -/
theorem error_location_behind_tab :
    ∃ e, Program.read "x = 1;\n\ty 2;" "" = .error (.syntaxError e) ∧
      e.location = 15 ∧ e.line = 2 ∧ e.column = 9 ∧
      IsGreatest {n | n ≤ (Tab.expand "x = 1;\n\ty 2;".toList).length ∧
        ∃ trees, Program.read (String.ofList ((Tab.expand "x = 1;\n\ty 2;".toList).take n)) "" =
          .ok trees} 15 := by
  have hplace : (match Program.read "x = 1;\n\ty 2;" "" with
      | .error (.syntaxError e) => (e.location, e.line, e.column)
      | _ => (0, 0, 0)) = (15, 2, 9) := by decide +kernel
  cases hread : Program.read "x = 1;\n\ty 2;" "" with
  | ok trees =>
    rw [hread] at hplace
    cases hplace
  | error failure =>
    cases failure with
    | fault f =>
      rw [hread] at hplace
      cases hplace
    | syntaxError e =>
      rw [hread] at hplace
      obtain ⟨hlocation, hline, hcolumn⟩ : e.location = 15 ∧ e.line = 2 ∧ e.column = 9 := by
        simpa using hplace
      obtain ⟨location, -, -, he, -, -, hgreatest, -⟩ := error_location _ _ e hread
      obtain rfl : location = 15 := by omega
      exact ⟨e, rfl, hlocation, hline, hcolumn, hgreatest⟩

end Tama.Grammar
