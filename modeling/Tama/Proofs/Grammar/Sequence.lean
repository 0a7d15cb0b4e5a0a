import Tama.Proofs.Grammar.Joined
import Tama.Proofs.Grammar.Location
import Tama.Proofs.Grammar.Lockstep
import Tama.Proofs.Grammar.Progress

/-!
# Programs one behind the other

A text stands behind a program and a line feed. The statements of the program are read as before,
since what follows does not matter to them (`Chain.exchange`). What is left of the program is
skipped together with the line feed, and from there the statements of the text are read, or fail to
be read, as they are off the text alone (`Chain.behind`). So the trees come one after the other, and
an error in the text is as much further down as the program is long (`read_append_line`).
-/

set_option autoImplicit false

namespace Tama.Grammar

open Tama.Parser

/-! ## Items -/

section
variable {α : Type} {p : Parser α} {text mid rest more : List Char} {as bs : List α}

theorem Chain.append (h : Chain p text as mid) (h' : Chain p mid bs rest) :
    Chain p text (as ++ bs) rest := by
  induction h with
  | nil => exact h'
  | cons ha _ ih => exact .cons ha (ih h')

/-- Items read to the end of their line come before the items of the next line. -/
theorem Chain.behind (hc : Closed p) (hs : SkipsFirst p) (h : Chain p text as mid)
    (hmid : skip mid = []) (h' : Chain p more bs rest) :
    ∃ rest', Chain p (text ++ '\n' :: more) (as ++ bs) rest' ∧ skip rest = skip rest' := by
  obtain ⟨word, rfl, hfirst⟩ := h.exchange hc (mid ++ '\n' :: more)
  obtain ⟨rest', hlast, hrest⟩ := h'.skipsFirst hs (skip_append_line_of_nil hmid).symm
  refine ⟨rest', ?_, hrest⟩
  rw [List.append_assoc]
  exact hfirst.append hlast

/-- What stands before the place where items end: the items, and what is skipped after them. -/
theorem Chain.exists_before (hc : Closed p) (h : Chain p text as rest) :
    ∃ before, text = before ++ skip rest := by
  obtain ⟨word, rfl, -⟩ := h.exchange hc rest
  obtain ⟨gap, hrest, -⟩ := exists_skipped rest
  exact ⟨word ++ gap, by rw [List.append_assoc, ← hrest]⟩

end

/-! ## Programs -/

section
variable {nesting : Nat} {text more rest : List Char} {trees others : List Tree}

theorem programStatement_skipsFirst (nesting : Nat) :
    SkipsFirst (statementAt (expressionAt nesting) nesting) :=
  statementAt_skipsFirst (expressionAt_skipsFirst nesting) nesting

/-- A text fails where its statements end before it does. -/
theorem program_of_fails (hn : 0 < nesting) {mid tail : List Char} {c : Char}
    (h : Chain (statementAt (expressionAt nesting) nesting) text trees mid)
    (hf : Fails (statementAt (expressionAt nesting) nesting) mid) (hs : skip mid = c :: tail) :
    program nesting text = .failed (c :: tail) .endOfText := by
  rw [program, bind_apply, (statements_iff hn).2 ⟨h, hf⟩]
  simp only [bind_apply, ending, hs]

/-- Two programs one behind the other are one program. -/
theorem program_append_line (hn : 0 < nesting) (h : program nesting text = .done trees [])
    (h' : program nesting more = .done others []) :
    program nesting (text ++ '\n' :: more) = .done (trees ++ others) [] := by
  obtain ⟨gap, hchain, hgap⟩ := (program_eq_done hn).1 h
  obtain ⟨last, hchain', hlast⟩ := (program_eq_done hn).1 h'
  obtain ⟨last', hjoined, hskip⟩ := hchain.behind (programStatement_closed nesting)
    (programStatement_skipsFirst nesting) hgap hchain'
  exact (program_eq_done hn).2 ⟨last', hjoined, hskip ▸ hlast⟩

/-- Behind a program a text fails where it does alone. -/
theorem program_append_line_of_failed (hn : 0 < nesting)
    (h : program nesting text = .done trees []) {wanted : Wanted}
    (h' : program nesting more = .failed rest wanted) :
    (∃ before, more = before ++ rest) ∧
      program nesting (text ++ '\n' :: more) = .failed rest .endOfText := by
  obtain ⟨gap, hchain, hgap⟩ := (program_eq_done hn).1 h
  obtain ⟨others, mid, c, tail, hchain', hfails, hmid, rfl⟩ := program_eq_failed hn h'
  have hclosed := programStatement_closed nesting
  have hfirst := programStatement_skipsFirst nesting
  obtain ⟨mid', hjoined, hskip⟩ := hchain.behind hclosed hfirst hgap hchain'
  refine ⟨hmid ▸ hchain'.exists_before hclosed, ?_⟩
  exact program_of_fails hn hjoined (hfirst.fails hskip hfails) (hskip ▸ hmid)

end

/-! ## Sources -/

/-- A text at which the grammar fails is rejected, at the place of the failure. -/
theorem read_of_failed {source : String} {before rest : List Char} {wanted : Wanted}
    (filename : String) (htext : Tab.expand source.toList = before ++ rest) {n : Nat}
    (hn : (Tab.expand source.toList).length < n)
    (h : program n (Tab.expand source.toList) = .failed rest wanted) :
    ∃ e, Program.read source filename = .error (.syntaxError e) ∧ e.location = before.length ∧
      e.line = Position.line (before ++ rest) before.length ∧
      e.column = Position.column (before ++ rest) before.length := by
  rw [program_stable hn (Nat.lt_succ_self _)] at h
  have hread : ∃ e, Program.read source filename = .error (.syntaxError e) :=
    ⟨_, by simp only [Program.read, Program.readWith, unlimited, h]; rfl⟩
  obtain ⟨e, hread⟩ := hread
  obtain ⟨rest', wanted', h', hlocation, hline, hcolumn⟩ := read_syntaxError hread
  cases h.symm.trans h'
  rw [htext, List.length_append, Nat.add_sub_cancel] at hlocation hline hcolumn
  exact ⟨e, hread, hlocation, hline, hcolumn⟩

/-- **Reading is compositional.** Behind an accepted text and a line feed, an accepted text adds its
trees; a rejected one is rejected at the same place, counted from where it stands now. -/
theorem read_append_line (source other filename : String) (trees : List Tree)
    (h : Program.read source filename = .ok trees) :
    (∀ others, Program.read other filename = .ok others →
      Program.read (source ++ "\n" ++ other) filename = .ok (trees ++ others)) ∧
    (∀ e, Program.read other filename = .error (.syntaxError e) →
      ∃ e', Program.read (source ++ "\n" ++ other) filename = .error (.syntaxError e') ∧
        e'.location = (Tab.expand source.toList).length + 1 + e.location ∧
        e'.line = e.line + 1 + source.toList.count '\n' ∧
        e'.column = e.column) := by
  have hjoined : Tab.expand (source ++ "\n" ++ other).toList =
      Tab.expand source.toList ++ '\n' :: Tab.expand other.toList := by
    rw [← Tab.expand_append_line]
    simp
  -- the nesting of the joined text is enough for all three
  obtain ⟨n, hn⟩ : ∃ n, (Tab.expand (source ++ "\n" ++ other).toList).length < n :=
    ⟨_, Nat.lt_succ_self _⟩
  have hboth := hn
  rw [hjoined, List.length_append, List.length_cons] at hboth
  have hfirst : (Tab.expand source.toList).length < n := by omega
  have hsecond : (Tab.expand other.toList).length < n := by omega
  have hpos : 0 < n := Nat.zero_lt_of_lt hn
  have hprogram := (read_eq_ok_iff_program hfirst).1 h
  constructor
  · intro others hother
    rw [read_eq_ok_iff_program hn, hjoined]
    exact program_append_line hpos hprogram ((read_eq_ok_iff_program hsecond).1 hother)
  · intro e hother
    obtain ⟨rest, wanted, hfailed, -⟩ := read_syntaxError hother
    rw [program_stable (Nat.lt_succ_self _) hsecond] at hfailed
    obtain ⟨⟨before, hbefore⟩, hlast⟩ := program_append_line_of_failed hpos hprogram hfailed
    have htext : Tab.expand (source ++ "\n" ++ other).toList =
        (Tab.expand source.toList ++ '\n' :: before) ++ rest := by
      rw [hjoined, hbefore, List.append_assoc, List.cons_append]
    obtain ⟨e₀, he, hlocation, hline, hcolumn⟩ := read_of_failed filename hbefore hsecond hfailed
    cases hother.symm.trans he
    rw [← hjoined] at hlast
    obtain ⟨e', he', hlocation', hline', hcolumn'⟩ := read_of_failed filename htext hn hlast
    obtain ⟨hplace, hsame⟩ :=
      Position.place_behind_line (Tab.expand source.toList) before rest
    have hcount : (Tab.expand source.toList).count '\n' = source.toList.count '\n' :=
      Tab.count_newline_expandFrom 0 source.toList
    refine ⟨e', he', ?_, ?_, ?_⟩
    · rw [hlocation', hlocation, List.length_append, List.length_cons]
      omega
    · rw [hline', hline, hplace, hcount]
      omega
    · rw [hcolumn', hcolumn, hsame]

/-- A comment ends with its line, and the columns of tabs start again behind it. -/
theorem read_append_line_behind_comment :
    Program.read "x = 1; # one" "" = .ok [.assignment "x" (.int 1)] ∧
    Program.read ("x = 1; # one" ++ "\n" ++ "\tx;") "" =
      .ok [.assignment "x" (.int 1), .var "x"] ∧
    ∃ e, Program.read ("x = 1; # one" ++ "\n" ++ "\tx 2;") "" = .error (.syntaxError e) ∧
      e.location = 21 ∧ e.line = 2 ∧ e.column = 9 := by
  have hplace : (match Program.read "\tx 2;" "" with
      | .error (.syntaxError e) => (e.location, e.line, e.column)
      | _ => (0, 0, 0)) = (8, 1, 9) := by decide +kernel
  have first : program 5 (Tab.expand "x = 1; # one".toList) =
      .done [.assignment "x" (.int 1)] [] := by cbv
  have second : program 5 (Tab.expand "\tx;".toList) = .done [.var "x"] [] := by cbv
  have hfirst : Program.read "x = 1; # one" "" = .ok [.assignment "x" (.int 1)] :=
    read_of_program first
  have hsecond : Program.read "\tx;" "" = .ok [.var "x"] := read_of_program second
  have haccepted := (read_append_line "x = 1; # one" "\tx;" "" _ hfirst).1 _ hsecond
  refine ⟨hfirst, haccepted, ?_⟩
  cases hread : Program.read "\tx 2;" "" with
  | ok trees =>
    rw [hread] at hplace
    cases hplace
  | error failure =>
    cases failure with
    | fault f =>
      rw [hread] at hplace
      cases hplace
    | syntaxError e =>
      rw [hread] at hplace
      obtain ⟨hl, hn, hc⟩ : e.location = 8 ∧ e.line = 1 ∧ e.column = 9 := by simpa using hplace
      obtain ⟨e', he', hlocation, hline, hcolumn⟩ :=
        (read_append_line "x = 1; # one" "\tx 2;" "" _ hfirst).2 e hread
      have hlength : (Tab.expand "x = 1; # one".toList).length = 12 := by decide
      have hcount : "x = 1; # one".toList.count '\n' = 0 := by decide
      exact ⟨e', he', by omega, by omega, by omega⟩

end Tama.Grammar
