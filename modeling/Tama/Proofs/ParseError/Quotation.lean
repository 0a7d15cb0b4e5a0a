import Mathlib.Data.List.DropRight
import Tama.Proofs.Grammar.Failure
import Tama.Proofs.Grammar.Progress
import Tama.Proofs.Grammar.Sequence

/-!
# The quotation of a failure

A parse error quotes what stands on the line at the place of the failure, without the blanks around
it. The parser knows four blanks, the quotation leaves out every Unicode blank. So a quotation
begins with the failing character exactly when this is no Unicode blank (`quotation_at_failure`); a
blank that the parser stops at is not quoted, and where only blanks follow it the report speaks of
the end of a line.
-/

set_option autoImplicit false

namespace Tama

/-! ## Trimming -/

namespace Blank

theorem isPrefix_trim (text : List Char) : trim text <+: text.dropWhile isBlank :=
  List.rdropWhile_prefix isBlank (text.dropWhile isBlank)

/-- A trimmed text is what follows its first blanks. -/
theorem takeWhile_append_trim (text : List Char) :
    text.takeWhile isBlank ++ trim text <+: text := by
  have h := (List.prefix_append_right_inj (text.takeWhile isBlank)).2 (isPrefix_trim text)
  rwa [List.takeWhile_append_dropWhile] at h

theorem trim_eq_nil_iff {text : List Char} : trim text = [] ↔ ∀ c ∈ text, isBlank c = true := by
  have hall : trim text = [] ↔ ∀ c ∈ text.dropWhile isBlank, isBlank c = true :=
    List.rdropWhile_eq_nil_iff
  refine hall.trans ⟨fun h c hc => ?_, fun h c hc => h c ((List.dropWhile_sublist _).mem hc)⟩
  rw [← List.takeWhile_append_dropWhile (p := isBlank) (l := text)] at hc
  rcases List.mem_append.1 hc with hc | hc
  · exact List.all_eq_true.1 List.all_takeWhile c hc
  · exact h c hc

/-- What is left begins with no blank. -/
theorem notNext_trim (text : List Char) : Grammar.NotNext isBlank (trim text) := by
  intro c hc
  obtain ⟨rest, ht⟩ := isPrefix_trim text
  have hhead : c ∈ (text.dropWhile isBlank).head? := by
    rw [← ht, List.head?_append, Option.mem_def.1 hc]
    rfl
  exact Grammar.notNext_dropWhile isBlank text c hhead

end Blank

/-! ## Quotations -/

namespace ParseFailure

/-- The part of a text that its quotation shows, blanks included. -/
def window (text : List Char) : List Char :=
  (text.takeWhile (· ≠ '\n')).take quotedLength

theorem isPrefix_window (text : List Char) : window text <+: text :=
  (List.take_prefix _ _).trans (List.takeWhile_prefix _)

theorem window_cons {c : Char} (hc : c ≠ '\n') (tail : List Char) :
    ∃ rest, window (c :: tail) = c :: rest := by
  have hline : (c :: tail).takeWhile (· ≠ '\n') = c :: tail.takeWhile (· ≠ '\n') := by simp [hc]
  exact ⟨_, by rw [window, hline, quotedLength, List.take_succ_cons]⟩

/-- A text in single quotes. -/
def quoted (text : List Char) : String :=
  "'" ++ String.ofList text ++ "'"

theorem toList_quoted (text : List Char) : (quoted text).toList = '\'' :: (text ++ ['\'']) := by
  simp [quoted]

theorem quoted_inj {text other : List Char} (h : quoted text = quoted other) : text = other := by
  have hlist := congrArg String.toList h
  rw [toList_quoted, toList_quoted] at hlist
  exact List.append_cancel_right (List.cons.inj hlist).2

theorem quoted_ne_endOfLine (text : List Char) : quoted text ≠ "end of line" := by
  intro h
  have hlist := congrArg String.toList h
  rw [toList_quoted] at hlist
  cases hlist

variable {before tail : List Char} {c : Char} {message : String}

/-- A quotation in front of the end of the text. -/
theorem got_cases (before : List Char) (c : Char) (tail : List Char) (message : String) :
    (∀ b ∈ window (c :: tail), Blank.isBlank b = true) ∧
        got ⟨before ++ c :: tail, before.length, message⟩ = "end of line" ∨
      Blank.trim (window (c :: tail)) ≠ [] ∧
        got ⟨before ++ c :: tail, before.length, message⟩ =
          quoted (Blank.trim (window (c :: tail))) := by
  have hinside : ¬ (before ++ c :: tail).length ≤ before.length := by simp
  simp only [got, hinside, if_false, Position.lineAfter, List.drop_left]
  by_cases ht : Blank.trim (window (c :: tail)) = []
  · refine .inl ⟨Blank.trim_eq_nil_iff.1 ht, ?_⟩
    rw [window] at ht
    rw [ht]
    rfl
  · refine .inr ⟨ht, if_neg fun h => ht (List.isEmpty_iff.1 h)⟩

/-- A failing character is quoted exactly when it is no Unicode blank. -/
theorem got_quotes_iff (hc : c ≠ '\n') :
    (∃ text, text ≠ [] ∧ text <+: c :: tail ∧
        got ⟨before ++ c :: tail, before.length, message⟩ = quoted text) ↔
      Blank.isBlank c = false := by
  obtain ⟨rest, hwindow⟩ := window_cons hc tail
  have hgot := got_cases before c tail message
  constructor
  · rintro ⟨text, hne, hstart, htext⟩
    rcases hgot with ⟨-, hgot⟩ | ⟨-, hgot⟩
    · exact absurd (htext.symm.trans hgot) (quoted_ne_endOfLine text)
    · obtain rfl := quoted_inj (htext.symm.trans hgot)
      obtain ⟨d, rest', hd⟩ := List.exists_cons_of_ne_nil hne
      have hnext := Blank.notNext_trim (window (c :: tail))
      rw [hd] at hstart hnext
      obtain ⟨rfl, -⟩ := List.cons_prefix_cons.1 hstart
      exact Grammar.notNext_cons.1 hnext
  · intro hblank
    have hstart : (window (c :: tail)).takeWhile Blank.isBlank = [] := by
      rw [hwindow, List.takeWhile_cons, hblank]
      rfl
    have htrim := Blank.takeWhile_append_trim (window (c :: tail))
    rw [hstart, List.nil_append] at htrim
    rcases hgot with ⟨hall, -⟩ | ⟨hne, hgot⟩
    · have := hall c (by rw [hwindow]; exact List.mem_cons_self)
      rw [hblank] at this
      cases this
    · exact ⟨_, hne, htrim.trans (isPrefix_window _), hgot⟩

/-- A failing blank is left out. -/
theorem got_of_blank (hc : c ≠ '\n') (hblank : Blank.isBlank c = true) :
    (∀ b ∈ window (c :: tail), Blank.isBlank b = true) ∧
        got ⟨before ++ c :: tail, before.length, message⟩ = "end of line" ∨
      ∃ blanks text, blanks ≠ [] ∧ (∀ b ∈ blanks, Blank.isBlank b = true) ∧ text ≠ [] ∧
        blanks ++ text <+: c :: tail ∧
        got ⟨before ++ c :: tail, before.length, message⟩ = quoted text := by
  obtain ⟨rest, hwindow⟩ := window_cons hc tail
  refine (got_cases before c tail message).imp_right fun ⟨hne, hgot⟩ => ?_
  refine ⟨(window (c :: tail)).takeWhile Blank.isBlank, _, ?_,
    List.all_eq_true.1 List.all_takeWhile, hne,
    (Blank.takeWhile_append_trim _).trans (isPrefix_window _), hgot⟩
  rw [hwindow, List.takeWhile_cons, hblank, if_pos rfl]
  exact List.cons_ne_nil _ _

/-! ## Failing programs -/

open Grammar Tama.Parser

/-- **The quotation of a failure.** A text that is no program fails at a character that no statement
starts with, inside the text. What is quoted is a nonempty piece of the text that starts with this
character, exactly when this is no Unicode blank. Otherwise it is what follows the blanks there, or
nothing when there are only blanks. -/
theorem quotation_at_failure {source filename : String} {e : ParseError}
    (h : Program.read source filename = .error (.syntaxError e)) :
    ∃ before c tail, Tab.expand source.toList = before ++ c :: tail ∧
      e.location = before.length ∧
      (∀ nesting, (c :: tail).length < nesting →
        Fails (statementAt (expressionAt nesting) nesting) (c :: tail)) ∧
      ((∃ text, text ≠ [] ∧ text <+: c :: tail ∧ e.got = some (quoted text)) ↔
        Blank.isBlank c = false) ∧
      (Blank.isBlank c = true →
        (∀ b ∈ window (c :: tail), Blank.isBlank b = true) ∧ e.got = some "end of line" ∨
        ∃ blanks text, blanks ≠ [] ∧ (∀ b ∈ blanks, Blank.isBlank b = true) ∧ text ≠ [] ∧
          blanks ++ text <+: c :: tail ∧ e.got = some (quoted text)) := by
  obtain ⟨before, rest, wanted, htext, -, hfailed, hreport⟩ :=
    readWith_failure (.unlimited program_onward) h
  obtain ⟨trees, mid, c, tail, -, hfails, hskip, rfl⟩ := program_eq_failed (Nat.succ_pos _) hfailed
  have hstop : ∀ nesting, (c :: tail).length < nesting →
      Fails (statementAt (expressionAt nesting) nesting) (c :: tail) := by
    intro nesting hn
    have hlong : (c :: tail).length < (before ++ c :: tail).length + 1 := by
      rw [List.length_append]
      omega
    unfold Fails
    rw [(programStatement_stable hn hlong).eq _ (Nat.lt_succ_self _)]
    refine (programStatement_skipsFirst _).fails ?_ hfails
    rw [← hskip, skip_skip]
  have hc : c ≠ '\n' := by
    rintro rfl
    cases isGap_of_skip hskip
  obtain ⟨hlocation, -, hgot, -⟩ := ParseFailure.of_report hreport
  refine ⟨before, c, tail, htext, hlocation, hstop, ?_, fun hblank => ?_⟩
  · simpa only [hgot, Option.some.injEq] using got_quotes_iff hc
  · simpa only [hgot, Option.some.injEq] using got_of_blank hc hblank

/-- The quotation of a name where an operator or the end of a statement should stand. -/
theorem quotation_at_failure_of_name : ∃ e,
    Program.read "1; x y;" "<input>" = .error (.syntaxError e) ∧ e.location = 3 ∧
    ∃ text, text ≠ [] ∧ text <+: "x y;".toList ∧ e.got = some (quoted text) := by
  have hplace : (Program.syntaxError? "1; x y;" "<input>").map (·.location) = some 3 := by
    decide +kernel
  obtain ⟨e, he, hlocation⟩ := Option.map_eq_some_iff.1 hplace
  have hread := Program.read_of_syntaxError? he
  obtain ⟨before, c, tail, htext, hbefore, -, hquoted, -⟩ := quotation_at_failure hread
  have hlength : before.length = 3 := by
    have : (before.length : Int) = 3 := hbefore.symm.trans hlocation
    omega
  have hrest : (Tab.expand "1; x y;".toList).drop 3 = c :: tail := by
    rw [htext, List.drop_left' hlength]
  have hx : "x y;".toList = c :: tail := hrest
  obtain ⟨rfl, rfl⟩ := List.cons.inj hx
  exact ⟨e, hread, hlocation, hquoted.2 (by decide)⟩

/-- A no-break space at which no statement starts is not quoted: the report says that the line has
ended, or quotes what comes next. -/
theorem quotation_without_failure :
    (∃ e, Program.read "\u00a0" "<input>" = .error (.syntaxError e) ∧ e.location = 0 ∧
      e.got = some "end of line" ∧
      e.suggestions = ["Expression and assignment statements end with ';'"]) ∧
    ∃ e, Program.read "\u00a0y;" "<input>" = .error (.syntaxError e) ∧ e.location = 0 ∧
      e.got = some "'y;'" := by
  have hend : (Program.syntaxError? "\u00a0" "<input>").map
      (fun e => (e.location, e.got, e.suggestions)) = some (0, some "end of line",
        ["Expression and assignment statements end with ';'"]) := by decide +kernel
  have hnext : (Program.syntaxError? "\u00a0y;" "<input>").map (fun e => (e.location, e.got)) =
      some (0, some "'y;'") := by decide +kernel
  obtain ⟨e, he, hparts⟩ := Option.map_eq_some_iff.1 hend
  obtain ⟨e', he', hparts'⟩ := Option.map_eq_some_iff.1 hnext
  simp only [Prod.mk.injEq] at hparts hparts'
  exact ⟨⟨e, Program.read_of_syntaxError? he, hparts⟩,
    e', Program.read_of_syntaxError? he', hparts'⟩

end ParseFailure
end Tama
