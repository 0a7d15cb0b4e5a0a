import Tama.Proofs.Grammar.Semicolon
import Tama.Proofs.Grammar.Tokens
import Tama.Proofs.ParseError.Quotation

/-!
# The hint at a semicolon

A report hints at a missing semicolon if one was expected, or if it quotes nothing because the line
or the text has ended. A program fails where no further statement can be read, and all that is
expected there is the end of the text (`wanted_of_program`). So the hint is given only where nothing
but blanks stands on the line from the failure on (`hints_at_semicolon_iff`). Where a semicolon is
missing, the failure is the statement that lacks it, which is quoted: the hint is not given
(`missing_semicolon`).
-/

set_option autoImplicit false

namespace Tama

/-- The hint at a missing semicolon. -/
def Hint.semicolon : String :=
  "Expression and assignment statements end with ';'"

theorem Hint.semicolon_mem_suggest {got : String} {expected : List String} :
    semicolon ∈ suggest got expected ↔
      occurs ['\'', ';', '\''] (" ".intercalate expected).toList = true ∨
        got = "end of line" ∨ got = "end of input" := by
  simp [suggest, semicolon, or_assoc]

/-- All that is wanted where a program fails is the end of the text. -/
theorem Grammar.wanted_of_program {nesting : Nat} {text rest : List Char} {wanted : Wanted}
    (h : Parser.program nesting text = .failed rest wanted) : wanted = .endOfText := by
  rw [Parser.program, Parser.bind_apply] at h
  split at h
  · rename_i body mid _
    cases hskip : Parser.skip mid <;> simp only [Parser.bind_apply, Parser.ending, hskip] at h <;>
      cases h
    rfl
  · rename_i hbody
    exact absurd hbody (repeatUpTo_ne_failed _ _ _ _ _)
  · cases h

namespace ParseFailure

open Grammar Tama.Parser

theorem got_ne_endOfInput (before : List Char) (c : Char) (tail : List Char) (message : String) :
    got ⟨before ++ c :: tail, before.length, message⟩ ≠ "end of input" := by
  rcases got_cases before c tail message with ⟨-, h⟩ | ⟨-, h⟩ <;> rw [h]
  · decide
  · intro hquoted
    have hlist := congrArg String.toList hquoted
    rw [toList_quoted] at hlist
    cases hlist

/-- What the report of a program that fails is made of. -/
theorem report_of_program {source filename : String} {e : ParseError}
    (h : Program.read source filename = .error (.syntaxError e)) :
    ∃ before c tail quotation, Tab.expand source.toList = before ++ c :: tail ∧ c ≠ '\n' ∧
      quotation = got ⟨before ++ c :: tail, before.length, Wanted.endOfText.message⟩ ∧
      e.location = before.length ∧ e.expected = ["end of text"] ∧ e.got = some quotation ∧
      e.suggestions = Hint.suggest quotation ["end of text"] := by
  obtain ⟨before, rest, wanted, htext, -, hfailed, hreport⟩ :=
    readWith_failure (.unlimited program_onward) h
  obtain ⟨trees, mid, c, tail, -, -, hskip, rfl⟩ := program_eq_failed (Nat.succ_pos _) hfailed
  obtain rfl := wanted_of_program hfailed
  have hc : c ≠ '\n' := by
    rintro rfl
    cases isGap_of_skip hskip
  obtain ⟨hlocation, -, hgot, -⟩ := of_report hreport
  obtain ⟨hexpected, hsuggestions⟩ := hints_of_report hreport
  have hwanted : Expectation.ofMessage Wanted.endOfText.message = ["end of text"] := by
    decide +kernel
  dsimp only at hexpected hsuggestions
  rw [hwanted] at hexpected hsuggestions
  exact ⟨before, c, tail, _, htext, hc, rfl, hlocation, hexpected, hgot, hsuggestions⟩

/-- A semicolon is never what was expected, so the hint at it depends on the quotation alone. -/
theorem hints_at_semicolon_iff {source filename : String} {e : ParseError}
    (h : Program.read source filename = .error (.syntaxError e)) :
    Hint.semicolon ∈ e.suggestions ↔ e.got = some "end of line" := by
  obtain ⟨before, c, tail, quotation, -, -, rfl, -, -, hgot, hsuggestions⟩ := report_of_program h
  have hsemi : Hint.occurs ['\'', ';', '\''] (" ".intercalate ["end of text"]).toList = false := by
    decide
  rw [hsuggestions, Hint.semicolon_mem_suggest, hsemi, hgot, Option.some.injEq]
  simp [got_ne_endOfInput]

/-- **A missing semicolon is not hinted at.** A program whose last statement is an assignment or an
expression ends with the semicolon of this statement and what is skipped. Without the semicolon it
fails where the statement starts; what is quoted is the start of the statement, what is expected is
the end of the text, and so the hint at a semicolon is never given. -/
theorem missing_semicolon {source filename : String} {trees : List Tree} {t : Tree}
    (h : Program.read source filename = .ok (trees ++ [t]))
    (ht : ∃ tag ∈ Tree.semicolonTags, t.tag = .ok (.text tag)) :
    ∃ before statement gap, source.toList = before ++ (statement ++ ';' :: gap) ∧
      Program.read (String.ofList before) filename = .ok trees ∧ LastStatement t statement gap ∧
      ∃ e, Program.read (String.ofList (before ++ (statement ++ gap))) filename =
          .error (.syntaxError e) ∧
        e.location = (Tab.expand before).length ∧ e.expected = ["end of text"] ∧
        (∃ text, text ≠ [] ∧
          text <+: (Tab.expand (before ++ (statement ++ gap))).drop (Tab.expand before).length ∧
          e.got = some (quoted text)) ∧
        Hint.semicolon ∉ e.suggestions := by
  obtain ⟨before, statement, gap, hsource, hbefore, hends, c, tail, hc, hexpand, n, hn,
    hfailed⟩ := source_without_semicolon h ht
  have htext : Tab.expand (String.ofList (before ++ (statement ++ gap))).toList =
      Tab.expand before ++ c :: tail := by rw [String.toList_ofList, hexpand]
  rw [hexpand, ← htext] at hn hfailed
  obtain ⟨e, he, hlocation, -⟩ := read_of_failed filename htext hn hfailed
  obtain ⟨front, d, rest, quotation, hfront, hd, rfl, hplace, hexpected, hgot, -⟩ :=
    report_of_program he
  have hlength : front.length = (Tab.expand before).length := by
    have : (front.length : Int) = (Tab.expand before).length := hplace.symm.trans hlocation
    omega
  obtain ⟨rfl, hsame⟩ := List.append_inj (hfront.symm.trans htext) hlength
  obtain ⟨rfl, rfl⟩ := List.cons.inj hsame
  obtain ⟨text, hne, hstart, hquoted⟩ := (got_quotes_iff hd).2 (isBlank_of_starts hc)
  rw [hquoted] at hgot
  refine ⟨before, statement, gap, hsource, hbefore, hends, e, he, hlocation, hexpected,
    ⟨text, hne, ?_, hgot⟩, ?_⟩
  · rwa [hexpand, List.drop_left]
  · rw [hints_at_semicolon_iff he, hgot, Option.some.injEq]
    exact quoted_ne_endOfLine text

/-- The semicolon stands before the comment. -/
theorem missing_semicolon_before_comment :
    Program.read "a = 1; # one" "<input>" = .ok [.assignment "a" (.int 1)] ∧
    ∃ e, Program.read "a = 1 # one" "<input>" = .error (.syntaxError e) ∧
      e.expected = ["end of text"] ∧ Hint.semicolon ∉ e.suggestions := by
  have program : program 5 (Tab.expand "a = 1; # one".toList) =
      .done [.assignment "a" (.int 1)] [] := by cbv
  have read : Program.read "a = 1; # one" "<input>" = .ok ([] ++ [.assignment "a" (.int 1)]) :=
    read_of_program program
  have tagged : ∃ tag ∈ Tree.semicolonTags,
      (Tree.assignment "a" (.int 1)).tag = .ok (.text tag) := ⟨"ASSIGNMENT", by decide, rfl⟩
  obtain ⟨before, statement, gap, hsplit, -, -, e, he, -, hexpected, -, hhint⟩ :=
    missing_semicolon read tagged
  -- the text has one semicolon, so this is the one that is left out
  have hsource : (before ++ statement) ++ ';' :: gap =
      "a = 1".toList ++ ';' :: " # one".toList := by
    rw [List.append_assoc, ← hsplit]
    rfl
  have hlength : (before ++ statement).length = "a = 1".toList.length := by
    have hat : "a = 1; # one".toList[(before ++ statement).length]? = some ';' := by
      rw [hsplit, ← List.append_assoc]
      simp
    have hlt : (before ++ statement).length < "a = 1; # one".toList.length := by
      simp [hsplit]
    have only : ∀ n < "a = 1; # one".toList.length,
        "a = 1; # one".toList[n]? = some ';' → n = "a = 1".toList.length := by decide
    exact only _ hlt hat
  obtain ⟨hfront, hgap⟩ := List.append_inj hsource hlength
  have hdeleted : String.ofList (before ++ (statement ++ gap)) = "a = 1 # one" := by
    rw [← List.append_assoc, hfront, (List.cons.inj hgap).2]
    decide
  rw [hdeleted] at he
  exact ⟨read, e, he, hexpected, hhint⟩

/-- Nothing at all is suggested where an assignment lacks its semicolon. -/
theorem unhinted_semicolon :
    Program.read "a = 1;" "<input>" = .ok [.assignment "a" (.int 1)] ∧
    ∃ e, Program.read "a = 1" "<input>" = .error (.syntaxError e) ∧ e.location = 0 ∧
      e.suggestions = [] := by
  have program : program 5 (Tab.expand "a = 1;".toList) = .done [.assignment "a" (.int 1)] [] := by
    cbv
  have hparts :
      (Program.syntaxError? "a = 1" "<input>").map (fun e => (e.location, e.suggestions)) =
      some (0, []) := by decide +kernel
  obtain ⟨e, he, hplace⟩ := Option.map_eq_some_iff.1 hparts
  obtain ⟨hlocation, hsuggestions⟩ := Prod.mk.inj hplace
  exact ⟨read_of_program program, e, Program.read_of_syntaxError? he, hlocation,
    hsuggestions⟩

end ParseFailure
end Tama
