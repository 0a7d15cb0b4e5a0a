import Tama.Proofs.Grammar.Lexing
import Tama.Text.Tab

/-!
# Tabs between lexemes

Expansion puts spaces in the place of tabs, and both are gaps that no lexeme contains. So the
lexemes of a text are those of its expansion (`lexes_expandFrom`).
-/

set_option autoImplicit false

namespace Tama

/-! ## The start of an expansion -/

theorem Tab.expandFrom_tab (column : Nat) (text : List Char) :
    ∃ n column', expandFrom column ('\t' :: text) =
      List.replicate (n + 1) ' ' ++ expandFrom column' text := by
  have hstop : 0 < stop - column % stop := by
    unfold stop
    omega
  obtain ⟨n, hn⟩ := Nat.exists_eq_succ_of_ne_zero (Nat.pos_iff_ne_zero.1 hstop)
  exact ⟨n, column + (stop - column % stop), by rw [expandFrom, if_pos rfl, hn]⟩

/-- Where the next column is does not depend on what follows. -/
theorem Tab.exists_expandFrom_cons (column : Nat) {c : Char} (hc : c ≠ '\t') :
    ∃ column', ∀ text, expandFrom column (c :: text) = c :: expandFrom column' text := by
  by_cases hline : c = '\n' ∨ c = '\r'
  · exact ⟨0, fun text => by simp only [expandFrom, hc, hline, if_true, if_false]⟩
  · exact ⟨column + 1, fun text => by simp only [expandFrom, hc, hline, if_false]⟩

theorem Tab.expandFrom_cons (column : Nat) {c : Char} (hc : c ≠ '\t') (text : List Char) :
    ∃ column', expandFrom column (c :: text) = c :: expandFrom column' text :=
  (exists_expandFrom_cons column hc).imp fun _ h => h text

/-- A tab becomes a stop's width at most. -/
theorem Tab.length_expandFrom_le (column : Nat) (text : List Char) :
    (Tab.expandFrom column text).length ≤ Tab.stop * text.length := by
  induction text generalizing column with
  | nil => exact Nat.zero_le _
  | cons c text ih =>
    rw [List.length_cons, Nat.mul_succ]
    by_cases hc : c = '\t'
    · have hrest := ih (column + (stop - column % stop))
      rw [hc, expandFrom, if_pos rfl, List.length_append, List.length_replicate]
      omega
    · obtain ⟨next, hnext⟩ := exists_expandFrom_cons column hc
      have hrest := ih next
      rw [hnext, List.length_cons]
      exact Nat.add_le_add hrest (by decide)

theorem Tab.expandFrom_eq_nil {column : Nat} {text : List Char} :
    expandFrom column text = [] ↔ text = [] := by
  cases text with
  | nil => simp [expandFrom]
  | cons c text =>
    by_cases hc : c = '\t'
    · subst hc
      obtain ⟨n, column', he⟩ := expandFrom_tab column text
      simp [he]
    · obtain ⟨column', he⟩ := expandFrom_cons column hc text
      simp [he]

/-- An expansion begins as the text does, but with a space for a tab. -/
theorem Tab.head?_expandFrom (column : Nat) (text : List Char) :
    (expandFrom column text).head? = text.head?.map fun c => if c = '\t' then ' ' else c := by
  cases text with
  | nil => rfl
  | cons c text =>
    by_cases hc : c = '\t'
    · subst hc
      obtain ⟨n, column', he⟩ := expandFrom_tab column text
      simp [he, List.replicate_succ]
    · obtain ⟨column', he⟩ := expandFrom_cons column hc text
      simp [he, hc]

/-! ## Parts of a text -/

/-- What follows a text changes nothing in its expansion. -/
theorem Tab.expandFrom_append (column : Nat) (text : List Char) :
    ∃ column', ∀ more,
      expandFrom column (text ++ more) = expandFrom column text ++ expandFrom column' more := by
  induction text generalizing column with
  | nil => exact ⟨column, fun more => rfl⟩
  | cons c text ih =>
    simp only [List.cons_append, expandFrom]
    split
    · obtain ⟨column', h⟩ := ih (column + (stop - column % stop))
      exact ⟨column', fun more => by rw [h, List.append_assoc]⟩
    split
    · obtain ⟨column', h⟩ := ih 0
      exact ⟨column', fun more => by rw [h, List.cons_append]⟩
    · obtain ⟨column', h⟩ := ih (column + 1)
      exact ⟨column', fun more => by rw [h, List.cons_append]⟩

/-- A character other than a space stands in an expansion because it stands in the text. -/
theorem Tab.exists_of_expandFrom {column : Nat} {text before rest : List Char} {c : Char}
    (hc : c ≠ ' ') (h : expandFrom column text = before ++ c :: rest) :
    ∃ front back, text = front ++ c :: back ∧ expandFrom column front = before := by
  induction text generalizing column before with
  | nil => simp [expandFrom] at h
  | cons d text ih =>
    by_cases hd : d = '\t'
    · subst hd
      simp only [expandFrom, if_true] at h
      have hspaces : ∃ inner, before = List.replicate (stop - column % stop) ' ' ++ inner ∧
          expandFrom (column + (stop - column % stop)) text = inner ++ c :: rest := by
        rcases List.append_eq_append_iff.1 h with hsplit | ⟨inner, hspaces, hrest⟩
        · exact hsplit
        cases inner with
        | nil => exact ⟨[], by simpa using hspaces.symm, by simpa using hrest.symm⟩
        | cons b inner =>
          obtain ⟨rfl, -⟩ := List.cons.inj hrest
          have hmem : c ∈ List.replicate (stop - column % stop) ' ' := by simp [hspaces]
          exact absurd (List.eq_of_mem_replicate hmem) hc
      obtain ⟨inner, rfl, hrest⟩ := hspaces
      obtain ⟨front, back, rfl, rfl⟩ := ih hrest
      exact ⟨'\t' :: front, back, rfl, by simp only [expandFrom, if_true]⟩
    · obtain ⟨column', hstep⟩ := exists_expandFrom_cons column hd
      rw [hstep] at h
      cases before with
      | nil =>
        obtain ⟨rfl, -⟩ := List.cons.inj h
        exact ⟨[], text, rfl, rfl⟩
      | cons b before =>
        obtain ⟨rfl, hrest⟩ := List.cons.inj h
        obtain ⟨front, back, rfl, rfl⟩ := ih hrest
        exact ⟨d :: front, back, rfl, hstep front⟩

/-- An expansion parts where the text does. -/
theorem Tab.split_expandFrom {column : Nat} {text before rest : List Char} {c : Char}
    (hc : c ≠ ' ') (h : expandFrom column text = before ++ c :: rest) :
    ∃ front back column', text = front ++ c :: back ∧ expandFrom column front = before ∧
      expandFrom column' (c :: back) = c :: rest ∧
      ∀ more, expandFrom column (front ++ more) = before ++ expandFrom column' more := by
  obtain ⟨front, back, rfl, rfl⟩ := exists_of_expandFrom hc h
  obtain ⟨column', hfollow⟩ := expandFrom_append column front
  exact ⟨front, back, column', rfl, rfl, List.append_cancel_left ((hfollow _).symm.trans h),
    hfollow⟩

namespace Grammar

open Tama.Parser

/-! ## Skipping -/

theorem skipFrom_replicate (inComment : Bool) (n : Nat) (text : List Char) :
    skipFrom inComment (List.replicate n ' ' ++ text) = skipFrom inComment text := by
  induction n with
  | zero => rfl
  | succ n ih => cases inComment <;> simp [List.replicate_succ, skipFrom, Blank.isGap, ih]

theorem skipFrom_expandFrom (inComment : Bool) (column : Nat) (text : List Char) :
    ∃ column', skipFrom inComment (Tab.expandFrom column text) =
      Tab.expandFrom column' (skipFrom inComment text) := by
  induction text generalizing inComment column with
  | nil => exact ⟨column, by cases inComment <;> rfl⟩
  | cons c text ih =>
    by_cases hc : c = '\t'
    · subst hc
      obtain ⟨n, next, he⟩ := Tab.expandFrom_tab column text
      rw [he, skipFrom_replicate]
      cases inComment <;> exact ih _ next
    · obtain ⟨next, he⟩ := Tab.expandFrom_cons column hc text
      rw [he]
      cases inComment with
      | true =>
        simp only [skipFrom]
        split <;> exact ih _ next
      | false =>
        -- whether a comment starts depends on the next character, which only a tab changes
        have hnext : (Tab.expandFrom next text).head? = some '/' ↔ text.head? = some '/' := by
          rw [Tab.head?_expandFrom]
          cases text with
          | nil => simp
          | cons d text => by_cases hd : d = '\t' <;> simp [hd]
        simp only [skipFrom, hnext]
        split
        · exact ih _ next
        · split
          · exact ih _ next
          · exact ⟨column, he.symm⟩

theorem skip_expandFrom (column : Nat) (text : List Char) :
    ∃ column', skip (Tab.expandFrom column text) = Tab.expandFrom column' (skip text) :=
  skipFrom_expandFrom false column text

/-! ## Lexemes -/

theorem ne_tab_of_starts {c : Char} (h : starts c = true) : c ≠ '\t' :=
  ne_of_starts h (by simp)

theorem expandFrom_append {word : List Char} (hw : ∀ c ∈ word, starts c = true) (column : Nat)
    (rest : List Char) :
    ∃ column', Tab.expandFrom column (word ++ rest) = word ++ Tab.expandFrom column' rest := by
  induction word generalizing column with
  | nil => exact ⟨column, rfl⟩
  | cons c word ih =>
    have hc := ne_tab_of_starts (hw c List.mem_cons_self)
    obtain ⟨next, he⟩ := Tab.expandFrom_cons column hc (word ++ rest)
    obtain ⟨column', ht⟩ := ih (fun d hd => hw d (List.mem_cons_of_mem c hd)) next
    exact ⟨column', by rw [List.cons_append, he, ht, List.cons_append]⟩

theorem append_eq_expandFrom {word : List Char} (hw : ∀ c ∈ word, starts c = true) {column : Nat}
    {text rest' : List Char} (h : word ++ rest' = Tab.expandFrom column text) :
    ∃ column' rest, text = word ++ rest ∧ rest' = Tab.expandFrom column' rest := by
  induction word generalizing column text with
  | nil => exact ⟨column, text, rfl, h⟩
  | cons c word ih =>
    have hc := hw c List.mem_cons_self
    cases text with
    | nil => cases h
    | cons d text =>
      by_cases hd : d = '\t'
      · subst hd
        obtain ⟨n, next, he⟩ := Tab.expandFrom_tab column text
        rw [he, List.replicate_succ] at h
        exact absurd (List.cons.inj h).1 (ne_of_starts hc (by simp))
      · obtain ⟨next, he⟩ := Tab.expandFrom_cons column hd text
        rw [he] at h
        obtain ⟨rfl, ht⟩ := List.cons.inj h
        obtain ⟨column', rest, rfl, hr⟩ := ih (fun d hd => hw d (List.mem_cons_of_mem c hd)) ht
        exact ⟨column', rest, rfl, hr⟩

theorem beginsAs_expandFrom (column : Nat) (text : List Char) :
    BeginsAs (Tab.expandFrom column text) text ∧ BeginsAs text (Tab.expandFrom column text) := by
  unfold BeginsAs
  rw [Tab.head?_expandFrom]
  cases text with
  | nil => simp
  | cons c text =>
    by_cases hc : c = '\t'
    · simp [hc, Blank.isGap]
    · simp [hc]

theorem Spells.expandFrom {text rest : List Char} {w : Lexeme} (h : Spells text w rest)
    (column : Nat) :
    ∃ column', Spells (Tab.expandFrom column text) w (Tab.expandFrom column' rest) := by
  obtain ⟨word, rfl, hw, hfollow⟩ := h.exists_word
  obtain ⟨column', he⟩ := expandFrom_append hw column rest
  rw [he]
  exact ⟨column', hfollow _ (beginsAs_expandFrom column' rest).1⟩

theorem Spells.of_expandFrom {text rest' : List Char} {w : Lexeme} {column : Nat}
    (h : Spells (Tab.expandFrom column text) w rest') :
    ∃ column' rest, rest' = Tab.expandFrom column' rest ∧ Spells text w rest := by
  obtain ⟨word, htext, hw, hfollow⟩ := h.exists_word
  obtain ⟨column', rest, rfl, rfl⟩ := append_eq_expandFrom hw htext.symm
  exact ⟨column', rest, rfl, hfollow rest (beginsAs_expandFrom column' rest).2⟩

/-- A text and its expansion have the same lexemes. -/
theorem lexes_expandFrom {column : Nat} {text : List Char} {ws : List Lexeme} :
    Lexes (Tab.expandFrom column text) ws ↔ Lexes text ws := by
  induction ws generalizing column text with
  | nil =>
    obtain ⟨next, hskip⟩ := skip_expandFrom column text
    rw [lexes_nil_iff, lexes_nil_iff, hskip, Tab.expandFrom_eq_nil]
  | cons w ws ih =>
    obtain ⟨next, hskip⟩ := skip_expandFrom column text
    rw [lexes_cons_iff, lexes_cons_iff, hskip]
    constructor
    · rintro ⟨rest', hw, hr⟩
      obtain ⟨column', rest, rfl, hspells⟩ := hw.of_expandFrom
      exact ⟨rest, hspells, ih.1 hr⟩
    · rintro ⟨rest, hw, hr⟩
      obtain ⟨column', hspells⟩ := hw.expandFrom next
      exact ⟨_, hspells, ih.2 hr⟩

end Grammar
end Tama
