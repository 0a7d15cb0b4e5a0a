import Tama.Proofs.Grammar.Acceptance
import Tama.Proofs.Run
import Tama.Proofs.Tree.Search
import Tama.Token.Lexer

/-!
# What can be listed

A literal that was read has no more digits than an integer may have to be written. So whatever is
read can be shown: every tree of a program can be laid out (`read_shows`), and every token of a
token stream can be rendered (`tokenize_renders`). Reading itself meets few faults (`read_eq_fault`,
`tokenize_eq_fault`).
-/

set_option autoImplicit false

namespace Tama

open Run

/-! ## Numbers -/

theorem Digit.value_le (c : Char) : (Digit.value? c).getD 0 ≤ 9 := by
  cases h : Digit.value? c with
  | none => exact Nat.zero_le 9
  | some v => exact Nat.le_of_lt_succ (Digit.value?_lt h)

theorem Digit.foldl_number_lt (digits : List Char) (n : Nat) :
    digits.foldl (fun n c => 10 * n + (Digit.value? c).getD 0) n <
      (n + 1) * Nat.pow 10 digits.length := by
  induction digits generalizing n with
  | nil => simp
  | cons c rest ih =>
    have hstep : 10 * n + (Digit.value? c).getD 0 + 1 ≤ (n + 1) * 10 := by
      have := Digit.value_le c
      omega
    calc
      _ < (10 * n + (Digit.value? c).getD 0 + 1) * Nat.pow 10 rest.length := ih _
      _ ≤ (n + 1) * 10 * Nat.pow 10 rest.length := Nat.mul_le_mul_right _ hstep
      _ = (n + 1) * Nat.pow 10 (rest.length + 1) := by
        rw [Nat.mul_assoc, Nat.mul_comm 10]
        rfl

theorem Digit.number_lt (digits : List Char) :
    Digit.number digits < Nat.pow 10 digits.length := by
  have h := Digit.foldl_number_lt digits 0
  rwa [Nat.zero_add, Nat.one_mul] at h

/-- A number that could be read can be written. -/
theorem Decimal.write_number {digits : List Char} (h : digits.length ≤ Decimal.maxDigits) :
    ∃ text, Decimal.write (Digit.number digits) = .ok text := by
  refine ⟨_, Decimal.write_eq_ok ?_⟩
  rw [Int.natAbs_natCast]
  generalize Decimal.maxDigits = limit at h ⊢
  exact Nat.lt_of_lt_of_le (Digit.number_lt digits) (Nat.pow_le_pow_right (by decide) h)

/-! ## Trees -/

namespace Tree

/-- A tree that can be laid out, at whatever level. -/
def Shows (t : Tree) : Prop :=
  ∀ level, ∃ text, t.layout level = .ok text

theorem not_shows_hole (f : Fault) : ¬ (hole f).Shows := by
  intro h
  obtain ⟨text, ht⟩ := h 0
  simp only [layout, line, label] at ht
  cases ht

theorem filled_of_shows {ts : List Tree} (h : ∀ t ∈ ts, t.Shows) : filled ts = .ok ts :=
  filled_eq_ok fun t ht f hf => not_shows_hole f (hf ▸ h t ht)

theorem line_of_shows {t : Tree} {text : String} (hl : t.label = .ok text)
    (hc : t.checkSlots = .ok ()) (hs : ∀ c ∈ t.slots, c.Shows) (level : Int) :
    ∃ line, t.line level = .ok line := by
  simp only [line, children, hl, hc, filled_of_shows hs]
  exact ⟨_, rfl⟩

theorem layoutAll_of_shows {ts : List Tree} (h : ∀ t ∈ ts, t.Shows) (level : Int) :
    ∃ text, layoutAll level ts = .ok text := by
  induction ts with
  | nil => exact ⟨"", by simp only [layoutAll]⟩
  | cons t rest ih =>
    obtain ⟨first, hfirst⟩ := h t List.mem_cons_self level
    obtain ⟨text, htext⟩ := ih fun t ht => h t (List.mem_cons_of_mem _ ht)
    simp only [layoutAll, hfirst, htext]
    exact ⟨_, rfl⟩

namespace Shows

/-- A tree without children is its line. -/
theorem of_leaf {t : Tree} {text : String} (h : ∀ level, t.layout level = t.line level)
    (hl : t.label = .ok text) (hc : t.checkSlots = .ok ()) (hs : t.slots = []) : t.Shows := by
  intro level
  rw [h level]
  exact line_of_shows hl hc (by rw [hs]; nofun) level

theorem int {n : Int} {text : String} (h : Decimal.write n = .ok text) : (Tree.int n).Shows := by
  have hl : (Tree.int n).label = .ok ("INT(" ++ text ++ ")") := by
    simp only [label, h]
    rfl
  exact of_leaf (fun level => by simp only [layout]) hl rfl rfl

theorem bool (b : Bool) : (Tree.bool b).Shows :=
  of_leaf (fun level => by simp only [layout]) rfl rfl rfl

theorem null : Tree.null.Shows :=
  of_leaf (fun level => by simp only [layout]) rfl rfl rfl

theorem var (x : String) : (Tree.var x).Shows :=
  of_leaf (fun level => by simp only [layout]) rfl rfl rfl

theorem add {l r : Tree} (hl : l.Shows) (hr : r.Shows) : (Tree.add l r).Shows := by
  intro level
  obtain ⟨head, hh⟩ := line_of_shows (t := .add l r) rfl rfl
    (by simpa [slots] using ⟨hl, hr⟩) level
  obtain ⟨left, hl⟩ := hl (level + 1)
  obtain ⟨right, hr⟩ := hr (level + 1)
  simp only [layout, hh, hl, hr]
  exact ⟨_, rfl⟩

theorem call (f : String) {args : List Tree} (h : ∀ a ∈ args, a.Shows) :
    (Tree.call f args).Shows := by
  intro level
  obtain ⟨head, hh⟩ := line_of_shows (t := .call f args) rfl rfl h level
  obtain ⟨text, ht⟩ := layoutAll_of_shows h (level + 1)
  simp only [layout, hh, ht]
  exact ⟨_, rfl⟩

theorem assignment (x : String) {e : Tree} (h : e.Shows) : (Tree.assignment x e).Shows := by
  intro level
  obtain ⟨head, hh⟩ := line_of_shows (t := .assignment x e) rfl rfl
    (by simpa [slots] using h) level
  obtain ⟨text, ht⟩ := h (level + 1)
  simp only [layout, hh, ht]
  exact ⟨_, rfl⟩

theorem conditional {c : Tree} {body : List Tree} (hc : c.Shows) (hb : ∀ t ∈ body, t.Shows) :
    (Tree.conditional c body).Shows := by
  intro level
  obtain ⟨head, hh⟩ := line_of_shows (t := .conditional c body) rfl rfl
    (by simpa [slots] using ⟨hc, hb⟩) level
  obtain ⟨first, hc⟩ := hc (level + 1)
  obtain ⟨text, ht⟩ := layoutAll_of_shows hb (level + 1)
  simp only [layout, hh, hc, ht]
  exact ⟨_, rfl⟩

theorem definition (f : String) (params : List String) {body : List Tree}
    (hb : ∀ t ∈ body, t.Shows) : (Tree.definition f params body).Shows := by
  intro level
  obtain ⟨head, hh⟩ := line_of_shows (t := .definition f params body) rfl rfl hb level
  obtain ⟨text, ht⟩ := layoutAll_of_shows hb (level + 1)
  simp only [layout, hh, ht]
  exact ⟨_, rfl⟩

end Shows

/-- A tree that can be laid out is laid out, unless it is too high for the stack. -/
theorem Shows.layoutOn {t : Tree} (h : t.Shows) (room : Nat) :
    t.height < room ∧ (∃ text, t.layoutOn room = .ok text) ∨
      room ≤ t.height ∧ t.layoutOn room = .error .tooDeep := by
  unfold Tree.layoutOn
  split
  · exact .inl ⟨‹_›, h 0⟩
  · exact .inr ⟨Nat.le_of_not_lt ‹_›, rfl⟩

end Tree

/-! ## Programs -/

namespace Grammar

mutual

theorem Operand.shows {ws : List Lexeme} {t : Tree} :
    Operand ws t → (∀ w ∈ ws, w.Readable) → t.Shows
  | .integer digits, hr => by
    obtain ⟨text, ht⟩ := Decimal.write_number (hr (.integer digits) (by simp))
    exact .int ht
  | .true, _ => .bool _
  | .false, _ => .bool _
  | .null, _ => .null
  | .call f h, hr => .call f (h.shows fun w hw => hr w (by simp [hw]))
  | .var x, _ => .var x
  | .parenthesized h, hr => Sum.shows h fun w hw => hr w (by simp [hw])

theorem Sum.shows {ws : List Lexeme} {t : Tree} :
    Sum Operand ws t → (∀ w ∈ ws, w.Readable) → t.Shows
  | .operand h, hr => Operand.shows h hr
  | .add hl hr', hr => .add (Sum.shows hl fun w hw => hr w (by simp [hw]))
      (Operand.shows hr' fun w hw => hr w (by simp [hw]))

theorem Listed.shows {ws : List Lexeme} {ts : List Tree} :
    Listed (Sum Operand) ws ts → (∀ w ∈ ws, w.Readable) → ∀ t ∈ ts, t.Shows
  | .none, _ => nofun
  | .some h, hr => Separated.shows h hr

theorem Separated.shows {ws : List Lexeme} {ts : List Tree} :
    Separated (Sum Operand) ws ts → (∀ w ∈ ws, w.Readable) → ∀ t ∈ ts, t.Shows
  | .one h, hr => by simpa using Sum.shows h hr
  | .cons h hs, hr => by
    simpa using ⟨Sum.shows h fun w hw => hr w (by simp [hw]),
      Separated.shows hs fun w hw => hr w (by simp [hw])⟩

end

mutual

theorem Statement.shows {ws : List Lexeme} {t : Tree} :
    Statement ws t → (∀ w ∈ ws, w.Readable) → t.Shows
  | .definition f _ hb, hr => .definition f _ (Star.shows hb fun w hw => hr w (by simp [hw]))
  | .conditional hc hb, hr => .conditional (Sum.shows hc fun w hw => hr w (by simp [hw]))
      (Star.shows hb fun w hw => hr w (by simp [hw]))
  | .assignment x h, hr => .assignment x (Sum.shows h fun w hw => hr w (by simp [hw]))
  | .expression h, hr => Sum.shows h fun w hw => hr w (by simp [hw])

theorem Star.shows {ws : List Lexeme} {ts : List Tree} :
    Star Statement ws ts → (∀ w ∈ ws, w.Readable) → ∀ t ∈ ts, t.Shows
  | .nil, _ => nofun
  | .cons h hs, hr => by
    simpa using ⟨Statement.shows h fun w hw => hr w (by simp [hw]),
      Star.shows hs fun w hw => hr w (by simp [hw])⟩

end

/-- Every tree of a program can be laid out. -/
theorem Derives.shows {text : List Char} {trees : List Tree} (h : Derives text trees) :
    ∀ t ∈ trees, t.Shows := by
  obtain ⟨ws, hws, hs⟩ := h
  exact hs.shows hws.readable

theorem read_shows {source filename : String} {trees : List Tree}
    (h : Program.read source filename = .ok trees) : ∀ t ∈ trees, t.Shows :=
  (read_eq_ok.1 h).shows

/-- Beside syntax errors a text meets the limit of digits. -/
theorem read_eq_fault {source filename : String} {f : Fault}
    (h : Program.read source filename = .error (.fault f)) :
    ∃ digits, f = .digits (.reading digits) := by
  have hdeep : f ≠ .tooDeep := fun hf => read_ne_tooDeep (hf ▸ h)
  unfold Program.read Program.readWith at h
  simp only at h
  split at h
  · cases h
  · rename_i cause _
    cases h
    cases cause with
    | tooLong digits => exact ⟨digits, rfl⟩
    | tooDeep => exact absurd rfl hdeep
  · cases h

/-- On a stack it also meets the lack of room. -/
theorem readWithin_eq_fault {fits : String → Bool} {source filename : String} {f : Fault}
    (h : Program.readWithin fits source filename = .error (.fault f)) :
    (∃ digits, f = .digits (.reading digits)) ∨ f = .tooDeep := by
  unfold Program.readWithin at h
  split at h
  · exact .inl (read_eq_fault h)
  · cases h
    exact .inr rfl

end Grammar

/-! ## Tokens -/

namespace Lexer

/-- A token with this content can be rendered. -/
def Renders (l : Lexeme) : Prop :=
  ∃ text, l.value.display = .ok text

/-- A text without tokens has an unknown character or a literal that is too long. -/
def IsLexical (e : LexFailure) : Prop :=
  ∀ f, e = .fault f → ∃ digits, f = .digits (.reading digits)

theorem render_of_renders {t : Token} (h : Renders t.lexeme) : ∃ text, t.render = .ok text := by
  obtain ⟨text, ht⟩ := h
  exact ⟨_, by simp only [Token.render, Token.describe, ht]; rfl⟩

theorem renders_int {n : Nat} (h : ∃ text, Decimal.write n = .ok text) : Renders (.int n) := by
  simpa only [Renders, Lexeme.value, Datum.display, Datum.literal] using h

theorem renders_ofWord (word : List Char) : Renders (ofWord word) := by
  unfold ofWord
  split <;> exact ⟨_, rfl⟩

theorem munch?_post {c : Char} {cs part rest : List Char} {l : Except DigitLimit Lexeme}
    (h : munch? c cs = some (l, part, rest)) :
    Post Renders (fun limit => ∃ digits, limit = .reading digits) l := by
  unfold munch? at h
  split at h
  · cases h
    unfold Decimal.read
    split
    · rename_i hd
      exact .ok (renders_int (Decimal.write_number hd))
    · exact .error ⟨_, rfl⟩
  split at h
  · cases h
    exact .ok ⟨_, rfl⟩
  split at h
  · cases h
    exact .ok ⟨_, rfl⟩
  split at h
  · cases h
    exact .ok (renders_ofWord _)
  · cases h

theorem scanLine_post (filename : String) (line column : Nat) (cs : List Char) :
    Post (fun ts : List Token => ∀ t ∈ ts, Renders t.lexeme) IsLexical
      (scanLine filename line column cs) := by
  fun_induction scanLine filename line column cs with
  | case1 => exact .ok (List.forall_mem_nil _)
  | case2 _ _ _ _ ih => exact ih
  | case3 => exact .error nofun
  | case4 _ _ _ _ limit part rest hm =>
    have hpost := munch?_post hm
    cases hpost with
    | error h =>
      obtain ⟨digits, rfl⟩ := h
      refine .error fun f hf => ⟨digits, ?_⟩
      cases hf
      rfl
  | case5 _ _ _ _ lexeme part rest hm _ ih =>
    have hpost := munch?_post hm
    cases hpost with
    | ok h => exact ih.bind fun tokens ht => .ok (by simpa using ⟨h, ht⟩)

theorem scanLines_post (filename : String) (lines : List (List Char)) (line : Nat) :
    Post (fun ts : List Token => ∀ t ∈ ts, Renders t.lexeme) IsLexical
      (scanLines filename line lines) := by
  induction lines generalizing line with
  | nil => exact .ok (List.forall_mem_nil _)
  | cons text rest ih =>
    refine (scanLine_post filename line 1 (stripComment text)).bind fun tokens ht => ?_
    refine (ih (line + 1)).bind fun others ho => .ok fun t h => ?_
    exact (List.mem_append.1 h).elim (ht t) (ho t)

theorem tokenize_post (text filename : String) :
    Post (fun ts : List Token => ∀ t ∈ ts, Renders t.lexeme) IsLexical
      (tokenize text filename) :=
  scanLines_post filename _ 1

/-- Every token of a text can be rendered. -/
theorem tokenize_renders {text filename : String} {tokens : List Token}
    (h : tokenize text filename = .ok tokens) : ∀ t ∈ tokens, ∃ shown, t.render = .ok shown := by
  have hpost := tokenize_post text filename
  rw [h] at hpost
  cases hpost with
  | ok h => exact fun t ht => render_of_renders (h t ht)

/-- Beside unknown characters the lexer meets the limit of digits. -/
theorem tokenize_eq_fault {text filename : String} {f : Fault}
    (h : tokenize text filename = .error (.fault f)) : ∃ digits, f = .digits (.reading digits) := by
  have hpost := tokenize_post text filename
  rw [h] at hpost
  cases hpost with
  | error h => exact h f rfl

end Lexer
end Tama
