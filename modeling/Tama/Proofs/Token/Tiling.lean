import Mathlib.Data.List.Pairwise
import Tama.Proofs.Token.Pass

/-!
# Tokens tile the source

The spans of the tokens of a text lie one behind the other and quote it, and between them there is
nothing but blanks and comments; a text has no tokens only for an unknown character or for a literal
that is too long, and whichever comes first is reported (`tokens_tile`).

All of this is read off the way of the scan through the text (`Passes`). It speaks of offsets, which
is what places are ordered by; a span speaks of lines and columns.
-/

set_option autoImplicit false

namespace Tama

open Position

/-! ## Spans -/

namespace Span

/-- A span covers a place. -/
def Covers (s : Span) (line column : Nat) : Prop :=
  s.startLine = line ∧ s.startColumn ≤ column ∧ column < s.endColumn

/-- A span ends before another one begins. -/
def Precedes (s t : Span) : Prop :=
  s.endLine < t.startLine ∨ s.endLine = t.startLine ∧ s.endColumn ≤ t.startColumn

/-- A span lies on one line of a text, has the width of its own text, which is not empty, and the
line has this text at the columns of the span. -/
structure Quotes (text : List Char) (s : Span) : Prop where
  endLine_eq : s.endLine = s.startLine
  endColumn_eq : s.endColumn = s.startColumn + s.text.length
  nonempty : 0 < s.text.length
  quoted : ∃ (line column : Nat) (whole : List Char), s.startLine = line + 1 ∧
    s.startColumn = column + 1 ∧ (lines text)[line]? = some whole ∧
    (whole.drop column).take s.text.length = s.text.toList

theorem Precedes.not_covers {s t : Span} (h : s.Precedes t) (hs : s.endLine = s.startLine)
    {line column : Nat} (hc : s.Covers line column) : ¬ t.Covers line column := by
  unfold Precedes Covers at *
  omega

end Span

/-! ## Tokens at their places -/

namespace Token.Stands

variable {filename : String} {text before part after : List Char} {t : Token}

theorem not_mem_newline (h : t.Stands filename text before part after) : '\n' ∉ part :=
  fun hm => Grammar.ne_of_starts (h.read.starts _ hm) (by simp) rfl

theorem length_pos (h : t.Stands filename text before part after) : 0 < part.length :=
  List.length_pos_of_ne_nil h.read.ne_nil

theorem le_length (h : t.Stands filename text before part after) :
    before.length + part.length ≤ text.length := by
  rw [h.text_eq, List.length_append, List.length_append]
  omega

/-- The place where a token ends is on its line, behind its characters. -/
theorem place_end (h : t.Stands filename text before part after) :
    t.span.startLine = line text before.length ∧ t.span.endLine = line text before.length ∧
      t.span.startColumn = column text before.length ∧
      t.span.endColumn = column text (before.length + part.length) ∧
      line text (before.length + part.length) = line text before.length := by
  have hline := line_add before h.not_mem_newline after
  have hcolumn := column_add before h.not_mem_newline after
  rw [← h.text_eq] at hline hcolumn
  rw [h.span_eq, hline, hcolumn]
  exact ⟨rfl, rfl, rfl, rfl, rfl⟩

theorem quotes (h : t.Stands filename text before part after) : t.span.Quotes text := by
  obtain ⟨rest, hown⟩ := exists_line_at before h.not_mem_newline after
  rw [← h.text_eq] at hown
  have hcolumn := column_append before (part ++ after)
  rw [← h.text_eq] at hcolumn
  have hlength : (String.ofList part).length = part.length := by simp
  rw [h.span_eq]
  refine ⟨rfl, ?_, ?_, line text before.length - 1, (lineBefore text before.length).length, _,
    ?_, ?_, hown, ?_⟩
  · simp [Lexer.spanOf]
  · rw [Lexer.spanOf, hlength]
    exact h.length_pos
  · simp [Lexer.spanOf, line]
  · simp [Lexer.spanOf, hcolumn]
  · simp [Lexer.spanOf]

/-- A token covers the places of its characters and no others. -/
theorem covers_iff (h : t.Stands filename text before part after) {i : Nat} (hi : i < text.length) :
    t.span.Covers (line text i) (column text i) ↔
      before.length ≤ i ∧ i < before.length + part.length := by
  obtain ⟨hstart, -, hcolumn, hend, hsame⟩ := h.place_end
  rw [Span.Covers, hstart, hcolumn, hend]
  constructor
  · rintro ⟨hline, hle, hlt⟩
    refine ⟨Nat.not_lt.1 fun hi => ?_, Nat.not_le.1 fun hi' => ?_⟩
    · have := place_lt hi (Nat.le_trans (Nat.le_add_right _ _) h.le_length)
      omega
    · rcases Nat.eq_or_lt_of_le hi' with rfl | hi'
      · omega
      · have := place_lt hi' (Nat.le_of_lt hi)
        omega
  · rintro ⟨hle, hlt⟩
    have hfirst : line text before.length < line text i ∨ line text before.length = line text i ∧
        column text before.length ≤ column text i := by
      rcases Nat.eq_or_lt_of_le hle with rfl | hle
      · exact .inr ⟨rfl, Nat.le_refl _⟩
      · have := place_lt hle (Nat.le_of_lt hi)
        omega
    have hlast := place_lt hlt h.le_length
    omega

/-- No literal that is too long begins in a token. -/
theorem not_longLiteral (h : t.Stands filename text before part after) {i n : Nat}
    (hle : before.length ≤ i) (hlt : i < before.length + part.length) :
    ¬ Lexer.LongLiteralAt text i n := by
  rintro ⟨-, hlong, front, digits, back, htext, hfront, rfl, hdigits, -, hsettled⟩
  obtain ⟨k, rfl⟩ := Nat.exists_eq_add_of_le hle
  have hk : k < part.length := by omega
  have hread := h.read
  have heq := h.text_eq.symm.trans htext
  rw [← List.take_append_drop k part] at hread heq
  rw [List.append_assoc, ← List.append_assoc before] at heq
  obtain ⟨rfl, hrest⟩ := List.append_inj heq (by
    rw [hfront, List.length_append, List.length_take, Nat.min_eq_left (Nat.le_of_lt hk)])
  have hne : part.drop k ≠ [] := by
    rw [Ne, List.drop_eq_nil_iff]
    omega
  exact absurd (hread.digits_length hne (hrest ▸ hsettled) hrest hdigits) (Nat.not_le.2 hlong)

/-- A token that stands behind another one has its span behind that of the other. -/
theorem precedes (h : t.Stands filename text before part after) {t' : Token}
    {before' part' after' : List Char} (h' : t'.Stands filename text before' part' after')
    (hle : before.length + part.length ≤ before'.length) : t.span.Precedes t'.span := by
  obtain ⟨-, hline, -, hcolumn, hsame⟩ := h.place_end
  obtain ⟨hline', -, hcolumn', -, -⟩ := h'.place_end
  rw [Span.Precedes, hline, hcolumn, hline', hcolumn']
  rcases Nat.eq_or_lt_of_le hle with heq | hlt
  · rw [← heq, hsame]
    exact .inr ⟨rfl, Int.le_refl _⟩
  · have := place_lt hlt (Nat.le_trans (Nat.le_add_right _ _) h'.le_length)
    omega

end Token.Stands

namespace Lexer

variable {filename : String} {text : List Char} {n m : Nat} {tokens : List Token}

/-- Such a literal begins with a digit. -/
theorem LongLiteralAt.exists_digit (h : LongLiteralAt text n m) :
    ∃ c, text[n]? = some c ∧ Digit.isDigit c = true := by
  obtain ⟨-, hlong, before, digits, after, rfl, rfl, rfl, hdigits, -⟩ := h
  obtain ⟨c, digits, rfl⟩ := List.exists_cons_of_length_pos (Nat.zero_lt_of_lt hlong)
  exact ⟨c, by simp, hdigits c List.mem_cons_self⟩

/-- It is no unknown character. -/
theorem LongLiteralAt.not_unknown (h : LongLiteralAt text n m) {c : Char} :
    ¬ UnknownAt text n c := by
  intro hu
  obtain ⟨d, hd, hdigit⟩ := h.exists_digit
  cases hd.symm.trans hu.get
  rw [hu.not_digit] at hdigit
  cases hdigit

/-- Only so many digits stand there. -/
theorem LongLiteralAt.unique {k : Nat} (h : LongLiteralAt text n m) (h' : LongLiteralAt text n k) :
    m = k := by
  obtain ⟨-, -, before, digits, after, rfl, rfl, rfl, hdigits, hafter, -⟩ := h
  obtain ⟨-, -, front, others, back, heq, hfront, rfl, hothers, hback, -⟩ := h'
  have hrest := (List.append_inj heq hfront.symm).2
  rw [← Grammar.takeWhile_append hdigits hafter, hrest, Grammar.takeWhile_append hothers hback]

/-! ## The way of the scan -/

namespace Passes

theorem stands (h : Passes filename text n tokens m) : ∀ t ∈ tokens, ∃ before part after,
    t.Stands filename text before part after ∧ n ≤ before.length ∧
      ∀ i, before.length ≤ i → i < before.length + part.length → ¬ Commented text i := by
  induction h with
  | done n => exact List.forall_mem_nil _
  | blank _ _ _ ih =>
    intro t ht
    obtain ⟨before, part, after, hs, hle, hn⟩ := ih t ht
    exact ⟨before, part, after, hs, Nat.le_of_succ_le hle, hn⟩
  | comment hlt _ _ _ ih =>
    intro t ht
    obtain ⟨before, part, after, hs, hle, hn⟩ := ih t ht
    exact ⟨before, part, after, hs, Nat.le_trans (Nat.le_of_lt hlt) hle, hn⟩
  | token hstands hnot _ ih =>
    intro t ht
    rcases List.mem_cons.1 ht with rfl | ht
    · exact ⟨_, _, _, hstands, Nat.le_refl _, hnot⟩
    · obtain ⟨before, part, after, hs, hle, hn⟩ := ih t ht
      exact ⟨before, part, after, hs, Nat.le_trans (Nat.le_add_right _ _) hle, hn⟩

theorem ordered (h : Passes filename text n tokens m) :
    tokens.Pairwise fun s t => s.span.Precedes t.span := by
  induction h with
  | done n => exact .nil
  | blank _ _ _ ih => exact ih
  | comment _ _ _ _ ih => exact ih
  | token hstands _ hp ih =>
    refine .cons (fun t ht => ?_) ih
    obtain ⟨before, part, after, hs, hle, -⟩ := hp.stands t ht
    exact hstands.precedes hs hle

/-- What the scan has passed is blank, lies in a comment or is covered by a token. -/
theorem passed (h : Passes filename text n tokens m) {i : Nat} {c : Char} (hn : n ≤ i) (hm : i < m)
    (hc : text[i]? = some c) : Blank.isBlank c = true ∨ Commented text i ∨
      ∃ t ∈ tokens, t.span.Covers (line text i) (column text i) := by
  have hi : i < text.length := (List.getElem?_eq_some_iff.1 hc).1
  induction h with
  | done n => omega
  | @blank n m d tokens hd hblank _ ih =>
    rcases Nat.eq_or_lt_of_le hn with rfl | hn
    · cases hd.symm.trans hc
      exact .inl hblank
    · exact ih hn hm
  | @comment n k m tokens _ _ hcommented _ ih =>
    by_cases hk : i < k
    · exact .inr (.inl (hcommented i hn hk))
    · exact ih (Nat.not_lt.1 hk) hm
  | @token before part after m t tokens hstands _ _ ih =>
    by_cases hk : i < before.length + part.length
    · exact .inr (.inr ⟨t, List.mem_cons_self, (hstands.covers_iff hi).2 ⟨hn, hk⟩⟩)
    · obtain hb | hcomment | ⟨t', ht', hcover⟩ := ih (Nat.not_lt.1 hk) hm
      · exact .inl hb
      · exact .inr (.inl hcomment)
      · exact .inr (.inr ⟨t', List.mem_cons_of_mem t ht', hcover⟩)

/-- A character that a token covers is no blank, lies in no comment and can start a token. -/
theorem of_covers (h : Passes filename text n tokens m) {i : Nat} {c : Char}
    (hc : text[i]? = some c) {t : Token} (ht : t ∈ tokens)
    (hcover : t.span.Covers (line text i) (column text i)) :
    Grammar.starts c = true ∧ ¬ Commented text i := by
  obtain ⟨before, part, after, hs, -, hn⟩ := h.stands t ht
  obtain ⟨hle, hlt⟩ := (hs.covers_iff (List.getElem?_eq_some_iff.1 hc).1).1 hcover
  refine ⟨hs.read.starts c ?_, hn i hle hlt⟩
  rw [hs.text_eq, List.getElem?_append_right hle, List.getElem?_append_left (by omega)] at hc
  exact List.mem_of_getElem? hc

/-- No two tokens cover the same place. -/
theorem covers_unique (h : Passes filename text n tokens m) {s t : Token} (hs : s ∈ tokens)
    (ht : t ∈ tokens) {line column : Nat} (hcs : s.span.Covers line column)
    (hct : t.span.Covers line column) : s = t := by
  by_contra hne
  have hdisjoint : tokens.Pairwise fun s t =>
      ∀ line column, s.span.Covers line column → ¬ t.span.Covers line column := by
    refine h.ordered.imp_of_mem fun {s t} hs _ hp line column => ?_
    obtain ⟨before, part, after, hstands, -⟩ := h.stands s hs
    exact hp.not_covers hstands.quotes.endLine_eq
  have hsymm : Std.Symm fun s t : Token =>
      ∀ line column, s.span.Covers line column → ¬ t.span.Covers line column :=
    ⟨fun s t h line column ht hs => h line column hs ht⟩
  exact hdisjoint.forall hs ht hne line column hcs hct

/-- What the scan has passed is not unknown. -/
theorem not_unknown (h : Passes filename text n tokens m) {i : Nat} {c : Char} (hn : n ≤ i)
    (hm : i < m) : ¬ UnknownAt text i c := by
  intro hu
  obtain hb | hcomment | ⟨t, ht, hcover⟩ := h.passed hn hm hu.get
  · rw [hu.not_blank] at hb
    cases hb
  · exact hu.not_commented hcomment
  · obtain ⟨hstarts, -⟩ := h.of_covers hu.get ht hcover
    simp [Grammar.starts, hu.not_digit, hu.not_start, hu.not_symbol] at hstarts

/-- No literal that is too long begins in what the scan has passed. -/
theorem not_longLiteral (h : Passes filename text n tokens m) {i k : Nat} (hn : n ≤ i)
    (hm : i < m) : ¬ LongLiteralAt text i k := by
  intro hlong
  obtain ⟨c, hc, hdigit⟩ := hlong.exists_digit
  have hi : i < text.length := (List.getElem?_eq_some_iff.1 hc).1
  obtain hb | hcomment | ⟨t, ht, hcover⟩ := h.passed hn hm hc
  · rw [Grammar.isBlank_of_starts (by simp [Grammar.starts, hdigit])] at hb
    cases hb
  · exact hlong.not_commented hcomment
  · obtain ⟨before, part, after, hs, -, -⟩ := h.stands t ht
    obtain ⟨hle, hlt⟩ := (hs.covers_iff hi).1 hcover
    exact hs.not_longLiteral hle hlt hlong

end Passes

/-! ## The tiling -/

/-- The span of one character, as a message shows it. -/
theorem render_spanOf (filename : String) (line column : Nat) (c : Char) :
    (spanOf filename line column [c]).render = filename ++ ":" ++ toString line ++ ":" ++
      toString column ++ "-" ++ toString (column + 1) := by
  have hline : (spanOf filename line column [c]).startLine =
      (spanOf filename line column [c]).endLine := rfl
  have hint : ∀ n : Nat, toString (n : Int) = toString n := fun _ => rfl
  rw [Span.render, if_pos hline]
  show filename ++ ":" ++ toString (line : Int) ++ ":" ++ toString (column : Int) ++ "-" ++
    toString ((column + 1 : Nat) : Int) = _
  rw [hint, hint, hint]

/-- An unknown character is reported with the place where it stands. -/
theorem message_unknown (filename : String) (line column : Nat) (c : Char) :
    (LexFailure.unknown c (spanOf filename line column [c])).message =
      "Unknown character '" ++ String.singleton c ++ "' at " ++ (filename ++ ":" ++
        toString line ++ ":" ++ toString column ++ "-" ++ toString (column + 1)) :=
  congrArg ("Unknown character '" ++ String.singleton c ++ "' at " ++ ·)
    (render_spanOf filename line column c)

/-- Tokens tile a text. Their spans lie one behind the other; each stands somewhere in the text,
where its span quotes it; and every character of the text is covered by exactly one of them, or by
none if it is a blank, a line feed among them, or lies in a comment. -/
structure Tiles (filename : String) (text : List Char) (tokens : List Token) : Prop where
  ordered : tokens.Pairwise fun s t => s.span.Precedes t.span
  stands : ∀ t ∈ tokens, ∃ before part after, t.Stands filename text before part after
  quotes : ∀ t ∈ tokens, t.span.Quotes text
  covered : ∀ i c, text[i]? = some c → ¬ (Blank.isBlank c = true ∨ Commented text i) →
    ∃! t, t ∈ tokens ∧ t.span.Covers (line text i) (column text i)
  bare : ∀ i c, text[i]? = some c → Blank.isBlank c = true ∨ Commented text i →
    ∀ t ∈ tokens, ¬ t.span.Covers (line text i) (column text i)

theorem Passes.tiles (h : Passes filename text 0 tokens text.length) :
    Tiles filename text tokens where
  ordered := h.ordered
  stands t ht := by
    obtain ⟨before, part, after, hs, -⟩ := h.stands t ht
    exact ⟨before, part, after, hs⟩
  quotes t ht := by
    obtain ⟨before, part, after, hs, -⟩ := h.stands t ht
    exact hs.quotes
  covered i c hc hnot := by
    have hi : i < text.length := (List.getElem?_eq_some_iff.1 hc).1
    obtain hb | hcomment | ⟨t, ht, hcover⟩ := h.passed (Nat.zero_le i) hi hc
    · exact absurd (.inl hb) hnot
    · exact absurd (.inr hcomment) hnot
    · exact ⟨t, ⟨ht, hcover⟩, fun s hs => h.covers_unique hs.1 ht hs.2 hcover⟩
  bare i c hc hbare t ht hcover := by
    obtain ⟨hstarts, hn⟩ := h.of_covers hc ht hcover
    refine hbare.elim (fun hb => ?_) hn
    rw [Grammar.isBlank_of_starts hstarts] at hb
    cases hb

/-- The scan of a text begins at its start. -/
theorem tokenize_scanned (source filename : String) : ∃ tokens m,
    Passes filename source.toList 0 tokens m ∧
      Ending filename source.toList m tokens (tokenize source filename) := by
  have hscanned : Scanned filename source.toList [] source.toList :=
    (reached_start source.toList).scanned
  have hline : line source.toList 0 = 1 := by simp [line]
  have hcolumn : column source.toList 0 = 1 := by simp [column, lineBefore]
  rw [Scanned, List.length_nil, hline, hcolumn, ← tokenize_eq_scanFrom] at hscanned
  exact hscanned

/-- **Tokens tile the source.** The tokens of a text tile it. Two things stop the tokenizer, the one
that comes first: an unknown character, which is reported with its place, and a literal with too
many digits. Nothing else does. -/
theorem tokens_tile (source filename : String) :
    (∀ tokens, tokenize source filename = .ok tokens → Tiles filename source.toList tokens) ∧
    ((∃ c span, tokenize source filename = .error (.unknown c span)) ↔
      ∃ i c, UnknownAt source.toList i c ∧ ∀ j < i, ∀ digits,
        ¬ LongLiteralAt source.toList j digits) ∧
    (∀ c span, tokenize source filename = .error (.unknown c span) →
      ∃ i, UnknownAt source.toList i c ∧ (∀ j < i, ∀ d, ¬ UnknownAt source.toList j d) ∧
        span = spanOf filename (line source.toList i) (column source.toList i) [c] ∧
        (LexFailure.unknown c span).message = "Unknown character '" ++ String.singleton c ++
          "' at " ++ (filename ++ ":" ++ toString (line source.toList i) ++ ":" ++
            toString (column source.toList i) ++ "-" ++ toString (column source.toList i + 1))) ∧
    ∀ f, tokenize source filename = .error (.fault f) ↔
      ∃ i digits, f = .digits (.reading digits) ∧ LongLiteralAt source.toList i digits ∧
        (∀ j < i, ∀ others, ¬ LongLiteralAt source.toList j others) ∧
        ∀ j < i, ∀ c, ¬ UnknownAt source.toList j c := by
  obtain ⟨tokens, m, hp, he⟩ := tokenize_scanned source filename
  have hunknown : ∀ j < m, ∀ c, ¬ UnknownAt source.toList j c :=
    fun j hj c => hp.not_unknown (Nat.zero_le j) hj
  have hshort : ∀ j < m, ∀ digits, ¬ LongLiteralAt source.toList j digits :=
    fun j hj digits => hp.not_longLiteral (Nat.zero_le j) hj
  generalize tokenize source filename = x at he
  cases he with
  | done hm =>
    subst hm
    refine ⟨fun others ho => ?_, ⟨nofun, ?_⟩, nofun, fun f => ⟨nofun, ?_⟩⟩
    · cases ho
      exact hp.tiles
    · rintro ⟨i, c, hu, -⟩
      exact absurd hu (hunknown i (List.getElem?_eq_some_iff.1 hu.get).1 c)
    · rintro ⟨i, digits, -, hlong, -⟩
      obtain ⟨c, hc, -⟩ := hlong.exists_digit
      exact absurd hlong (hshort i (List.getElem?_eq_some_iff.1 hc).1 digits)
  | @unknown c hu =>
    refine ⟨nofun, ⟨fun _ => ⟨m, c, hu, hshort⟩, fun _ => ⟨c, _, rfl⟩⟩, ?_, fun f => ⟨nofun, ?_⟩⟩
    · rintro _ _ ⟨⟩
      exact ⟨m, hu, hunknown, rfl, message_unknown ..⟩
    · rintro ⟨i, digits, -, hlong, -, hbefore⟩
      rcases Nat.lt_trichotomy i m with hlt | rfl | hlt
      · exact absurd hlong (hshort i hlt digits)
      · exact absurd hu hlong.not_unknown
      · exact absurd hu (hbefore m hlt c)
  | @tooLong digits hlong =>
    refine ⟨nofun, ⟨nofun, ?_⟩, nofun, fun f => ⟨?_, ?_⟩⟩
    · rintro ⟨i, c, hu, hbefore⟩
      rcases Nat.lt_trichotomy i m with hlt | rfl | hlt
      · exact absurd hu (hunknown i hlt c)
      · exact absurd hu hlong.not_unknown
      · exact absurd hlong (hbefore m hlt digits)
    · rintro ⟨⟩
      exact ⟨m, digits, rfl, hlong, hshort, hunknown⟩
    · rintro ⟨i, others, rfl, hother, hfirst, -⟩
      rcases Nat.lt_trichotomy i m with hlt | rfl | hlt
      · exact absurd hother (hshort i hlt others)
      · rw [hlong.unique hother]
      · exact absurd hlong (hfirst m hlt digits)

/-- An `@` in a comment is passed over, and the one on the next line is reported. -/
theorem tokens_tile_behind_comment :
    tokenize "x=7 // @" "f" = .ok [⟨.identifier "x", spanOf "f" 1 1 ['x']⟩,
      ⟨.operator '=', spanOf "f" 1 2 ['=']⟩, ⟨.int 7, spanOf "f" 1 3 ['7']⟩] ∧
    Tiles "f" "x=7 // @".toList [⟨.identifier "x", spanOf "f" 1 1 ['x']⟩,
      ⟨.operator '=', spanOf "f" 1 2 ['=']⟩, ⟨.int 7, spanOf "f" 1 3 ['7']⟩] ∧
    tokenize "x=7 // @\n\t@y" "f" = .error (.unknown '@' (spanOf "f" 2 2 ['@'])) ∧
    ∃ i, UnknownAt "x=7 // @\n\t@y".toList i '@' ∧
      ∀ j < i, ∀ d, ¬ UnknownAt "x=7 // @\n\t@y".toList j d := by
  have htokens : tokenize "x=7 // @" "f" = .ok [⟨.identifier "x", spanOf "f" 1 1 ['x']⟩,
      ⟨.operator '=', spanOf "f" 1 2 ['=']⟩, ⟨.int 7, spanOf "f" 1 3 ['7']⟩] := by cbv
  have hunknown : tokenize "x=7 // @\n\t@y" "f" =
      .error (.unknown '@' (spanOf "f" 2 2 ['@'])) := by cbv
  obtain ⟨i, hu, hfirst, -⟩ := (tokens_tile "x=7 // @\n\t@y" "f").2.2.1 _ _ hunknown
  exact ⟨htokens, (tokens_tile "x=7 // @" "f").1 _ htokens, hunknown, i, hu, hfirst⟩

end Lexer
end Tama
