import Tama.Proofs.Grammar.Entry
import Tama.Proofs.Grammar.Failure
import Tama.Proofs.Grammar.Sequence

/-!
# The last semicolon of a program

An assignment and an expression statement end with a semicolon, and what stands before it is read in
step with and without it (`Head`). Without it such a statement is no statement: no other rule reads
its text either, since a name that is assigned to is not an expression on its own, and an expression
is neither a keyword's statement nor an assignment. So a program whose last statement loses its
semicolon fails where this statement starts (`program_without_semicolon`).
-/

set_option autoImplicit false

namespace Tama

/-- The tags of the trees that stand for statements that end with a semicolon. -/
def Tree.semicolonTags : List String :=
  "ASSIGNMENT" :: Tree.expressionTags

namespace Grammar

open Tama.Parser

/-! ## Texts that are skipped to their end -/

section
variable {gap gap' text text' : List Char}

/-- Gaps and comments are skipped from inside of a comment, too. -/
theorem skipFrom_eq_nil (h : skip gap = []) (inComment : Bool) : skipFrom inComment gap = [] := by
  cases inComment with
  | false => exact h
  | true =>
    unfold skip at h
    induction gap with
    | nil => rfl
    | cons c gap ih =>
      simp only [skipFrom] at h ⊢
      split at h
      · split
        · exact h
        · exact ih h
      split at h
      · rename_i hcomment
        have hc : c ≠ '\n' := by
          rcases hcomment with rfl | ⟨rfl, -⟩ <;> decide
        rwa [if_neg hc]
      · cases h

theorem finishes_of_skip (h : skip gap = []) : Finishes gap := by
  intro inComment c hc
  rw [skipFrom_eq_nil h] at hc
  cases hc

theorem finishes_semicolon_cons (h : skip gap = []) : Finishes (';' :: gap) := by
  intro inComment c hc
  cases inComment with
  | false =>
    cases hc
    rfl
  | true =>
    have hskip : skipFrom true (';' :: gap) = skipFrom true gap := rfl
    rw [hskip, skipFrom_eq_nil h] at hc
    cases hc

/-- Where the semicolon comes next, there is nothing left without it. -/
theorem Parted.skip_eq_nil (h : Parted (';' :: gap) gap' text text') (hgap' : skip gap' = [])
    (hs : skip text = ';' :: gap) : skip text' = [] := by
  obtain ⟨front, rfl, rfl⟩ := h
  obtain ⟨skipped, htext, hskipped⟩ := exists_skipped (front ++ ';' :: gap)
  rw [hs] at htext
  obtain rfl := List.append_cancel_right htext
  obtain ⟨still, hstill⟩ := exists_skipFrom_append hskipped
  unfold skip
  rw [hstill]
  exact skipFrom_eq_nil hgap' still

end

/-! ## What a semicolon ends -/

/-- What a parser reads is a statement when a semicolon follows it, and is read in step with and
without the semicolon. -/
structure Head (head : Parser Tree) : Prop where
  parted : ∀ {last last' : List Char}, Finishes last → Finishes last' →
    Lockstep (Parted last last') (Parted last last') head
  onward : Onward head
  sound : Sound head UpToSemicolon

theorem Head.expressionAt (depth : Nat) : Head (expressionAt depth) where
  parted hlast hlast' := expressionAt_parted hlast hlast' depth
  onward := expressionAt_onward depth
  sound := expression_upToSemicolon (expressionAt_sound depth)

theorem Head.assigned (depth : Nat) : Head (assigned (Parser.expressionAt depth)) where
  parted hlast hlast' := by
    refine (name_parted hlast hlast').bind fun x => ?_
    refine (symbol_parted hlast hlast' (by decide)).bind fun _ => ?_
    exact (expressionAt_parted hlast hlast' depth).bind fun e => .pure _
  onward := by
    refine name_onward.bind fun x => (symbol_onward '=').bind fun _ => ?_
    exact (expressionAt_onward depth).bind fun e => .pure _
  sound := assigned_sound (expressionAt_sound depth)

/-- A statement of this kind is read off its head and the semicolon. -/
theorem exists_head {nesting : Nat} {text rest : List Char} {t : Tree}
    (ht : ∃ tag ∈ Tree.semicolonTags, Tagged tag t)
    (h : statementAt (Parser.expressionAt nesting) nesting text = .done t rest) :
    ∃ head, (head = assigned (Parser.expressionAt nesting) ∨ head = Parser.expressionAt nesting) ∧
      Head head ∧ expressionStatement head text = .done t rest := by
  obtain ⟨tag, hmem, htag⟩ := ht
  have hblock : ∀ tag ∈ Tree.semicolonTags, tag ∉ ["FUNCTION_DEF", "IF"] := by decide
  rcases statementAt_of_tag htag (hblock tag hmem) h with h | h
  · rw [assignment_eq] at h
    exact ⟨_, .inl rfl, .assigned nesting, h⟩
  · exact ⟨_, .inr rfl, .expressionAt nesting, h⟩

/-! ## Statements without their semicolon -/

section
variable {head : Parser Tree} {nesting : Nat} {gap gap' text text' : List Char} {t : Tree}

/-- Without the semicolon the head is read, and then nothing is left. -/
theorem Head.done (hh : Head head) (hgap : skip gap = []) (hgap' : skip gap' = [])
    (h : Parted (';' :: gap) gap' text text') (hd : expressionStatement head text = .done t gap) :
    ∃ rest', head text' = .done t rest' ∧ skip rest' = [] := by
  obtain ⟨t', mid, ht, hd⟩ := bind_eq_done.1 hd
  obtain ⟨u, last, hsemi, hd⟩ := bind_eq_done.1 hd
  cases hd
  have hlock := hh.parted (finishes_semicolon_cons hgap) (finishes_of_skip hgap')
  obtain ⟨rest', ht', hrest⟩ := hlock.done h ht
  exact ⟨rest', ht', hrest.skip_eq_nil hgap' (symbol_eq_done hsemi)⟩

/-- The semicolon that is read stands in the text. -/
theorem Head.suffix (hh : Head head) (hd : expressionStatement head text = .done t gap) :
    ';' :: gap <:+ text := by
  obtain ⟨t', mid, hmid, hd⟩ := bind_eq_done.1 hd
  obtain ⟨u, last, hsemi, hd⟩ := bind_eq_done.1 hd
  cases hd
  rw [← symbol_eq_done hsemi]
  exact (skip_suffix mid).trans (hh.onward.done _ _ _ hmid)

theorem expressionStatement_fails {rest : List Char}
    (h : head text = .done t rest) (hf : Fails (symbol ';') rest) :
    Fails (expressionStatement head) text := by
  obtain ⟨last, wanted, hf⟩ := hf
  exact ⟨last, wanted, by rw [expressionStatement, bind_apply, h]; simp only [bind_apply, hf]⟩

/-- A name that is assigned to is an expression, but no semicolon follows it. -/
theorem expressionStatement_fails_of_assigned {depth : Nat} {mid rest : List Char} {x : String}
    (hx : name text = .done x mid) (heq : symbol '=' mid = .done () rest) :
    Fails (expressionStatement (expressionAt (depth + 1))) text := by
  have other : ∀ c, c ≠ '=' → Fails (symbol c) mid := fun c hc =>
    symbol_fails_of_head (by simpa [symbol_eq_done heq] using Ne.symm hc)
  have hvar := operand_of_name (expressionAt depth) hx (other '(' (by decide))
  have hmore : Parser.many (do symbol '+'; operand (expressionAt depth)) mid = .done [] mid :=
    (Chain.nil mid).repeatUpTo (other '+' (by decide)).bind (Nat.zero_le _)
  have hexp : expressionAt (depth + 1) text = .done (.var x) mid := by
    rw [expressionAt, addition, bind_apply, hvar]
    simp only [bind_apply, hmore]
    rfl
  exact expressionStatement_fails hexp (other ';' (by decide))

theorem Bare.parted {last last' : List Char} (hb : Bare text) (hlast : Finishes last)
    (hlast' : Finishes last') (h : Parted last last' text text') : Bare text' where
  keyword_fails k hk := (keyword_parted hlast hlast' k).fails h (hb.keyword_fails k hk)
  not_assigned := by
    rcases hb.not_assigned with hf | ⟨x, rest, hx, hf⟩
    · exact .inl ((name_parted hlast hlast').fails h hf)
    · obtain ⟨rest', hx', hr⟩ := (name_parted hlast hlast').done h hx
      exact .inr ⟨x, rest', hx', (symbol_parted hlast hlast' (by decide)).fails hr hf⟩

/-- Without its semicolon a statement is none. -/
theorem statement_fails (hgap : skip gap = []) (hgap' : skip gap' = [])
    (ht : ∃ tag ∈ Tree.semicolonTags, Tagged tag t) (h : Parted (';' :: gap) gap' text text')
    (hd : statementAt (expressionAt nesting) nesting text = .done t gap) :
    Fails (statementAt (expressionAt nesting) nesting) text' := by
  cases nesting with
  | zero => cases hd
  | succ depth =>
    obtain ⟨head, hcases, hhead, hd⟩ := exists_head ht hd
    obtain ⟨rest', hrest', hskip⟩ := hhead.done hgap hgap' h hd
    have hfails : Fails (expressionStatement head) text' :=
      expressionStatement_fails hrest' (symbol_fails_of_head (by simp [hskip]))
    rcases hcases with rfl | rfl
    · obtain ⟨x, mid, hx, hrest'⟩ := bind_eq_done.1 hrest'
      obtain ⟨u, after, heq, -⟩ := bind_eq_done.1 hrest'
      have hkeyword := keyword_fails_of_name hx
      refine .orElse (hkeyword _).bind (.orElse (hkeyword _).bind (.orElse ?_ ?_))
      · rw [assignment_eq]
        exact hfails
      · exact expressionStatement_fails_of_assigned hx heq
    · obtain ⟨e, mid, he, hd⟩ := bind_eq_done.1 hd
      obtain ⟨u, last, hsemi, -⟩ := bind_eq_done.1 hd
      have hat : At expressionEnds mid := ⟨';', by decide, by rw [symbol_eq_done hsemi]; rfl⟩
      have hbare := (expressionAt_bare he hat).parted (finishes_semicolon_cons hgap)
        (finishes_of_skip hgap') h
      rw [Fails, hbare.statementAt_eq]
      exact hfails

end

/-! ## The last statement of a text -/

/-- The lexemes of a text and a semicolon behind them are a statement; what follows the semicolon is
skipped. -/
structure LastStatement (t : Tree) (statement gap : List Char) : Prop where
  start : ∃ c ∈ statement.head?, starts c = true
  lexemes : ∃ ws, Lexes statement ws ∧ Statement (ws ++ [.symbol ';']) t
  skipped : skip gap = []

section
variable {nesting : Nat} {gap text : List Char} {t : Tree} {trees : List Tree}

/-- No statement starts with a semicolon. -/
theorem head?_skip_ne_semicolon {rest : List Char}
    (hd : statementAt (expressionAt nesting) nesting text = .done t rest) :
    (skip text).head? ≠ some ';' := by
  intro hsemi
  have hn : 0 < nesting := by
    cases nesting with
    | zero => cases hd
    | succ depth => exact Nat.succ_pos depth
  have hat : At [';'] text := ⟨';', by simp, hsemi⟩
  obtain ⟨last, wanted, hf⟩ := (hat.idle (by decide) (by decide)).programStatement_fails hn
  rw [hf] at hd
  cases hd

/-- Where such a statement stands in front of what is skipped. -/
theorem exists_lastStatement (hgap : skip gap = [])
    (ht : ∃ tag ∈ Tree.semicolonTags, Tagged tag t)
    (hd : statementAt (expressionAt nesting) nesting text = .done t gap) :
    ∃ before statement, text = before ++ (statement ++ ';' :: gap) ∧
      LastStatement t statement gap ∧ skip before = [] ∧
      ∀ more, skip (before ++ (statement ++ more)) = statement ++ more := by
  have hclosed := programStatement_closed nesting
  obtain ⟨-, -, ⟨-, c, tail, -, -, -, hskip, -, hc⟩, -⟩ := hclosed text gap [] t hd trivial
  have hlength := hclosed.length_lt_skip hd
  obtain ⟨head, -, hhead, hd'⟩ := exists_head ht hd
  have hsuffix : ';' :: gap <:+ skip text :=
    List.suffix_of_suffix_length_le (hhead.suffix hd') (skip_suffix text) hlength
  obtain ⟨statement, hstatement⟩ := hsuffix
  rw [hskip] at hstatement
  obtain ⟨before, hbefore, hfollow⟩ := exists_gap hskip hc
  cases statement with
  | nil =>
    refine absurd ?_ (head?_skip_ne_semicolon hd)
    rw [hskip, ← hstatement]
    rfl
  | cons d word =>
    obtain ⟨rfl, rfl⟩ := List.cons.inj hstatement
    have hskipped : skip before = [] := by
      obtain ⟨gap', htext, hgap'⟩ := exists_skipped text
      rw [hskip, hbefore] at htext
      rwa [List.append_cancel_right htext]
    -- the lexemes are those that are read where the semicolon and what follows it are left out
    have hparted : Parted (';' :: gap) [] text (before ++ d :: word) :=
      ⟨before ++ d :: word, by simp [hbefore], by simp⟩
    obtain ⟨rest, hrest, hnil⟩ := hhead.done hgap rfl hparted hd'
    obtain ⟨ws, hws, hlexed⟩ := hhead.sound _ _ _ hrest [] ⟨lexes_nil_iff.2 hnil, nofun⟩
    have hskips := skips_skip (before ++ d :: word)
    rw [hfollow] at hskips
    refine ⟨before, d :: word, hbefore, ⟨⟨d, rfl, hc⟩, ⟨ws, ?_, hws⟩, hgap⟩, hskipped, ?_⟩
    · simpa using hskips.lexes_iff.1 hlexed.lexes
    · exact fun more => hfollow (word ++ more)

theorem Chain.exists_of_append {α : Type} {p : Parser α} {text rest : List Char} {as bs : List α}
    (h : Chain p text (as ++ bs) rest) : ∃ mid, Chain p text as mid ∧ Chain p mid bs rest := by
  induction as generalizing text with
  | nil => exact ⟨text, .nil text, h⟩
  | cons a as ih =>
    cases h with
    | cons ha h =>
      obtain ⟨mid, hfirst, hlast⟩ := ih h
      exact ⟨mid, .cons ha hfirst, hlast⟩

/-- Without its last semicolon a program fails where its last statement starts. -/
theorem program_without_semicolon (hn : 0 < nesting)
    (h : program nesting text = .done (trees ++ [t]) [])
    (ht : ∃ tag ∈ Tree.semicolonTags, Tagged tag t) :
    ∃ before statement gap, text = before ++ (statement ++ ';' :: gap) ∧
      program nesting before = .done trees [] ∧ LastStatement t statement gap ∧
      ∀ gap', skip gap' = [] →
        program nesting (before ++ (statement ++ gap')) =
          .failed (statement ++ gap') .endOfText := by
  have hclosed := programStatement_closed nesting
  obtain ⟨gap, hchain, hgap⟩ := (program_eq_done hn).1 h
  obtain ⟨mid, hfirst, hlast⟩ := hchain.exists_of_append
  cases hlast with
  | cons hd hnil =>
    cases hnil
    obtain ⟨between, statement, rfl, hends, hbetween, hfollow⟩ :=
      exists_lastStatement hgap ht hd
    obtain ⟨word, rfl, hbefore⟩ := hfirst.exchange hclosed between
    refine ⟨word ++ between, statement, gap, (List.append_assoc ..).symm,
      (program_eq_done hn).2 ⟨between, hbefore, hbetween⟩, hends, fun gap' hgap' => ?_⟩
    obtain ⟨word', hword, hchain'⟩ := hfirst.exchange hclosed (between ++ (statement ++ gap'))
    obtain rfl := List.append_cancel_right hword
    have hparted : Parted (';' :: gap) gap' (between ++ (statement ++ ';' :: gap))
        (between ++ (statement ++ gap')) := ⟨between ++ statement, by simp, by simp⟩
    have hfails := statement_fails hgap hgap' ht hparted hd
    have hskip := hfollow gap'
    obtain ⟨c, hc, -⟩ := hends.start
    obtain ⟨rest, rfl⟩ := List.head?_eq_some_iff.1 hc
    rw [List.append_assoc]
    exact program_of_fails hn hchain' hfails hskip

end

/-! ## Sources -/

theorem skip_expandFrom_eq_nil {column : Nat} {text : List Char} :
    skip (Tab.expandFrom column text) = [] ↔ skip text = [] := by
  obtain ⟨column', h⟩ := skip_expandFrom column text
  rw [h, Tab.expandFrom_eq_nil]

theorem LastStatement.of_expandFrom {column column' : Nat} {t : Tree} {statement gap : List Char}
    (h : LastStatement t (Tab.expandFrom column statement) (Tab.expandFrom column' gap)) :
    LastStatement t statement gap where
  start := by
    obtain ⟨c, hc, hstart⟩ := h.start
    rw [Tab.head?_expandFrom] at hc
    obtain ⟨d, hd, rfl⟩ := Option.map_eq_some_iff.1 hc
    refine ⟨d, hd, ?_⟩
    split at hstart
    · cases hstart
    · exact hstart
  lexemes := h.lexemes.imp fun ws hws => ⟨lexes_expandFrom.1 hws.1, hws.2⟩
  skipped := skip_expandFrom_eq_nil.1 h.skipped

/-- A source fails without its last semicolon as its expansion does. -/
theorem source_without_semicolon {source filename : String} {trees : List Tree} {t : Tree}
    (h : Program.read source filename = .ok (trees ++ [t]))
    (ht : ∃ tag ∈ Tree.semicolonTags, Tagged tag t) :
    ∃ before statement gap, source.toList = before ++ (statement ++ ';' :: gap) ∧
      Program.read (String.ofList before) filename = .ok trees ∧ LastStatement t statement gap ∧
      ∃ c tail, starts c = true ∧
        Tab.expand (before ++ (statement ++ gap)) = Tab.expand before ++ c :: tail ∧
        ∃ n, (Tab.expand (before ++ (statement ++ gap))).length < n ∧
          program n (Tab.expand (before ++ (statement ++ gap))) =
            .failed (c :: tail) .endOfText := by
  -- a nesting that is enough whatever the tabs become
  obtain ⟨n, hn⟩ : ∃ n, Tab.stop * source.toList.length < n := ⟨_, Nat.lt_succ_self _⟩
  have henough : (Tab.expand source.toList).length < n :=
    Nat.lt_of_le_of_lt (Tab.length_expandFrom_le 0 _) hn
  obtain ⟨before, statement, gap, htext, hbefore, hends, hfailed⟩ :=
    program_without_semicolon (Nat.zero_lt_of_lt hn) ((read_eq_ok_iff_program henough).1 h) ht
  obtain ⟨c, hc, hstart⟩ := hends.start
  obtain ⟨word, rfl⟩ := List.head?_eq_some_iff.1 hc
  -- the text parts where its expansion does: neither of the two characters is a space
  obtain ⟨front, back, column, hsource, rfl, hback, hfollow⟩ :=
    Tab.split_expandFrom (ne_of_starts hstart (by simp)) htext
  have hsemi : Tab.expandFrom column (c :: back) = (c :: word) ++ ';' :: gap := hback
  obtain ⟨statement, last, column', hlast, hstatement, hgap, hfollow'⟩ :=
    Tab.split_expandFrom (by decide) hsemi
  obtain ⟨column'', hcons⟩ := Tab.expandFrom_cons column' (c := ';') (by decide) last
  obtain rfl : Tab.expandFrom column'' last = gap := (List.cons.inj (hcons.symm.trans hgap)).2
  rw [← hstatement] at hends
  have hend := hends.of_expandFrom
  have hexpand : Tab.expand (front ++ (statement ++ last)) =
      Tab.expand front ++ c :: (word ++ Tab.expandFrom column' last) := by
    rw [Tab.expand, hfollow, hfollow']
    rfl
  have hshorter : (front ++ (statement ++ last)).length ≤ source.toList.length := by
    rw [hsource, hlast]
    simp
  refine ⟨front, statement, last, by rw [hsource, hlast], ?_, hend, c, _, hstart, hexpand, n,
    Nat.lt_of_le_of_lt (Tab.length_expandFrom_le 0 _)
      (Nat.lt_of_le_of_lt (Nat.mul_le_mul_left _ hshorter) hn), ?_⟩
  · rw [read_eq_ok, String.toList_ofList]
    exact (program_sound hbefore).2
  · rw [hexpand]
    exact hfailed _ (skip_expandFrom_eq_nil.2 hend.skipped)

end Grammar
end Tama
