import Tama.Proofs.Grammar.Acceptance
import Tama.Proofs.Token.Munch
import Tama.Proofs.Tree.Search

/-!
# The spelling of a program

What can stand in the nodes of a program that was read: its names are words and its numbers are not
negative (`Derives.spelled`). The trees that a host builds by hand need not be spelled so.
-/

set_option autoImplicit false

namespace Tama

/-! ## Trees -/

namespace Tree

/-- The names at a node are words, and its number is not negative. -/
def NodeSpelled : Tree → Prop
  | int n => 0 ≤ n
  | var x => Word.IsWord x.toList
  | call f _ => Word.IsWord f.toList
  | assignment x _ => Word.IsWord x.toList
  | definition f params _ => Word.IsWord f.toList ∧ ∀ p ∈ params, Word.IsWord p.toList
  | _ => True

/-- So it is at every node of a tree. -/
def Spelled (t : Tree) : Prop :=
  ∀ s ∈ t.subtrees, s.NodeSpelled

namespace Spelled

variable {s t : Tree}

theorem of_slots (h : t.NodeSpelled) (hs : ∀ s ∈ t.slots, s.Spelled) : t.Spelled := by
  intro s hm
  rw [subtrees_eq_cons] at hm
  rcases List.mem_cons.1 hm with rfl | hm
  · exact h
  · obtain ⟨c, hc, hm⟩ := mem_subtreesAll.1 hm
    exact hs c hc s hm

theorem node (h : t.Spelled) : t.NodeSpelled :=
  h t t.self_mem_subtrees

theorem of_mem_slots (h : t.Spelled) (hs : s ∈ t.slots) : s.Spelled := by
  intro u hu
  refine h u ?_
  rw [subtrees_eq_cons]
  exact List.mem_cons_of_mem t (mem_subtreesAll.2 ⟨s, hs, hu⟩)

end Spelled
end Tree

namespace Grammar

/-! ## Lexemes -/

/-- The name of a lexeme is a word. -/
def Lexeme.Spelled : Lexeme → Prop
  | name x => Word.IsWord x.toList
  | _ => True

theorem Spells.spelled {text rest : List Char} {w : Lexeme} (h : Spells text w rest) :
    w.Spelled := by
  cases h with
  | name hc hw _ _ => exact ⟨_, _, String.toList_ofList, hc, hw⟩
  | integer _ _ _ => trivial
  | keyword k _ => trivial
  | symbol _ => trivial

theorem Lexes.spelled {text : List Char} {ws : List Lexeme} (h : Lexes text ws) :
    ∀ w ∈ ws, w.Spelled := by
  induction h with
  | nil _ => exact List.forall_mem_nil _
  | cons _ hw _ ih => exact List.forall_mem_cons.2 ⟨hw.spelled, ih⟩

/-! ## Derivations -/

theorem Separated.parameters_spelled {ws : List Lexeme} {ps : List String}
    (h : Separated Parameter ws ps) (hr : ∀ w ∈ ws, w.Spelled) :
    ∀ p ∈ ps, Word.IsWord p.toList := by
  induction h with
  | one h =>
    cases h
    simpa [Lexeme.Spelled] using hr
  | cons h _ ih =>
    cases h
    exact List.forall_mem_cons.2 ⟨hr (.name _) (by simp), ih fun w hw => hr w (by simp [hw])⟩

theorem Listed.parameters_spelled {ws : List Lexeme} {ps : List String}
    (h : Listed Parameter ws ps) (hr : ∀ w ∈ ws, w.Spelled) :
    ∀ p ∈ ps, Word.IsWord p.toList := by
  cases h with
  | none => exact List.forall_mem_nil _
  | some h => exact h.parameters_spelled hr

mutual

theorem Operand.spelled {ws : List Lexeme} {t : Tree} :
    Operand ws t → (∀ w ∈ ws, w.Spelled) → t.Spelled
  | .integer _, _ => .of_slots (Int.natCast_nonneg _) nofun
  | .true, _ => .of_slots trivial nofun
  | .false, _ => .of_slots trivial nofun
  | .null, _ => .of_slots trivial nofun
  | .call f h, hr => .of_slots (hr (.name f) (by simp)) (h.spelled fun w hw => hr w (by simp [hw]))
  | .var x, hr => .of_slots (hr (.name x) (by simp)) nofun
  | .parenthesized h, hr => Sum.spelled h fun w hw => hr w (by simp [hw])

theorem Sum.spelled {ws : List Lexeme} {t : Tree} :
    Sum Operand ws t → (∀ w ∈ ws, w.Spelled) → t.Spelled
  | .operand h, hr => Operand.spelled h hr
  | .add hl hr', hr => by
    refine .of_slots trivial (List.forall_mem_cons.2 ⟨?_, List.forall_mem_singleton.2 ?_⟩)
    · exact Sum.spelled hl fun w hw => hr w (by simp [hw])
    · exact Operand.spelled hr' fun w hw => hr w (by simp [hw])

theorem Listed.spelled {ws : List Lexeme} {ts : List Tree} :
    Listed (Sum Operand) ws ts → (∀ w ∈ ws, w.Spelled) → ∀ t ∈ ts, t.Spelled
  | .none, _ => nofun
  | .some h, hr => Separated.spelled h hr

theorem Separated.spelled {ws : List Lexeme} {ts : List Tree} :
    Separated (Sum Operand) ws ts → (∀ w ∈ ws, w.Spelled) → ∀ t ∈ ts, t.Spelled
  | .one h, hr => List.forall_mem_singleton.2 (Sum.spelled h hr)
  | .cons h hs, hr => List.forall_mem_cons.2 ⟨Sum.spelled h fun w hw => hr w (by simp [hw]),
      Separated.spelled hs fun w hw => hr w (by simp [hw])⟩

end

mutual

theorem Statement.spelled {ws : List Lexeme} {t : Tree} :
    Statement ws t → (∀ w ∈ ws, w.Spelled) → t.Spelled
  | .definition f hp hb, hr => by
    refine .of_slots ⟨hr (.name f) (by simp), ?_⟩ ?_
    · exact hp.parameters_spelled fun w hw => hr w (by simp [hw])
    · exact Star.spelled hb fun w hw => hr w (by simp [hw])
  | .conditional hc hb, hr => by
    refine .of_slots trivial (List.forall_mem_cons.2 ⟨?_, ?_⟩)
    · exact Sum.spelled hc fun w hw => hr w (by simp [hw])
    · exact Star.spelled hb fun w hw => hr w (by simp [hw])
  | .assignment x h, hr => by
    refine .of_slots (hr (.name x) (by simp)) (List.forall_mem_singleton.2 ?_)
    exact Sum.spelled h fun w hw => hr w (by simp [hw])
  | .expression h, hr => Sum.spelled h fun w hw => hr w (by simp [hw])

theorem Star.spelled {ws : List Lexeme} {ts : List Tree} :
    Star Statement ws ts → (∀ w ∈ ws, w.Spelled) → ∀ t ∈ ts, t.Spelled
  | .nil, _ => nofun
  | .cons h hs, hr => List.forall_mem_cons.2 ⟨Statement.spelled h fun w hw => hr w (by simp [hw]),
      Star.spelled hs fun w hw => hr w (by simp [hw])⟩

end

/-- The names in a program are words, and its numbers are not negative. -/
theorem Derives.spelled {text : List Char} {trees : List Tree} (h : Derives text trees) :
    ∀ t ∈ trees, t.Spelled := by
  obtain ⟨ws, hws, hs⟩ := h
  exact hs.spelled hws.lexes.spelled

end Grammar
end Tama
