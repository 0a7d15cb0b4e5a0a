import Tama.Proofs.Tree.Subtrees

/-!
# Searching for a tag

A search goes through a tree in the order of `subtrees`: in the tree of a statement it finds the
trees with a tag, each as often as it occurs (`IsStatement.find_eq_filter`).
-/

set_option autoImplicit false

namespace Tama.Tree

/-! ## Tags -/

/-- Whether a node has a tag. -/
def hasTag (tag : Datum) (t : Tree) : Bool :=
  t.tag.toOption.any (· == tag)

/-! ## Children -/

theorem filled_eq_ok {ts : List Tree} (h : ∀ t ∈ ts, ∀ f, t ≠ hole f) : filled ts = .ok ts := by
  induction ts with
  | nil => rfl
  | cons t rest ih =>
    have hrest := ih fun t ht => h t (List.mem_cons_of_mem _ ht)
    cases t with
    | hole f => exact absurd rfl (h _ List.mem_cons_self f)
    | _ =>
      simp only [filled, hrest]
      rfl

namespace IsStatement

variable {t : Tree} {ts : List Tree}

theorem ne_hole (h : t.IsStatement) (f : Fault) : t ≠ hole f := by
  rintro rfl
  cases h with
  | expression h => cases h

/-- The children of a statement are statements. -/
theorem of_mem_slots {s : Tree} (h : t.IsStatement) (hs : s ∈ t.slots) : s.IsStatement := by
  cases h with
  | expression h =>
    refine .expression (h.of_mem_subtrees ?_)
    rw [subtrees_eq_cons]
    exact List.mem_cons_of_mem _ (mem_subtreesAll.2 ⟨s, hs, s.self_mem_subtrees⟩)
  | assignment x he => exact List.mem_singleton.1 hs ▸ .expression he
  | conditional hc hb =>
    rcases List.mem_cons.1 hs with rfl | hs
    · exact .expression hc
    · exact hb s hs
  | definition f params hb => exact hb s hs

theorem children_eq (h : t.IsStatement) : t.children = .ok t.slots := by
  have hc : t.checkSlots = .ok () := by
    cases h with
    | expression h => cases h <;> rfl
    | _ => rfl
  rw [children, hc, filled_eq_ok fun s hs => (h.of_mem_slots hs).ne_hole]
  rfl

theorem exists_tag (h : t.IsStatement) : ∃ tag, t.tag = .ok tag := by
  cases h with
  | expression h => cases h <;> exact ⟨_, rfl⟩
  | _ => exact ⟨_, rfl⟩

theorem findHere_eq_filter (h : t.IsStatement) (tag : Datum) :
    findHere tag t = .ok ([t].filter (hasTag tag)) := by
  obtain ⟨d, hd⟩ := h.exists_tag
  rw [findHere, h.children_eq, List.filter_cons, List.filter_nil, hasTag, hd]
  rfl

/-- What holds of a statement whenever it holds of its children, holds of every statement. -/
theorem induction_slots {P : Tree → Prop}
    (step : ∀ t : Tree, t.IsStatement → (∀ s ∈ t.slots, P s) → P t) (h : t.IsStatement) : P t := by
  have hexpression : ∀ {e : Tree}, e.IsExpression → P e := by
    intro e he
    induction he with
    | add hl hr ihl ihr =>
      exact step _ (.expression (.add hl hr)) (by simpa [slots] using ⟨ihl, ihr⟩)
    | call f ha ih => exact step _ (.expression (.call f ha)) ih
    | int n => exact step _ (.expression (.int n)) (List.forall_mem_nil _)
    | bool b => exact step _ (.expression (.bool b)) (List.forall_mem_nil _)
    | null => exact step _ (.expression .null) (List.forall_mem_nil _)
    | var x => exact step _ (.expression (.var x)) (List.forall_mem_nil _)
  induction h with
  | expression he => exact hexpression he
  | assignment x he => exact step _ (.assignment x he) (by simpa [slots] using hexpression he)
  | conditional hc hb ih =>
    exact step _ (.conditional hc hb) (by simpa [slots] using ⟨hexpression hc, ih⟩)
  | definition f params hb ih => exact step _ (.definition f params hb) ih

end IsStatement

/-! ## Search -/

theorem findAll_nil (tag : Datum) : findAll tag [] = pure [] :=
  rfl

theorem findAll_cons (tag : Datum) (t : Tree) (ts : List Tree) :
    findAll tag (t :: ts) = do return (← find tag t) ++ (← findAll tag ts) :=
  rfl

/-- A search looks at a node and then goes through its children. -/
theorem find_eq (tag : Datum) (t : Tree) :
    find tag t = do return (← findHere tag t) ++ (← findAll tag t.slots) := by
  cases t <;> simp [find, findAll_nil, findAll_cons, slots]

theorem findAll_eq_filter {tag : Datum} {ts : List Tree}
    (h : ∀ t ∈ ts, find tag t = .ok (t.subtrees.filter (hasTag tag))) :
    findAll tag ts = .ok ((subtreesAll ts).filter (hasTag tag)) := by
  induction ts with
  | nil => rfl
  | cons t rest ih =>
    rw [findAll_cons, h t List.mem_cons_self, ih fun t ht => h t (List.mem_cons_of_mem _ ht),
      subtreesAll, List.filter_append]
    rfl

/-- A search finds the trees with a tag, in order. -/
theorem IsStatement.find_eq_filter {t : Tree} (h : t.IsStatement) (tag : Datum) :
    find tag t = .ok (t.subtrees.filter (hasTag tag)) := by
  refine h.induction_slots (P := fun t => find tag t = .ok (t.subtrees.filter (hasTag tag)))
    fun t ht ih => ?_
  have hsplit : t.subtrees.filter (hasTag tag) =
      [t].filter (hasTag tag) ++ (subtreesAll t.slots).filter (hasTag tag) := by
    rw [subtrees_eq_cons, ← List.filter_append, List.singleton_append]
  rw [find_eq, ht.findHere_eq_filter, findAll_eq_filter ih, hsplit]
  rfl

end Tama.Tree
