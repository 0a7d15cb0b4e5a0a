import Tama.Proofs.Grammar.Trees

/-!
# What stands in a tree

The trees in a tree, the tree itself included, in source order: each in front of those below it,
and as often as it occurs. In an expression only expressions stand, so its trees define nothing.
-/

set_option autoImplicit false

namespace Tama.Tree

mutual

/-- A tree and the trees below it, in source order. -/
def subtrees : Tree → List Tree
  | add left right => add left right :: (subtrees left ++ subtrees right)
  | call name args => call name args :: subtreesAll args
  | assignment name expression => assignment name expression :: subtrees expression
  | conditional condition body =>
    conditional condition body :: (subtrees condition ++ subtreesAll body)
  | definition name params body => definition name params body :: subtreesAll body
  | written d parts => written d parts :: subtreesAll parts
  | t => [t]

/-- Several trees and the trees below them, in source order. -/
def subtreesAll : List Tree → List Tree
  | [] => []
  | t :: rest => subtrees t ++ subtreesAll rest

end

theorem subtreesAll_eq_flatMap (ts : List Tree) : subtreesAll ts = ts.flatMap subtrees := by
  induction ts with
  | nil => rfl
  | cons t rest ih => rw [subtreesAll, ih, List.flatMap_cons]

theorem mem_subtreesAll {t : Tree} {ts : List Tree} :
    t ∈ subtreesAll ts ↔ ∃ s ∈ ts, t ∈ s.subtrees := by
  rw [subtreesAll_eq_flatMap, List.mem_flatMap]

/-- A tree comes before the trees in its children. -/
theorem subtrees_eq_cons (t : Tree) : t.subtrees = t :: subtreesAll t.slots := by
  cases t <;> simp [subtrees, slots, subtreesAll]

theorem self_mem_subtrees (t : Tree) : t ∈ t.subtrees := by
  rw [subtrees_eq_cons]
  exact List.mem_cons_self

/-- Expressions only have expressions in them. -/
theorem IsExpression.of_mem_subtrees {s t : Tree} (h : t.IsExpression) :
    s ∈ t.subtrees → s.IsExpression := by
  induction h with
  | add hl hr ihl ihr =>
    intro hs
    rcases List.mem_cons.1 hs with rfl | hs
    · exact .add hl hr
    · exact (List.mem_append.1 hs).elim ihl ihr
  | call f ha ih =>
    intro hs
    rcases List.mem_cons.1 hs with rfl | hs
    · exact .call f ha
    · obtain ⟨a, hm, hs⟩ := mem_subtreesAll.1 hs
      exact ih a hm hs
  | int n => exact fun hs => List.mem_singleton.1 hs ▸ .int n
  | bool b => exact fun hs => List.mem_singleton.1 hs ▸ .bool b
  | null => exact fun hs => List.mem_singleton.1 hs ▸ .null
  | var x => exact fun hs => List.mem_singleton.1 hs ▸ .var x

end Tama.Tree
