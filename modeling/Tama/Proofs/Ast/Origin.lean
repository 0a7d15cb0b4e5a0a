import Mathlib.Data.List.Forall2
import Tama.Proofs.Analysis
import Tama.Proofs.Tree.Search

/-!
# Where a node comes from

A node of a program holds all that the parse tree has that it was made of: `toTree` reads it back.
Walking the node goes through nodes that were made of the trees in that tree, in their order
(`IsStatement.walk_standsFor`), and the type of a node tells the tag of its tree
(`IsStatement.ofTag_eq`).
-/

set_option autoImplicit false

namespace Tama.Ast

/-! ## Trees -/

mutual

/-- The parse tree that a node was made of. Programs and hand-written nodes were made of none; they
are kept as hand-written trees. -/
def toTree : Ast → Tree
  | int n => .int n
  | bool b => .bool b
  | null => .null
  | var x => .var x
  | add l r => .add (toTree l) (toTree r)
  | call f args => .call f (toTrees args)
  | assignment x e => .assignment x (toTree e)
  | conditional c body => .conditional (toTree c) (toTrees body)
  | definition f params body => .definition f params (toTrees body)
  | source body => .written (source body).toDatum []
  | written d => .written d []

/-- The parse trees that several nodes were made of. -/
def toTrees : List Ast → List Tree
  | [] => []
  | n :: rest => toTree n :: toTrees rest

end

/-- The parse trees that a program was made of. -/
def programTrees : Ast → List Tree
  | source body => toTrees body
  | n => [n.toTree]

theorem toTrees_eq_map (ns : List Ast) : toTrees ns = ns.map toTree := by
  induction ns with
  | nil => rfl
  | cons n rest ih => rw [toTrees, ih, List.map_cons]

theorem IsExpression.isExpression_toTree {n : Ast} (h : n.IsExpression) :
    n.toTree.IsExpression := by
  induction h with
  | int n => exact .int n
  | bool b => exact .bool b
  | null => exact .null
  | var x => exact .var x
  | add _ _ ihl ihr => exact .add ihl ihr
  | call f _ ih =>
    rw [toTree, toTrees_eq_map]
    exact .call f (List.forall_mem_map.2 ih)

/-- Statements were made of statements. -/
theorem IsStatement.isStatement_toTree {n : Ast} (h : n.IsStatement) : n.toTree.IsStatement := by
  induction h with
  | expression h => exact .expression h.isExpression_toTree
  | assignment x h => exact .assignment x h.isExpression_toTree
  | conditional hc _ ih =>
    rw [toTree, toTrees_eq_map]
    exact .conditional hc.isExpression_toTree (List.forall_mem_map.2 ih)
  | definition f _ _ ih =>
    rw [toTree, toTrees_eq_map]
    exact .definition f _ (List.forall_mem_map.2 ih)

/-! ## Walking -/

mutual

/-- A node and the nodes below it, in source order. -/
def walk : Ast → List Ast
  | source body => source body :: walkAll body
  | add l r => add l r :: (walk l ++ walk r)
  | call f args => call f args :: walkAll args
  | assignment x e => assignment x e :: walk e
  | conditional c body => conditional c body :: (walk c ++ walkAll body)
  | definition f params body => definition f params body :: walkAll body
  | n => [n]

/-- Several nodes and the nodes below them, in source order. -/
def walkAll : List Ast → List Ast
  | [] => []
  | n :: rest => walk n ++ walkAll rest

end

/-- A statement stands for a parse tree when it was made of it. -/
def StandsFor (n : Ast) (t : Tree) : Prop :=
  n.IsStatement ∧ n.toTree = t

theorem walkAll_standsFor {body : List Ast}
    (h : ∀ n ∈ body, List.Forall₂ StandsFor n.walk n.toTree.subtrees) :
    List.Forall₂ StandsFor (walkAll body) (Tree.subtreesAll (toTrees body)) := by
  induction body with
  | nil => exact .nil
  | cons n rest ih =>
    exact List.rel_append (h n List.mem_cons_self)
      (ih fun n hn => h n (List.mem_cons_of_mem _ hn))

theorem IsExpression.walk_standsFor {n : Ast} (h : n.IsExpression) :
    List.Forall₂ StandsFor n.walk n.toTree.subtrees := by
  induction h with
  | int n => exact .cons ⟨.expression (.int n), rfl⟩ .nil
  | bool b => exact .cons ⟨.expression (.bool b), rfl⟩ .nil
  | null => exact .cons ⟨.expression .null, rfl⟩ .nil
  | var x => exact .cons ⟨.expression (.var x), rfl⟩ .nil
  | add hl hr ihl ihr =>
    exact .cons ⟨.expression (.add hl hr), rfl⟩ (List.rel_append ihl ihr)
  | call f ha ih => exact .cons ⟨.expression (.call f ha), rfl⟩ (walkAll_standsFor ih)

/-- Walking a statement goes through the trees in its tree, in order. -/
theorem IsStatement.walk_standsFor {n : Ast} (h : n.IsStatement) :
    List.Forall₂ StandsFor n.walk n.toTree.subtrees := by
  induction h with
  | expression h => exact h.walk_standsFor
  | assignment x h => exact .cons ⟨.assignment x h, rfl⟩ h.walk_standsFor
  | conditional hc hb ih =>
    exact .cons ⟨.conditional hc hb, rfl⟩ (List.rel_append hc.walk_standsFor (walkAll_standsFor ih))
  | definition f hd hb ih => exact .cons ⟨.definition f hd hb, rfl⟩ (walkAll_standsFor ih)

/-! ## Types -/

/-- The tags of parse trees, each with the type of the nodes that are made of such trees. -/
def types : List (String × String) :=
  [("INT", "IntLiteral"), ("BOOL", "BoolLiteral"), ("NULL", "NullLiteral"),
    ("VARIABLE", "Variable"), ("ADD", "Add"), ("FUNCTION_CALL", "FunctionCall"),
    ("ASSIGNMENT", "Assignment"), ("IF", "If"), ("FUNCTION_DEF", "FunctionDefinition")]

/-- Whether a node has the type that goes with a tag. -/
def ofTag (tag : Datum) (n : Ast) : Bool :=
  types.any fun (t, type) => .text t == tag && n.kind == .text type

/-- A statement has the type that goes with the tag of its tree, and no other. -/
theorem IsStatement.ofTag_eq {n : Ast} (h : n.IsStatement) (tag : Datum) :
    n.ofTag tag = n.toTree.hasTag tag := by
  have htext : ∀ s t : String, (Datum.text s == .text t) = (s == t) := fun _ _ => rfl
  cases h with
  | expression h =>
    cases h <;> simp [ofTag, types, kind, toTree, Tree.hasTag, Tree.tag, Except.toOption, htext]
  | _ => simp [ofTag, types, kind, toTree, Tree.hasTag, Tree.tag, Except.toOption, htext]

/-- The nodes of a type in a statement were made of the trees with its tag, one by one in order. -/
theorem IsStatement.walk_filter {n : Ast} (h : n.IsStatement) (tag : Datum) :
    List.Forall₂ StandsFor (n.walk.filter (Ast.ofTag tag))
      (n.toTree.subtrees.filter (Tree.hasTag tag)) := by
  refine List.rel_filter ?_ h.walk_standsFor
  rintro m _ ⟨hm, rfl⟩
  show _ = true ↔ _ = true
  rw [hm.ofTag_eq]

end Tama.Ast
