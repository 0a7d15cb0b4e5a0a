import Tama.Proofs.Ast.Origin
import Tama.Proofs.Grammar.Acceptance

/-!
# Analysis loses and invents nothing

The trees of a program can be read back from what analysis makes of them, so no two programs are
analyzed alike; and a search for a tag finds the trees of just those nodes that a walk meets with
the type that goes with the tag, in the same order (`program_decodes`).
-/

set_option autoImplicit false

namespace Tama.Analysis

open Run Ast Tama.Tree

/-! ## Reading trees back -/

/-- Whatever an analysis yields was made of the tree. -/
abbrev Decodes (t : Tree) (x : Except AnalysisFailure Ast) : Prop :=
  Post (fun n => n.toTree = t) (fun _ => True) x

/-- Whatever an analysis yields was made of the trees. -/
abbrev DecodesAll (ts : List Tree) (x : Except AnalysisFailure (List Ast)) : Prop :=
  Post (fun ns => toTrees ns = ts) (fun _ => True) x

theorem expressions_decode_of {args : List Tree} (room : Nat)
    (h : ∀ t ∈ args, ∀ room, Decodes t (expression room t).outcome) :
    DecodesAll args (expressions room args).outcome := by
  induction args with
  | nil => exact .ok rfl
  | cons t rest ih =>
    rw [expressions_cons_outcome]
    refine (h t List.mem_cons_self room).bind fun e he => ?_
    refine (ih fun t ht => h t (List.mem_cons_of_mem _ ht)).bind fun es hes => ?_
    exact .ok (by rw [toTrees, he, hes])

theorem leaf_decodes {t : Tree} {e : Ast} {tag : String} (htag : tagText t = .ok tag)
    (he : e.toTree = t) (room : Nat) :
    Decodes t (visitExpression room t >>= fun _ => pure e).outcome := by
  rw [visitExpression_return htag]
  exact within_post trivial he

theorem expression_decodes {t : Tree} (h : t.IsExpression) (room : Nat) :
    Decodes t (expression room t).outcome := by
  induction h generalizing room with
  | int n => exact leaf_decodes (t := .int n) (e := .int n) rfl rfl room
  | bool b => exact leaf_decodes (t := .bool b) (e := .bool b) rfl rfl room
  | null => exact leaf_decodes (t := .null) (e := .null) rfl rfl room
  | var x => exact leaf_decodes (t := .var x) (e := .var x) rfl rfl room
  | add _ _ ihl ihr =>
    rw [expression_add_outcome]
    exact within_bind_post trivial ((ihl _).bind fun l hl => (ihr _).bind fun r hr =>
      .ok (by rw [toTree, hl, hr]))
  | call f _ ih =>
    rw [expression_call_outcome]
    exact within_bind_post trivial ((expressions_decode_of _ ih).bind fun es hes =>
      .ok (by rw [toTree, hes]))

theorem block_decodes_of {body : List Tree} (room : Nat)
    (h : ∀ t ∈ body, ∀ room, Decodes t (statement room t).outcome) :
    DecodesAll body (block room body).outcome := by
  induction body with
  | nil => exact .ok rfl
  | cons t rest ih =>
    rw [block_cons_outcome]
    refine (h t List.mem_cons_self room).bind fun s hs => ?_
    refine (ih fun t ht => h t (List.mem_cons_of_mem _ ht)).bind fun ss hss => ?_
    exact .ok (by rw [toTrees, hs, hss])

theorem statement_decodes {t : Tree} (h : t.IsStatement) (room : Nat) :
    Decodes t (statement room t).outcome := by
  induction h generalizing room with
  | expression h =>
    rw [statement_expression_outcome h]
    exact within_bind_post trivial (expression_decodes h _)
  | assignment x h =>
    rw [statement_assignment_outcome]
    exact within_bind_post trivial ((expression_decodes h _).bind fun e he =>
      .ok (by rw [toTree, he]))
  | conditional hc _ ih =>
    rw [statement_conditional_outcome]
    exact within_bind_post trivial ((expression_decodes hc _).bind fun c hc =>
      (block_decodes_of _ ih).bind fun body hb => .ok (by rw [toTree, hc, hb]))
  | @definition f params body _ ih =>
    rw [statement_definition_outcome]
    refine within_bind_post trivial ?_
    rcases distinctParameters_outcome f params body with ⟨-, ho⟩ | ⟨p, -, ho⟩
    · rw [ho]
      exact (block_decodes_of _ ih).bind fun body hb => .ok (by rw [toTree, hb])
    · rw [ho]
      exact .error trivial

/-- A program is made of the trees that were analyzed. -/
theorem program_ok {room : Nat} {trees : List Tree} {ast : Ast}
    (hs : ∀ t ∈ trees, t.IsStatement) (ha : (program room trees).outcome = .ok ast) :
    ∃ body, ast = .source body ∧ (∀ n ∈ body, n.IsStatement) ∧ toTrees body = trees := by
  obtain ⟨-, body, hb, rfl⟩ := program_eq_ok.1 ha
  have hshape := @block_proper (room - 3) trees hs
  have hdecode := block_decodes_of (room - 3) fun t ht => statement_decodes (hs t ht)
  rw [hb] at hshape hdecode
  cases hshape with
  | ok hshape =>
    cases hdecode with
    | ok hdecode => exact ⟨body, rfl, hshape, hdecode⟩

/-! ## Searching -/

/-- The node was made of the tree; a search for any tag finds the trees with this tag in the tree,
and these are, one by one and in order, what the nodes of the type that goes with the tag were made
of. -/
def Matches (n : Ast) (t : Tree) : Prop :=
  n.toTree = t ∧ ∀ tag, t.find tag = .ok (t.subtrees.filter (hasTag tag)) ∧
    List.Forall₂ (fun m s => m.toTree = s) (n.walk.filter (ofTag tag))
      (t.subtrees.filter (hasTag tag))

theorem matches_of_standsFor {n : Ast} {t : Tree} (h : n.StandsFor t) : Matches n t := by
  obtain ⟨hn, rfl⟩ := h
  refine ⟨rfl, fun tag => ⟨hn.isStatement_toTree.find_eq_filter tag, ?_⟩⟩
  exact (hn.walk_filter tag).imp fun m s h => h.2

/-- **Analysis loses and invents nothing.** The trees of a program that the parser returns and
analysis accepts are read back from the result, so no other trees have the same result. The
statements of the result match the trees, and so do all nodes that a walk of the result meets the
trees that stand at any depth in these. -/
theorem program_decodes {nesting room : Nat} {text : List Char} {trees : List Tree} {ast : Ast}
    (h : Parser.program nesting text = .done trees [])
    (ha : (program room trees).outcome = .ok ast) :
    ast.programTrees = trees ∧
    (∀ {limit left : Nat} {other : List Char} {others : List Tree},
      Parser.program limit other = .done others [] → (program left others).outcome = .ok ast →
      others = trees) ∧
    ∃ body, ast = .source body ∧ List.Forall₂ Matches body trees ∧
      List.Forall₂ Matches (walkAll body) (subtreesAll trees) := by
  have shapes : ∀ {limit : Nat} {other : List Char} {others : List Tree},
      Parser.program limit other = .done others [] → ∀ t ∈ others, t.IsStatement :=
    fun hp => (Grammar.exists_program_iff.1 ⟨_, hp⟩).isStatement
  obtain ⟨body, rfl, hbody, rfl⟩ := program_ok (shapes h) ha
  refine ⟨rfl, fun hp ho => ?_, body, rfl, ?_, ?_⟩
  · obtain ⟨_, heq, -, rfl⟩ := program_ok (shapes hp) ho
    cases heq
    rfl
  · rw [toTrees_eq_map, List.forall₂_map_right_iff, List.forall₂_same]
    exact fun n hn => matches_of_standsFor ⟨hbody n hn, rfl⟩
  · have hall := walkAll_standsFor fun n hn => (hbody n hn).walk_standsFor
    exact hall.imp fun n t => matches_of_standsFor

/-- A conditional is read back with its condition apart from its body. -/
theorem program_decodes_conditional :
    Parser.program 9 "if (x) { y = f(1 + x); }".toList =
      .done [.conditional (.var "x") [.assignment "y" (.call "f" [.add (.int 1) (.var "x")])]] [] ∧
    (program 12 [.conditional (.var "x")
        [.assignment "y" (.call "f" [.add (.int 1) (.var "x")])]]).outcome =
      .ok (.source [.conditional (.var "x")
        [.assignment "y" (.call "f" [.add (.int 1) (.var "x")])]]) ∧
    (source [.conditional (.var "x")
        [.assignment "y" (.call "f" [.add (.int 1) (.var "x")])]]).programTrees =
      [.conditional (.var "x") [.assignment "y" (.call "f" [.add (.int 1) (.var "x")])]] := by
  have hparse : Parser.program 9 "if (x) { y = f(1 + x); }".toList = .done [.conditional
      (.var "x") [.assignment "y" (.call "f" [.add (.int 1) (.var "x")])]] [] := by cbv
  exact ⟨hparse, rfl, (@program_decodes 9 12 _ _ _ hparse rfl).1⟩

end Tama.Analysis
