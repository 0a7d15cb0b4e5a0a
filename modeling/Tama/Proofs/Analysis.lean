import Mathlib.Tactic.SplitIfs
import Tama.Analysis
import Tama.Proofs.Grammar.Trees
import Tama.Proofs.Run

/-!
# What analysis yields

On the trees of the grammar analysis yields a syntax tree of the same shape, finds a semantic error,
or runs out of stack; and it yields every syntax tree of such a shape, with room enough. So the
shapes `Ast.IsExpression` and `Ast.IsStatement` are the image of the analyzer (`exists_block_iff`).
How much of the stack an analysis takes is a measure of the trees (`Tree.statementFrames`).
-/

set_option autoImplicit false

namespace Tama

/-! ## Shapes -/

/-- The syntax trees of expressions. -/
inductive Ast.IsExpression : Ast → Prop
  | int (n : Int) : IsExpression (.int n)
  | bool (b : Bool) : IsExpression (.bool b)
  | null : IsExpression .null
  | var (x : String) : IsExpression (.var x)
  | add {l r : Ast} : IsExpression l → IsExpression r → IsExpression (.add l r)
  | call (f : String) {args : List Ast} : (∀ a ∈ args, IsExpression a) →
      IsExpression (.call f args)

/-- The syntax trees of statements. The parameters of a function are distinct. -/
inductive Ast.IsStatement : Ast → Prop
  | expression {n : Ast} : n.IsExpression → IsStatement n
  | assignment (x : String) {e : Ast} : e.IsExpression → IsStatement (.assignment x e)
  | conditional {c : Ast} {body : List Ast} : c.IsExpression → (∀ s ∈ body, IsStatement s) →
      IsStatement (.conditional c body)
  | definition (f : String) {params : List String} {body : List Ast} : params.Nodup →
      (∀ s ∈ body, IsStatement s) → IsStatement (.definition f params body)

/-! ## The stack -/

namespace Tree

mutual

/-- The frames of the stack that the analysis of an expression takes. -/
def expressionFrames : Tree → Nat
  | .add l r => max l.expressionFrames r.expressionFrames + 1
  | .call _ args => argumentFrames args + 2
  | _ => 2

/-- The frames that the analysis of each argument of a call can do with. -/
def argumentFrames : List Tree → Nat
  | [] => 0
  | t :: rest => max t.expressionFrames (argumentFrames rest)

end

mutual

/-- The frames of the stack that the analysis of a statement takes. -/
def statementFrames : Tree → Nat
  | .assignment _ e => e.expressionFrames + 1
  | .conditional c body => max (c.expressionFrames + 1) (blockFrames body + 3)
  | .definition _ _ body => blockFrames body + 4
  | t => t.expressionFrames + 1

/-- The frames that the analysis of each statement of a block can do with. -/
def blockFrames : List Tree → Nat
  | [] => 0
  | t :: rest => max t.statementFrames (blockFrames rest)

end

theorem two_le_expressionFrames (t : Tree) : 2 ≤ t.expressionFrames := by
  cases t with
  | add l r =>
    have hl := l.two_le_expressionFrames
    rw [expressionFrames]
    omega
  | call f args => exact Nat.le_add_left 2 _
  | _ => exact Nat.le_refl 2

theorem add_frames (l r : Tree) : (add l r).expressionFrames =
    max 2 (max (l.expressionFrames + 1) (r.expressionFrames + 1)) := by
  have hl := l.two_le_expressionFrames
  rw [expressionFrames]
  omega

theorem call_frames (f : String) (args : List Tree) :
    (call f args).expressionFrames = max 2 (argumentFrames args + 2) :=
  (Nat.max_eq_right (Nat.le_add_left 2 _)).symm

/-- An expression takes a frame more as a statement. -/
theorem IsExpression.statement_frames {t : Tree} (h : t.IsExpression) :
    t.statementFrames = t.expressionFrames + 1 := by
  cases h <;> rfl

end Tree

/-! ## Parameters -/

/-- Of several parameters this is the first whose name has come before. -/
def FirstRepeated (p : String) (params : List String) : Prop :=
  ∃ earlier later, params = earlier ++ p :: later ∧ earlier.Nodup ∧ p ∈ earlier

theorem FirstRepeated.not_nodup {p : String} {params : List String} (h : FirstRepeated p params) :
    ¬ params.Nodup := by
  obtain ⟨earlier, later, rfl, -, hp⟩ := h
  intro hn
  exact (List.nodup_append.1 hn).2.2 p hp p List.mem_cons_self rfl

namespace Analysis

open Run Tama.Tree

/-- Behind distinct parameters the search goes on to the first repeated one. -/
theorem firstRepeated_append {earlier : List String} (h : earlier.Nodup) (rest : List String) :
    ((earlier ++ rest).Nodup ∧
      firstRepeated (earlier.reverse.map .text) (rest.map .text) = .ok none) ∨
    ∃ p, FirstRepeated p (earlier ++ rest) ∧
      firstRepeated (earlier.reverse.map .text) (rest.map .text) = .ok (some (.text p)) := by
  induction rest generalizing earlier with
  | nil => exact .inl ⟨by simpa using h, rfl⟩
  | cons p rest ih =>
    have hmem : Name.text p ∈ earlier.reverse.map Name.text ↔ p ∈ earlier := by simp
    by_cases hp : p ∈ earlier
    · exact .inr ⟨p, ⟨earlier, rest, rfl, h, hp⟩, (if_pos (hmem.2 hp) : _)⟩
    · have hnext : (earlier ++ [p]).Nodup := by
        simpa [List.nodup_append] using ⟨h, fun q hq hqp => hp (hqp ▸ hq)⟩
      have hgo : firstRepeated (earlier.reverse.map .text) ((p :: rest).map .text) =
          firstRepeated ((earlier ++ [p]).reverse.map .text) (rest.map .text) := by
        rw [List.reverse_append]
        exact (if_neg (mt hmem.1 hp) : _)
      have happend : earlier ++ p :: rest = earlier ++ [p] ++ rest := by simp
      rw [hgo, happend]
      exact ih hnext

/-- Distinct parameters are let through; of others the first repeated one is reported. -/
theorem distinctParameters_outcome (f : String) (params : List String) (body : List Tree) :
    (params.Nodup ∧ (distinctParameters (.definition f params body) (.ok (.text f))
      (params.map .text)).outcome = .ok ()) ∨
    (∃ p, FirstRepeated p params ∧ (distinctParameters (.definition f params body) (.ok (.text f))
      (params.map .text)).outcome = .error (.semantic
        ⟨.duplicateParameter p f, "FUNCTION_DEF", .definition f params body⟩)) := by
  unfold distinctParameters
  rcases firstRepeated_append List.nodup_nil params with ⟨hd, ho⟩ | ⟨p, hp, ho⟩
  · refine .inl ⟨hd, ?_⟩
    rw [show firstRepeated [] (params.map .text) = _ from ho]
    rfl
  · refine .inr ⟨p, hp, ?_⟩
    rw [show firstRepeated [] (params.map .text) = _ from ho]
    rfl

/-! ## Frames -/

/-- A result for which the stack has to have so many frames. -/
def within {α : Type} (frames room : Nat) (a : α) : Except AnalysisFailure α :=
  if frames ≤ room then .ok a else .error (.fault .tooDeep)

theorem within_of_le {α : Type} {frames room : Nat} (h : frames ≤ room) (a : α) :
    within frames room a = .ok a :=
  if_pos h

theorem within_of_lt {α : Type} {frames room : Nat} (h : room < frames) (a : α) :
    within frames room a = .error (.fault .tooDeep) :=
  if_neg (Nat.not_le.2 h)

theorem reserve_outcome (frames room : Nat) : (reserve frames room).outcome =
    within frames room () := by
  unfold reserve within
  split <;> rfl

/-! ## Expressions -/

section

variable {room : Nat} {l r : Tree} {f : String} {args : List Tree}

theorem visitExpression_outcome {t : Tree} {tag : String} (h : tagText t = .ok tag) :
    (visitExpression room t).outcome = within 2 room () := by
  rw [visitExpression, Traced.outcome_bind, reserve_outcome, h]
  unfold within
  split <;> rfl

theorem expression_add_outcome : (expression room (.add l r)).outcome =
    (within 2 room ()).bind fun _ => (expression (room - 1) l).outcome.bind fun l' =>
      (expression (room - 1) r).outcome.bind fun r' => .ok (.add l' r') := by
  rw [← visitExpression_outcome (t := .add l r) rfl]
  show (visitExpression room _ >>= fun _ => expression (room - 1) l >>= fun l' =>
    expression (room - 1) r >>= fun r' => pure (Ast.add l' r')).outcome = _
  simp only [Traced.outcome_bind]
  rfl

theorem expression_call_outcome : (expression room (.call f args)).outcome =
    (within 2 room ()).bind fun _ => (expressions (room - 2) args).outcome.bind fun args' =>
      .ok (.call f args') := by
  rw [← visitExpression_outcome (t := .call f args) rfl]
  show (visitExpression room _ >>= fun _ => expressions (room - 2) args >>= fun args' =>
    pure (Ast.call f args')).outcome = _
  simp only [Traced.outcome_bind]
  rfl

theorem expressions_cons_outcome {t : Tree} {rest : List Tree} :
    (expressions room (t :: rest)).outcome =
      (expression room t).outcome.bind fun e => (expressions room rest).outcome.bind fun es =>
        .ok (e :: es) := by
  show (expression room t >>= fun e => expressions room rest >>= fun es =>
    pure (e :: es)).outcome = _
  simp only [Traced.outcome_bind]
  rfl

end

/-- A leaf takes the frames of a visit. -/
theorem visitExpression_return {room : Nat} {t : Tree} {e : Ast} {tag : String}
    (h : tagText t = .ok tag) :
    (visitExpression room t >>= fun _ => pure e).outcome = within 2 room e := by
  rw [Traced.outcome_bind, visitExpression_outcome h]
  unfold within
  split <;> rfl

/-- A node with one part, which is so many frames further down. -/
theorem within_one {α β : Type} {k i n total room : Nat} (g : α → β) (a : α) (hi : i ≤ k)
    (ht : total = max k (n + i)) :
    ((within k room ()).bind fun _ => (within n (room - i) a).bind fun a' => .ok (g a')) =
      within total room (g a) := by
  subst ht
  unfold within
  split_ifs <;> first | rfl | omega

/-- A node with two parts. -/
theorem within_two {α β γ : Type} {k i j n m total room : Nat} (g : α → β → γ) (a : α) (b : β)
    (hi : i ≤ k) (hj : j ≤ max k (n + i)) (ht : total = max k (max (n + i) (m + j))) :
    ((within k room ()).bind fun _ => (within n (room - i) a).bind fun a' =>
      (within m (room - j) b).bind fun b' => .ok (g a' b')) = within total room (g a b) := by
  subst ht
  unfold within
  split_ifs <;> first | rfl | omega

theorem within_cons {room n m : Nat} (a : Ast) (as : List Ast) :
    ((within n room a).bind fun a' => (within m room as).bind fun as' => .ok (a' :: as')) =
      within (max n m) room (a :: as) := by
  unfold within
  split_ifs <;> first | rfl | omega

/-- What the analysis of an expression yields, if the stack has room for it. -/
def Gives (t : Tree) (e : Ast) : Prop :=
  ∀ room, (expression room t).outcome = within t.expressionFrames room e

theorem expressions_outcome {args : List Tree} (h : ∀ t ∈ args, ∃ e, e.IsExpression ∧ Gives t e) :
    ∃ es : List Ast, (∀ e ∈ es, e.IsExpression) ∧
      ∀ room, (expressions room args).outcome = within (argumentFrames args) room es := by
  induction args with
  | nil => exact ⟨[], List.forall_mem_nil _, fun room => (within_of_le (Nat.zero_le room) []).symm⟩
  | cons t rest ih =>
    obtain ⟨e, hshape, he⟩ := h t List.mem_cons_self
    obtain ⟨es, hshapes, hes⟩ := ih fun t ht => h t (List.mem_cons_of_mem _ ht)
    refine ⟨e :: es, by simpa using ⟨hshape, hshapes⟩, fun room => ?_⟩
    rw [expressions_cons_outcome, he, hes, within_cons, argumentFrames]

/-- Every expression can be analyzed, on a stack with room for it. -/
theorem exists_gives {t : Tree} (h : t.IsExpression) : ∃ e, e.IsExpression ∧ Gives t e := by
  induction h with
  | int n => exact ⟨_, .int n, fun room => visitExpression_return rfl⟩
  | bool b => exact ⟨_, .bool b, fun room => visitExpression_return rfl⟩
  | null => exact ⟨_, .null, fun room => visitExpression_return rfl⟩
  | var x => exact ⟨_, .var x, fun room => visitExpression_return rfl⟩
  | @add l r _ _ ihl ihr =>
    obtain ⟨a, ha, hl⟩ := ihl
    obtain ⟨b, hb, hr⟩ := ihr
    refine ⟨_, .add ha hb, fun room => ?_⟩
    rw [expression_add_outcome, hl, hr]
    exact within_two Ast.add a b (by decide) (by omega) (add_frames l r)
  | call f _ ih =>
    obtain ⟨es, hshapes, hes⟩ := expressions_outcome ih
    refine ⟨_, .call f hshapes, fun room => ?_⟩
    rw [expression_call_outcome, hes]
    exact within_one (Ast.call f) es (Nat.le_refl 2) (call_frames f _)

theorem exists_expressions {es : List Ast}
    (h : ∀ e ∈ es, ∃ t : Tree, t.IsExpression ∧ Gives t e) :
    ∃ ts : List Tree, (∀ t ∈ ts, t.IsExpression) ∧
      ∀ room, (expressions room ts).outcome = within (argumentFrames ts) room es := by
  induction es with
  | nil => exact ⟨[], List.forall_mem_nil _, fun room => (within_of_le (Nat.zero_le room) []).symm⟩
  | cons e rest ih =>
    obtain ⟨t, ht, he⟩ := h e List.mem_cons_self
    obtain ⟨ts, hts, hes⟩ := ih fun e he => h e (List.mem_cons_of_mem _ he)
    refine ⟨t :: ts, by simpa using ⟨ht, hts⟩, fun room => ?_⟩
    rw [expressions_cons_outcome, he, hes, within_cons, argumentFrames]

/-- Every syntax tree of an expression comes from the analysis of one. -/
theorem exists_expression {e : Ast} (h : e.IsExpression) :
    ∃ t : Tree, t.IsExpression ∧ Gives t e := by
  induction h with
  | int n => exact ⟨_, .int n, fun room => visitExpression_return rfl⟩
  | bool b => exact ⟨_, .bool b, fun room => visitExpression_return rfl⟩
  | null => exact ⟨_, .null, fun room => visitExpression_return rfl⟩
  | var x => exact ⟨_, .var x, fun room => visitExpression_return rfl⟩
  | @add a b _ _ ihl ihr =>
    obtain ⟨l, hl, hlo⟩ := ihl
    obtain ⟨r, hr, hro⟩ := ihr
    refine ⟨_, .add hl hr, fun room => ?_⟩
    rw [expression_add_outcome, hlo, hro]
    exact within_two Ast.add a b (by decide) (by omega) (add_frames l r)
  | call f _ ih =>
    obtain ⟨ts, hts, htso⟩ := exists_expressions ih
    refine ⟨_, .call f hts, fun room => ?_⟩
    rw [expression_call_outcome, htso]
    exact within_one (Ast.call f) _ (Nat.le_refl 2) (call_frames f _)

/-! ## Statements -/

section

variable {room : Nat} {t c e : Tree} {x f : String} {params : List String} {body : List Tree}

theorem visitStatement_outcome {tag : String} (h : tagText t = .ok tag) :
    (visitStatement room t).outcome = within 2 room () := by
  rw [visitStatement, Traced.outcome_bind, reserve_outcome, h]
  unfold within
  split <;> rfl

/-- An expression is analyzed as a statement, in a frame more. -/
theorem statement_expression_outcome (h : t.IsExpression) : (statement room t).outcome =
    (within 2 room ()).bind fun _ => (expression (room - 1) t).outcome := by
  obtain ⟨tag, htag⟩ : ∃ tag, tagText t = .ok tag := by cases h <;> exact ⟨_, rfl⟩
  rw [← visitStatement_outcome htag, ← Traced.outcome_bind]
  cases h <;> rfl

theorem statement_assignment_outcome : (statement room (.assignment x e)).outcome =
    (within 2 room ()).bind fun _ => (expression (room - 1) e).outcome.bind fun e' =>
      .ok (.assignment x e') := by
  rw [← visitStatement_outcome (t := .assignment x e) rfl]
  show (visitStatement room _ >>= fun _ => expression (room - 1) e >>= fun e' =>
    pure (Ast.assignment x e')).outcome = _
  simp only [Traced.outcome_bind]
  rfl

theorem statement_conditional_outcome : (statement room (.conditional c body)).outcome =
    (within 2 room ()).bind fun _ => (expression (room - 1) c).outcome.bind fun c' =>
      (block (room - 3) body).outcome.bind fun body' => .ok (.conditional c' body') := by
  rw [← visitStatement_outcome (t := .conditional c body) rfl]
  show (visitStatement room _ >>= fun _ => expression (room - 1) c >>= fun c' =>
    block (room - 3) body >>= fun body' => pure (Ast.conditional c' body')).outcome = _
  simp only [Traced.outcome_bind]
  rfl

theorem statement_definition_outcome : (statement room (.definition f params body)).outcome =
    (within 4 room ()).bind fun _ => (distinctParameters (.definition f params body)
      (.ok (.text f)) (params.map .text)).outcome.bind fun _ =>
        (block (room - 4) body).outcome.bind fun body' => .ok (.definition f params body') := by
  show (visitStatement room _ >>= fun _ => reserve 4 room >>= fun _ => distinctParameters _ _ _ >>=
    fun _ => block (room - 4) body >>= fun body' =>
      pure (Ast.definition f params body')).outcome = _
  simp only [Traced.outcome_bind, visitStatement_outcome (t := .definition f params body) rfl,
    reserve_outcome]
  unfold within
  split_ifs <;> first | rfl | omega

theorem block_cons_outcome : (block room (t :: body)).outcome =
    (statement room t).outcome.bind fun s => (block room body).outcome.bind fun ss =>
      .ok (s :: ss) := by
  show (statement room t >>= fun s => block room body >>= fun ss => pure (s :: ss)).outcome = _
  simp only [Traced.outcome_bind]
  rfl

end

/-- A failure that is a semantic error, or for the lack of stack. -/
def IsProper (e : AnalysisFailure) : Prop :=
  (∃ e', e = .semantic e') ∨ e = .fault .tooDeep

theorem isProper_tooDeep : IsProper (.fault .tooDeep) :=
  .inr rfl

theorem within_post {α : Type} {P : α → Prop} {E : AnalysisFailure → Prop} {frames room : Nat}
    (he : E (.fault .tooDeep)) {a : α} (h : P a) : Post P E (within frames room a) := by
  unfold within
  split
  · exact .ok h
  · exact .error he

/-- What comes once the frames are reserved. -/
theorem within_bind_post {α : Type} {P : α → Prop} {E : AnalysisFailure → Prop}
    {frames room : Nat} (he : E (.fault .tooDeep)) {x : Except AnalysisFailure α}
    (h : Post P E x) : Post P E ((within frames room ()).bind fun _ => x) :=
  (within_post he trivial).bind fun _ (_ : True) => h

section

variable {room : Nat}

theorem expression_proper {t : Tree} (h : t.IsExpression) :
    Post Ast.IsExpression IsProper (expression room t).outcome := by
  obtain ⟨e, hshape, he⟩ := exists_gives h
  rw [he]
  exact within_post isProper_tooDeep hshape

theorem block_proper_of {body : List Tree}
    (h : ∀ t ∈ body, ∀ room, Post Ast.IsStatement IsProper (statement room t).outcome) :
    Post (fun ss : List Ast => ∀ s ∈ ss, s.IsStatement) IsProper (block room body).outcome := by
  induction body with
  | nil => exact .ok nofun
  | cons t rest ih =>
    rw [block_cons_outcome]
    refine (h t List.mem_cons_self room).bind fun s hs => ?_
    refine (ih fun t ht => h t (List.mem_cons_of_mem _ ht)).bind fun ss hss => ?_
    exact .ok (by simpa using ⟨hs, hss⟩)

theorem statement_proper {t : Tree} (h : t.IsStatement) (room : Nat) :
    Post Ast.IsStatement IsProper (statement room t).outcome := by
  induction h generalizing room with
  | expression h =>
    rw [statement_expression_outcome h]
    exact within_bind_post isProper_tooDeep
      ((expression_proper h).mono (fun _ => .expression) fun _ => id)
  | assignment x h =>
    rw [statement_assignment_outcome]
    exact within_bind_post isProper_tooDeep
      ((expression_proper h).bind fun e he => .ok (.assignment x he))
  | conditional hc _ ih =>
    rw [statement_conditional_outcome]
    exact within_bind_post isProper_tooDeep ((expression_proper hc).bind fun c hc =>
      (block_proper_of ih).bind fun body hb => .ok (.conditional hc hb))
  | @definition f params body _ ih =>
    rw [statement_definition_outcome]
    refine within_bind_post isProper_tooDeep ?_
    rcases distinctParameters_outcome f params body with ⟨hd, ho⟩ | ⟨p, -, ho⟩
    · rw [ho]
      exact (block_proper_of ih).bind fun body hb => .ok (.definition f hd hb)
    · rw [ho]
      exact .error (.inl ⟨_, rfl⟩)

/-- On the statements of the grammar, analysis yields statements, finds a semantic error, or runs
out of stack. -/
theorem block_proper {trees : List Tree} (h : ∀ t ∈ trees, t.IsStatement) :
    Post (fun body : List Ast => ∀ s ∈ body, s.IsStatement) IsProper (block room trees).outcome :=
  block_proper_of fun t ht => statement_proper (h t ht)

end

theorem exists_block_of {body : List Ast} (h : ∀ s ∈ body, ∃ t : Tree, t.IsStatement ∧
      ∀ room, (statement room t).outcome = within t.statementFrames room s) :
    ∃ trees : List Tree, (∀ t ∈ trees, t.IsStatement) ∧
      ∀ room, (block room trees).outcome = within (blockFrames trees) room body := by
  induction body with
  | nil => exact ⟨[], List.forall_mem_nil _, fun room => (within_of_le (Nat.zero_le room) []).symm⟩
  | cons s rest ih =>
    obtain ⟨t, ht, hs⟩ := h s List.mem_cons_self
    obtain ⟨ts, hts, hss⟩ := ih fun s hs => h s (List.mem_cons_of_mem _ hs)
    refine ⟨t :: ts, by simpa using ⟨ht, hts⟩, fun room => ?_⟩
    rw [block_cons_outcome, hs, hss, within_cons, blockFrames]

theorem statement_gives {t : Tree} {e : Ast} (h : t.IsExpression) (he : Gives t e) (room : Nat) :
    (statement room t).outcome = within t.statementFrames room e := by
  have hpos := t.two_le_expressionFrames
  rw [statement_expression_outcome h, he, h.statement_frames]
  unfold within
  split_ifs <;> first | rfl | omega

theorem exists_statement {s : Ast} (h : s.IsStatement) : ∃ t : Tree, t.IsStatement ∧
    ∀ room, (statement room t).outcome = within t.statementFrames room s := by
  induction h with
  | expression h =>
    obtain ⟨t, ht, ho⟩ := exists_expression h
    exact ⟨t, .expression ht, statement_gives ht ho⟩
  | assignment x h =>
    obtain ⟨t, ht, ho⟩ := exists_expression h
    refine ⟨_, .assignment x ht, fun room => ?_⟩
    have hpos := t.two_le_expressionFrames
    rw [statement_assignment_outcome, ho]
    exact within_one (Ast.assignment x) _ (by decide) (by rw [statementFrames]; omega)
  | conditional hc _ ih =>
    obtain ⟨c, hc, hco⟩ := exists_expression hc
    obtain ⟨body, hb, hbo⟩ := exists_block_of ih
    refine ⟨_, .conditional hc hb, fun room => ?_⟩
    have hpos := c.two_le_expressionFrames
    rw [statement_conditional_outcome, hco, hbo]
    exact within_two Ast.conditional _ _ (by decide) (by omega) (by rw [statementFrames]; omega)
  | @definition f params _ hd _ ih =>
    obtain ⟨body, hb, hbo⟩ := exists_block_of ih
    refine ⟨_, .definition f params hb, fun room => ?_⟩
    rcases distinctParameters_outcome f params body with ⟨-, ho⟩ | ⟨p, hp, -⟩
    · rw [statement_definition_outcome, hbo, ho]
      exact within_one (Ast.definition f params) _ (Nat.le_refl 4) (by rw [statementFrames]; omega)
    · exact absurd hd hp.not_nodup

/-- The lists of statements are what analysis makes of those of the grammar. -/
theorem exists_block_iff {body : List Ast} :
    (∃ trees : List Tree, (∀ t ∈ trees, t.IsStatement) ∧
      ∃ room, (block room trees).outcome = .ok body) ↔ ∀ s ∈ body, s.IsStatement := by
  constructor
  · rintro ⟨trees, ht, room, ho⟩
    have hpost := @block_proper room trees ht
    rw [ho] at hpost
    cases hpost with
    | ok h => exact h
  · intro h
    obtain ⟨trees, ht, ho⟩ := exists_block_of fun s hs => exists_statement (h s hs)
    exact ⟨trees, ht, _, (ho _).trans (within_of_le (Nat.le_refl _) body)⟩

/-! ## Programs -/

theorem program_outcome (room : Nat) (trees : List Tree) : (program room trees).outcome =
    (within 3 room ()).bind fun _ => (block (room - 3) trees).outcome.bind fun body =>
      .ok (.source body) := by
  simp only [program, Traced.outcome_bind, reserve_outcome]
  rfl

/-- A program is analyzed statement by statement, in three frames. -/
theorem program_eq_ok {room : Nat} {trees : List Tree} {ast : Ast} :
    (program room trees).outcome = .ok ast ↔
      3 ≤ room ∧ ∃ body, (block (room - 3) trees).outcome = .ok body ∧ ast = .source body := by
  rw [program_outcome]
  by_cases hroom : 3 ≤ room
  · rw [within_of_le hroom, and_iff_right hroom]
    cases hb : (block (room - 3) trees).outcome with
    | error e => exact ⟨nofun, by rintro ⟨_, ⟨⟩, -⟩⟩
    | ok body =>
      constructor
      · rintro ⟨⟩
        exact ⟨body, rfl, rfl⟩
      · rintro ⟨_, ⟨⟩, rfl⟩
        rfl
  · rw [within_of_lt (Nat.not_le.1 hroom)]
    exact ⟨nofun, fun h => absurd h.1 hroom⟩

/-- On the statements of the grammar, analysis yields a program, finds a semantic error, or runs out
of stack. -/
theorem program_proper {room : Nat} {trees : List Tree} (h : ∀ t ∈ trees, t.IsStatement) :
    Post (fun root => ∃ body, root = .source body ∧ ∀ s ∈ body, s.IsStatement) IsProper
      (program room trees).outcome := by
  rw [program_outcome]
  exact within_bind_post isProper_tooDeep
    ((block_proper h).bind fun body hb => .ok ⟨body, rfl, hb⟩)

end Analysis
end Tama
