import Tama.Proofs.Analysis

/-!
# The room of an analysis

How much room the stack has makes no difference to an analysis but for whether it runs out. One with
more room ends as one with less, unless that one runs out (`Extends`); this goes through every
sequence (`Extends.bind`), and so it holds of every expression (`expression_extends`) and of the
statements of a program (`block_extends`).
-/

set_option autoImplicit false

namespace Tama.Analysis

/-! ## Two analyses -/

/-- The second analysis ends as the first one does, unless that one runs out of stack. -/
def Extends {α : Type} (x y : Traced AnalysisFailure α) : Prop :=
  x.outcome ≠ .error (.fault .tooDeep) → y.outcome = x.outcome

namespace Extends

variable {α β : Type} {x y : Traced AnalysisFailure α} {f g : α → Traced AnalysisFailure β}

theorem refl (x : Traced AnalysisFailure α) : Extends x x :=
  fun _ => rfl

theorem bind (hx : Extends x y) (hf : ∀ a, Extends (f a) (g a)) :
    Extends (x >>= f) (y >>= g) := by
  unfold Extends at *
  rw [Traced.outcome_bind, Traced.outcome_bind]
  intro hdeep
  have hne : x.outcome ≠ .error (.fault .tooDeep) := by
    intro hx
    rw [hx] at hdeep
    exact hdeep rfl
  rw [hx hne]
  cases ho : x.outcome with
  | error e => rfl
  | ok a =>
    rw [ho] at hdeep
    exact hf a hdeep

end Extends

section

variable {room room' : Nat}

theorem reserve_extends (frames : Nat) (h : room ≤ room') :
    Extends (reserve frames room) (reserve frames room') := by
  unfold Extends
  rw [reserve_outcome, reserve_outcome]
  unfold within
  split_ifs <;> first | exact fun _ => rfl | exact fun hn => absurd rfl hn | omega

theorem visitExpression_extends (h : room ≤ room') (t : Tree) :
    Extends (visitExpression room t) (visitExpression room' t) :=
  (reserve_extends 2 h).bind fun _ => .refl _

theorem visitStatement_extends (h : room ≤ room') (t : Tree) :
    Extends (visitStatement room t) (visitStatement room' t) :=
  (reserve_extends 2 h).bind fun _ => .refl _

theorem notExpression_extends {α : Type} (h : room ≤ room') (t : Tree) :
    Extends (notExpression room t : Traced AnalysisFailure α) (notExpression room' t) :=
  .bind (.refl _) fun _ => (reserve_extends 3 h).bind fun _ => .refl _

end

mutual

theorem expression_extends : ∀ (t : Tree) {room room' : Nat}, room ≤ room' →
    Extends (expression room t) (expression room' t)
  | .int n, _, _, h => (visitExpression_extends h (.int n)).bind fun _ => .refl _
  | .bool b, _, _, h => (visitExpression_extends h (.bool b)).bind fun _ => .refl _
  | .null, _, _, h => (visitExpression_extends h .null).bind fun _ => .refl _
  | .var x, _, _, h => (visitExpression_extends h (.var x)).bind fun _ => .refl _
  | .add l r, _, _, h => (visitExpression_extends h (.add l r)).bind fun _ =>
    (expression_extends l (Nat.sub_le_sub_right h 1)).bind fun _ =>
      (expression_extends r (Nat.sub_le_sub_right h 1)).bind fun _ => .refl _
  | .call f args, _, _, h => (visitExpression_extends h (.call f args)).bind fun _ =>
    (expressions_extends args (Nat.sub_le_sub_right h 2)).bind fun _ => .refl _
  | .written d parts, room, room', h => by
    refine (visitExpression_extends h (.written d parts)).bind fun _ => ?_
    refine .bind (.refl _) fun (tag, value) => ?_
    dsimp only
    split
    · exact .refl _
    · exact .refl _
    · exact .refl _
    · exact .refl _
    · refine (expressions_extends parts (Nat.sub_le_sub_right h 1)).bind fun es => ?_
      split
      · exact .refl _
      · exact notExpression_extends h _
    · refine .bind (.refl _) fun name => ?_
      exact (expressions_extends parts (Nat.sub_le_sub_right h 2)).bind fun _ => .refl _
    · exact notExpression_extends h _
  | .hole f, _, _, _ => .refl _
  | .assignment x e, _, _, h => (visitExpression_extends h (.assignment x e)).bind fun _ =>
    notExpression_extends h _
  | .conditional c body, _, _, h => (visitExpression_extends h (.conditional c body)).bind fun _ =>
    notExpression_extends h _
  | .definition f params body, _, _, h =>
    (visitExpression_extends h (.definition f params body)).bind fun _ => notExpression_extends h _

theorem expressions_extends : ∀ (ts : List Tree) {room room' : Nat}, room ≤ room' →
    Extends (expressions room ts) (expressions room' ts)
  | [], _, _, _ => .refl _
  | t :: rest, _, _, h => (expression_extends t h).bind fun _ =>
    (expressions_extends rest h).bind fun _ => .refl _

end

theorem block_extends_of {room room' : Nat} (h : room ≤ room') {body : List Tree}
    (hs : ∀ t ∈ body, ∀ {room room' : Nat}, room ≤ room' →
      Extends (statement room t) (statement room' t)) :
    Extends (block room body) (block room' body) := by
  induction body with
  | nil => exact .refl _
  | cons t rest ih =>
    refine .bind (hs t List.mem_cons_self h) fun s => ?_
    exact (ih fun t ht => hs t (List.mem_cons_of_mem _ ht)).bind fun ss => .refl _

theorem statement_extends {t : Tree} (ht : t.IsStatement) {room room' : Nat} (h : room ≤ room') :
    Extends (statement room t) (statement room' t) := by
  induction ht generalizing room room' with
  | @expression t ht =>
    have hexpression := expression_extends t (Nat.sub_le_sub_right h 1)
    cases ht <;> exact (visitStatement_extends h _).bind fun _ => hexpression
  | assignment x _ =>
    refine (visitStatement_extends h _).bind fun _ => ?_
    exact (expression_extends _ (Nat.sub_le_sub_right h 1)).bind fun _ => .refl _
  | conditional _ _ ih =>
    refine (visitStatement_extends h _).bind fun _ => ?_
    refine (expression_extends _ (Nat.sub_le_sub_right h 1)).bind fun _ => ?_
    exact (block_extends_of (Nat.sub_le_sub_right h 3) ih).bind fun _ => .refl _
  | definition f params _ ih =>
    refine (visitStatement_extends h _).bind fun _ => (reserve_extends 4 h).bind fun _ => ?_
    refine .bind (.refl _) fun _ => ?_
    exact (block_extends_of (Nat.sub_le_sub_right h 4) ih).bind fun _ => .refl _

/-- More room makes no difference to an analysis that has enough of it. -/
theorem block_extends {room room' : Nat} (h : room ≤ room') {trees : List Tree}
    (ht : ∀ t ∈ trees, t.IsStatement) : Extends (block room trees) (block room' trees) :=
  block_extends_of h fun t hm => statement_extends (ht t hm)

/-- An analysis that does not run out of stack ends as it does with any other room. -/
theorem block_eq_ok {room room' : Nat} {trees : List Tree} {body : List Ast}
    (ht : ∀ t ∈ trees, t.IsStatement) (h : (block room trees).outcome = .ok body)
    (hd : (block room' trees).outcome ≠ .error (.fault .tooDeep)) :
    (block room' trees).outcome = .ok body := by
  rcases Nat.le_total room room' with hle | hle
  · rw [block_extends hle ht (by rw [h]; nofun), h]
  · rw [← block_extends hle ht hd, h]

/-- The analysis of the statements of a program, where the stack has enough room. -/
theorem program_eq_source {room room' : Nat} {trees : List Tree} {body : List Ast}
    (ht : ∀ t ∈ trees, t.IsStatement) (h : (block room trees).outcome = .ok body)
    (hd : (program room' trees).outcome ≠ .error (.fault .tooDeep)) :
    (program room' trees).outcome = .ok (.source body) := by
  rw [program_outcome] at hd
  have hroom : 3 ≤ room' := Nat.le_of_not_lt fun hlt => by
    rw [within_of_lt hlt] at hd
    exact hd rfl
  rw [within_of_le hroom] at hd
  refine program_eq_ok.2 ⟨hroom, body, block_eq_ok ht h fun hdeep => ?_, rfl⟩
  rw [hdeep] at hd
  exact hd rfl

end Tama.Analysis
