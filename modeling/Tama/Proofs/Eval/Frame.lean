import Tama.Proofs.Analysis
import Tama.Proofs.Ast.Occurrence
import Tama.Proofs.Eval.Atomic
import Tama.Proofs.Table

/-!
# The frame of an evaluation

What an evaluation does to the environment it is given: it binds the variables that its node assigns
and the functions that it defines, and nothing else (`Env.Grows`). Whatever a called function binds
stays in the scope of the call. From this one relation follow the laws of the frame (`eval_frame`):
names are never lost or moved, and a name that the node does not bind keeps its entry.
-/

set_option autoImplicit false

namespace Tama

variable {ι σ : Type}

/-! ## Growing environments -/

namespace Env

/-- An environment comes from another one by binding variables and functions of certain names. -/
inductive Grows (V F : Name → Prop) (env : Env ι) : Env ι → Prop
  | refl : Grows V F env env
  | bindVariable {mid : Env ι} {x : Name} (v : Value) : Grows V F env mid → V x →
      Grows V F env (mid.bindVariable x v)
  | bindFunction {mid : Env ι} {x : Name} (f : Function ι) : Grows V F env mid → F x →
      Grows V F env (mid.bindFunction x f)

namespace Grows

variable {V F V' F' : Name → Prop} {env mid env' : Env ι}

theorem trans (h : Grows V F env mid) (h' : Grows V F mid env') : Grows V F env env' := by
  induction h' with
  | refl => exact h
  | bindVariable v _ hx ih => exact .bindVariable v ih hx
  | bindFunction f _ hx ih => exact .bindFunction f ih hx

theorem mono (h : Grows V F env env') (hV : ∀ x, V x → V' x) (hF : ∀ x, F x → F' x) :
    Grows V' F' env env' := by
  induction h with
  | refl => exact .refl
  | bindVariable v _ hx ih => exact .bindVariable v ih (hV _ hx)
  | bindFunction f _ hx ih => exact .bindFunction f ih (hF _ hx)

theorem vars_names (h : Grows V F env env') : env.vars.names <+: env'.vars.names := by
  induction h with
  | refl => exact List.prefix_rfl
  | bindVariable v _ _ ih => exact ih.trans (Table.isPrefix_names_insert _ _ v)
  | bindFunction f _ _ ih => exact ih

theorem functions_names (h : Grows V F env env') :
    env.functions.names <+: env'.functions.names := by
  induction h with
  | refl => exact List.prefix_rfl
  | bindVariable v _ _ ih => exact ih
  | bindFunction f _ _ ih => exact ih.trans (Table.isPrefix_names_insert _ _ f)

theorem vars_get? (h : Grows V F env env') {x : Name} (hx : ∀ y, V y → y.canon ≠ x.canon) :
    env'.vars.get? x = env.vars.get? x := by
  induction h with
  | refl => rfl
  | bindVariable v _ hy ih => exact (Table.get?_insert_of_ne _ (hx _ hy).symm v).trans ih
  | bindFunction f _ _ ih => exact ih

theorem functions_get? (h : Grows V F env env') {x : Name} (hx : ∀ y, F y → y.canon ≠ x.canon) :
    env'.functions.get? x = env.functions.get? x := by
  induction h with
  | refl => rfl
  | bindVariable v _ _ ih => exact ih
  | bindFunction f _ hy ih => exact (Table.get?_insert_of_ne _ (hx _ hy).symm f).trans ih

/-- Where there is nothing to bind, nothing changes, the history included. -/
theorem eq (h : Grows V F env env') (hV : ∀ x, ¬ V x) (hF : ∀ x, ¬ F x) : env' = env := by
  cases h with
  | refl => rfl
  | bindVariable v _ hx => exact absurd hx (hV _)
  | bindFunction f _ hx => exact absurd hx (hF _)

end Grows
end Env

namespace Eval

open Run

variable {invoke : Invoke ι σ} {debug : Bool} {step : Step ι σ}

/-! ## Sequences and arguments -/

section
variable {V F : Name → Prop} {env env' : Env ι} {s t : σ}
  (hstep : ∀ (n : Ast) (env env' : Env ι) (s t : σ) (v : Value),
    Returns (step n env) s (v, env') t → Env.Grows n.Assigns n.Defines env env')

theorem settle_env {v w : Value} {after : Env ι}
    (h : Returns (settle v env after : Run σ Fault (Value × Env ι)) s (w, env') t) :
    env' = env ∨ env' = after := by
  rcases returns_if_failed h with ⟨-, h⟩ | ⟨-, h⟩
  · exact .inl (Prod.mk.inj h.of_pure.1).2
  · exact .inr (Prod.mk.inj h.of_pure.1).2

/-- A settled environment has grown if the one after it has. -/
theorem settle_grows {v w : Value} {after : Env ι} (ha : Env.Grows V F env after)
    (h : Returns (settle v env after : Run σ Fault (Value × Env ι)) s (w, env') t) :
    Env.Grows V F env env' := by
  rcases settle_env h with rfl | rfl
  · exact .refl
  · exact ha

include hstep

theorem sequence_grows {body : List Ast} (hV : ∀ c ∈ body, ∀ x, c.Assigns x → V x)
    (hF : ∀ c ∈ body, ∀ x, c.Defines x → F x) {v w : Value}
    (h : Returns (sequence step debug v env body) s (w, env') t) : Env.Grows V F env env' := by
  induction body generalizing v env s with
  | nil =>
    cases h.of_pure.1
    exact .refl
  | cons first rest ih =>
    obtain ⟨⟨v₁, env₁⟩, s₁, hfirst, h⟩ := h.of_bind
    rcases returns_if_failed h with ⟨-, h⟩ | ⟨-, h⟩
    · obtain ⟨_, _, _, h⟩ := h.of_bind
      cases h.of_pure.1
      exact .refl
    · have hgrows := (hstep first env env₁ s s₁ v₁ hfirst).mono (hV first List.mem_cons_self)
        (hF first List.mem_cons_self)
      exact hgrows.trans (ih (fun c hc => hV c (List.mem_cons_of_mem _ hc))
        (fun c hc => hF c (List.mem_cons_of_mem _ hc)) h)

theorem arguments_grows {args : List Ast} (hV : ∀ c ∈ args, ∀ x, c.Assigns x → V x)
    (hF : ∀ c ∈ args, ∀ x, c.Defines x → F x) {vs : List Value}
    (h : Returns (arguments step env args) s (.values vs env') t) : Env.Grows V F env env' := by
  induction args generalizing vs env s t with
  | nil =>
    cases h.of_pure.1
    exact .refl
  | cons first rest ih =>
    obtain ⟨⟨v₁, env₁⟩, s₁, hfirst, h⟩ := h.of_bind
    rcases returns_if_failed h with ⟨-, h⟩ | ⟨-, h⟩
    · cases h.of_pure.1
    · obtain ⟨a, s₂, hrest, h⟩ := h.of_bind
      cases a with
      | error e => cases h.of_pure.1
      | values vs last =>
        cases h.of_pure.1
        have hgrows := (hstep first env env₁ s s₁ v₁ hfirst).mono (hV first List.mem_cons_self)
          (hF first List.mem_cons_self)
        exact hgrows.trans (ih (fun c hc => hV c (List.mem_cons_of_mem _ hc))
          (fun c hc => hF c (List.mem_cons_of_mem _ hc)) hrest)

/-! ## Nodes -/

theorem node_grows {n : Ast} {v : Value}
    (h : Returns (node invoke debug step n env) s (v, env') t) :
    Env.Grows n.Assigns n.Defines env env' := by
  have hinner : ∀ {c : Ast} {env env' : Env ι} {s t : σ} {v : Value}, c ∈ n.form.inner →
      Returns (step c env) s (v, env') t → Env.Grows n.Assigns n.Defines env env' :=
    fun hc h => (hstep _ _ _ _ _ _ h).mono (fun _ => .inner hc) fun _ => .inner hc
  have hbody : ∀ {body : List Ast} {env env' : Env ι} {s t : σ} {v : Value},
      (∀ c ∈ body, c ∈ n.form.inner) → Returns (statements step debug body env) s (v, env') t →
      Env.Grows n.Assigns n.Defines env env' :=
    fun hb h => sequence_grows hstep (fun c hc _ => .inner (hb c hc))
      (fun c hc _ => .inner (hb c hc)) h
  unfold node at h
  obtain ⟨_, s₁, -, h⟩ := h.of_bind
  cases hform : n.form with
  | source body =>
    rw [hform] at h
    obtain ⟨body, hb, h⟩ := h.of_lift_bind
    have hmem : ∀ c ∈ body, c ∈ n.form.inner := by
      simp [hform, Ast.Form.inner, Except.toOption, hb]
    exact hbody hmem h
  | literal v =>
    rw [hform] at h
    obtain ⟨v, -, h⟩ := h.of_lift_bind
    cases h.of_pure.1
    exact .refl
  | var name =>
    rw [hform] at h
    obtain ⟨name, -, h⟩ := h.of_lift_bind
    cases h.of_pure.1
    exact .refl
  | assignment name expression =>
    rw [hform] at h
    obtain ⟨e, he, h⟩ := h.of_lift_bind
    obtain ⟨⟨v, env₁⟩, s₂, hrun, h⟩ := h.of_bind
    rcases returns_if_failed h with ⟨-, h⟩ | ⟨-, h⟩
    · cases h.of_pure.1
      exact .refl
    · obtain ⟨x, hx, h⟩ := h.of_lift_bind
      cases h.of_pure.1
      have hgrows := hinner (by simp [hform, Ast.Form.inner, Except.toOption, he]) hrun
      exact .bindVariable v hgrows ⟨n, expression, .self, by rw [hform, hx]⟩
  | add left right =>
    rw [hform] at h
    obtain ⟨l, hl, h⟩ := h.of_lift_bind
    obtain ⟨⟨vl, env₁⟩, s₂, hleft, h⟩ := h.of_bind
    rcases returns_if_failed h with ⟨-, h⟩ | ⟨-, h⟩
    · cases h.of_pure.1
      exact .refl
    · obtain ⟨r, hr, h⟩ := h.of_lift_bind
      obtain ⟨⟨vr, env₂⟩, s₃, hright, h⟩ := h.of_bind
      rcases returns_if_failed h with ⟨-, h⟩ | ⟨-, h⟩
      · cases h.of_pure.1
        exact .refl
      · obtain ⟨v, -, h⟩ := h.of_lift_bind
        have hgrows := hinner (by simp [hform, Ast.Form.inner, Except.toOption, hl]) hleft
        have hgrows' := hinner (by simp [hform, Ast.Form.inner, Except.toOption, hr]) hright
        exact settle_grows (hgrows.trans hgrows') h
  | conditional condition body =>
    rw [hform] at h
    obtain ⟨c, hc, h⟩ := h.of_lift_bind
    obtain ⟨⟨vc, env₁⟩, s₂, hrun, h⟩ := h.of_bind
    have hgrows := hinner (by simp [hform, Ast.Form.inner, Except.toOption, hc]) hrun
    rcases returns_if_failed h with ⟨-, h⟩ | ⟨-, h⟩
    · cases h.of_pure.1
      exact .refl
    · obtain ⟨holds, -, h⟩ := h.of_lift_bind
      cases holds with
      | true =>
        obtain ⟨body, hb, h⟩ := h.of_lift_bind
        obtain ⟨⟨v, last⟩, s₃, hrun, h⟩ := h.of_bind
        have hmem : ∀ c ∈ body, c ∈ n.form.inner := fun c hc => by
          simp [hform, Ast.Form.inner, Except.toOption, hb, hc]
        exact settle_grows (hgrows.trans (hbody hmem hrun)) h
      | false =>
        cases h.of_pure.1
        exact hgrows
  | definition parts =>
    rw [hform] at h
    obtain ⟨d, hd, h⟩ := h.of_lift_bind
    obtain ⟨_, s₂, -, h⟩ := h.of_bind
    obtain ⟨x, hx, h⟩ := h.of_lift_bind
    cases h.of_pure.1
    exact .bindFunction _ .refl ⟨n, d, .self, by rw [hform, hd], hx⟩
  | call name args =>
    rw [hform] at h
    obtain ⟨name, -, h⟩ := h.of_lift_bind
    cases hf : env.lookupFunction name with
    | none =>
      rw [hf] at h
      obtain ⟨v, -, h⟩ := h.of_lift_bind
      cases h.of_pure.1
      exact .refl
    | some f =>
      rw [hf] at h
      obtain ⟨args, ha, h⟩ := h.of_lift_bind
      obtain ⟨a, s₂, hrun, h⟩ := h.of_bind
      cases a with
      | error e =>
        cases h.of_pure.1
        exact .refl
      | values vs env₁ =>
        -- the scope of the call is gone; only the arguments can have bound anything
        obtain ⟨v, s₃, -, h⟩ := h.of_bind
        have hmem : ∀ c ∈ args, c ∈ n.form.inner := by
          simp [hform, Ast.Form.inner, Except.toOption, ha]
        exact settle_grows (arguments_grows hstep (fun c hc _ => .inner (hmem c hc))
          (fun c hc _ => .inner (hmem c hc)) hrun) h
  | unknown =>
    rw [hform] at h
    obtain ⟨_, s₂, -, h⟩ := h.of_bind
    obtain ⟨v, -, h⟩ := h.of_lift_bind
    cases h.of_pure.1
    exact .refl

end

theorem eval_grows (depth : Nat) : ∀ (n : Ast) (env env' : Env ι) (s t : σ) (v : Value),
    Returns (eval invoke debug depth n env) s (v, env') t →
      Env.Grows n.Assigns n.Defines env env' := by
  induction depth with
  | zero => exact fun n env env' s t v h => absurd h Returns.not_fail
  | succ depth ih => exact fun n env env' s t v h => node_grows ih h

end Eval

/-! ## Expressions -/

namespace Analysis

theorem notExpression_outcome {room : Nat} {t : Tree} {e : Ast} :
    (notExpression room t : Traced AnalysisFailure Ast).outcome ≠ .ok e := by
  intro h
  obtain ⟨_, -, h⟩ := Traced.of_bind_ok h
  obtain ⟨_, -, h⟩ := Traced.of_bind_ok h
  obtain ⟨_, -, h⟩ := Traced.of_bind_ok h
  cases h

mutual

/-- Analysis makes no expression that binds anything, of whatever tree it is. -/
theorem expression_quiet : ∀ (room : Nat) (t : Tree) {e : Ast},
    (expression room t).outcome = .ok e → e.Quiet
  | room, .int n, e, h => by
    obtain ⟨_, -, h⟩ := Traced.of_bind_ok h
    cases h
    exact .of_literal rfl
  | room, .bool b, e, h => by
    obtain ⟨_, -, h⟩ := Traced.of_bind_ok h
    cases h
    exact .of_literal rfl
  | room, .null, e, h => by
    obtain ⟨_, -, h⟩ := Traced.of_bind_ok h
    cases h
    exact .of_literal rfl
  | room, .var x, e, h => by
    obtain ⟨_, -, h⟩ := Traced.of_bind_ok h
    cases h
    exact .of_var rfl
  | room, .add l r, e, h => by
    obtain ⟨_, -, h⟩ := Traced.of_bind_ok h
    obtain ⟨l', hl, h⟩ := Traced.of_bind_ok h
    obtain ⟨r', hr, h⟩ := Traced.of_bind_ok h
    cases h
    exact .of_add rfl (expression_quiet _ l hl) (expression_quiet _ r hr)
  | room, .call f args, e, h => by
    obtain ⟨_, -, h⟩ := Traced.of_bind_ok h
    obtain ⟨args', ha, h⟩ := Traced.of_bind_ok h
    cases h
    exact .of_call rfl (expressions_quiet _ args ha)
  | room, .written d parts, e, h => by
    obtain ⟨_, -, h⟩ := Traced.of_bind_ok h
    obtain ⟨⟨tag, value⟩, -, h⟩ := Traced.of_bind_ok h
    dsimp only at h
    split at h
    · cases h
      exact .of_literal rfl
    · cases h
      exact .of_literal rfl
    · cases h
      exact .of_literal rfl
    · cases h
      exact .of_var rfl
    · obtain ⟨es, hes, h⟩ := Traced.of_bind_ok h
      have hquiet := expressions_quiet _ parts hes
      split at h
      · cases h
        exact .of_add rfl (hquiet _ (by simp)) (hquiet _ (by simp))
      · exact absurd h notExpression_outcome
    · obtain ⟨name, -, h⟩ := Traced.of_bind_ok h
      obtain ⟨es, hes, h⟩ := Traced.of_bind_ok h
      cases h
      -- the arguments of the node are the records of what analysis made of the parts
      refine .of_call (rfl : Ast.form _ = .call _ (.ok ((Ast.toData es).map .written))) ?_
      rw [← Ast.map_asRecord]
      have hquiet := expressions_quiet _ parts hes
      simpa using fun a h => (hquiet a h).asRecord
    · exact absurd h notExpression_outcome
  | _, .hole f, e, h => by cases (rfl : (expression _ (.hole f)).outcome = _).symm.trans h
  | room, .assignment x t, e, h => by
    obtain ⟨_, -, h⟩ := Traced.of_bind_ok h
    exact absurd h notExpression_outcome
  | room, .conditional c body, e, h => by
    obtain ⟨_, -, h⟩ := Traced.of_bind_ok h
    exact absurd h notExpression_outcome
  | room, .definition f params body, e, h => by
    obtain ⟨_, -, h⟩ := Traced.of_bind_ok h
    exact absurd h notExpression_outcome

theorem expressions_quiet : ∀ (room : Nat) (ts : List Tree) {es : List Ast},
    (expressions room ts).outcome = .ok es → ∀ e ∈ es, e.Quiet
  | _, [], es, h => by
    cases (rfl : (expressions _ []).outcome = _).symm.trans h
    simp
  | room, t :: rest, es, h => by
    obtain ⟨e, he, h⟩ := Traced.of_bind_ok h
    obtain ⟨es', hes, h⟩ := Traced.of_bind_ok h
    cases h
    have hfirst := expression_quiet room t he
    have hrest := expressions_quiet room rest hes
    simpa using ⟨hfirst, hrest⟩

end

end Analysis

/-! ## The main statement -/

namespace Eval

open Run

/-- **The frame of an evaluation.** The names of both tables stay, in their order, in front of
whatever is new; a variable that the node does not assign keeps its binding or stays unbound, and so
with functions that it does not define; and an expression changes nothing, whatever is called in
it. -/
theorem eval_frame (invoke : Invoke ι σ) (debug : Bool) (depth : Nat) (n : Ast)
    (env env' : Env ι) (s t : σ) (v : Value)
    (h : Returns (eval invoke debug depth n env) s (v, env') t) :
    env.vars.names <+: env'.vars.names ∧ env.functions.names <+: env'.functions.names ∧
    (∀ x : Name, (∀ y, n.Assigns y → y.canon ≠ x.canon) →
      env'.vars.get? x = env.vars.get? x) ∧
    (∀ x : Name, (∀ y, n.Defines y → y.canon ≠ x.canon) →
      env'.functions.get? x = env.functions.get? x) ∧
    ∀ room tree, (Analysis.expression room tree).outcome = .ok n → env' = env := by
  have hgrows := eval_grows depth n env env' s t v h
  refine ⟨hgrows.vars_names, hgrows.functions_names, fun x => hgrows.vars_get?,
    fun x => hgrows.functions_get?, fun room tree htree => ?_⟩
  have hquiet := Analysis.expression_quiet room tree htree
  exact hgrows.eq hquiet.not_assigns hquiet.not_defines

/-- `f()`, where `f` assigns a variable of its caller's, redefines itself and calls the outcome. -/
theorem eval_frame_of_redefinition :
    let host : Host Empty Unit := nofun
    let f : Function Empty := .defined []
      [.assignment "x" .null, .definition "f" [] [.assignment "y" .null], .call "f" []]
    let env := (Env.standard (.ofList [("x", .bool true)])).bindFunction "f" f
    ∃ env', Returns (eval (Callback.call host) false 5 (.call "f" []) env) () (.null, env') () ∧
      env' = env := by
  intro host f env
  have hrun : Returns (eval (Callback.call host) false 5 (.call "f" []) env) () (.null, env) () :=
    ⟨[], rfl⟩
  have hframe := eval_frame (Callback.call host) false 5 (.call "f" []) env env () () .null hrun
  exact ⟨env, hrun, hframe.2.2.2.2 2 (.call "f" []) rfl⟩

end Eval
end Tama
