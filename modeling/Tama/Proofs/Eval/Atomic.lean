import Tama.Eval
import Tama.Proofs.Run

/-!
# Failures are atomic

A node that returns an error returns it in the environment that it was given: whatever was bound on
the way there is gone. Only a sequence keeps anything, and it keeps whole statements: it returns the
environment that the statements before the failing one left (`FailsAt`), of which there is one.
-/

set_option autoImplicit false

namespace Tama.Eval

open Run

variable {ι σ : Type} {invoke : Invoke ι σ} {debug : Bool} {step : Step ι σ}

/-! ## Branches -/

/-- A value that a run has branched on is an error or not, and it says so. -/
theorem returns_if_failed {α : Type} {v : Value} {x y : Run σ Fault α} {s t : σ} {a : α}
    (h : Returns (do if ← v.failed then x else y : Run σ Fault α) s a t) :
    (v.failed = .ok true ∧ Returns x s a t) ∨ (v.failed = .ok false ∧ Returns y s a t) := by
  obtain ⟨b, hb, h⟩ := h.of_lift_bind
  cases b with
  | true => exact .inl ⟨hb, h⟩
  | false => exact .inr ⟨hb, h⟩

theorem if_failed {α : Type} {v : Value} {b : Bool} (h : v.failed = .ok b) (x y : Run σ Fault α) :
    (do if ← v.failed then x else y : Run σ Fault α) = if b then x else y :=
  lift_bind h _

theorem not_failed_false {v : Value} (he : v.isError = true) (hv : v.failed = .ok false) :
    False := by
  rw [Value.isError_of_failed hv] at he
  cases he

/-- Tracing leaves the state alone. -/
theorem trace_state {text : Except Fault String} {s t : σ}
    (h : Returns (trace debug text : Run σ Fault Unit) s () t) : t = s := by
  unfold trace at h
  split at h
  · obtain ⟨words, -, h⟩ := h.of_lift_bind
    obtain ⟨lines, h⟩ := h
    cases h
    rfl
  · exact h.of_pure.2

/-- A settled error is in the environment before it. -/
theorem settle_error {v e : Value} {before after env' : Env ι} {s t : σ}
    (h : Returns (settle v before after : Run σ Fault (Value × Env ι)) s (e, env') t)
    (he : e.isError = true) : env' = before := by
  rcases returns_if_failed h with ⟨-, h⟩ | ⟨hv, h⟩
  · exact (Prod.mk.inj h.of_pure.1).2
  · cases h.of_pure.1
    exact (not_failed_false he hv).elim

/-! ## Sequences -/

/-- The statements of a body before the given one succeed in an environment, in which that one then
returns the error. -/
def FailsAt (step : Step ι σ) (debug : Bool) (body : List Ast) (env : Env ι) (s : σ) (e : Value)
    (env' : Env ι) (i : Nat) : Prop :=
  ∃ v mid statement after t,
    Returns (statements step debug (body.take i) env) s (v, env') mid ∧ v.isError = false ∧
    body[i]? = some statement ∧ Returns (step statement env') mid (e, after) t

/-- One statement of a body fails, with the error and the environment of the body, and the run does
not depend on what stands behind it. -/
def FailsOnce (step : Step ι σ) (debug : Bool) (body : List Ast) (env : Env ι) (s : σ) (e : Value)
    (env' : Env ι) : Prop :=
  ∃ i, FailsAt step debug body env s e env' i ∧
    (∀ j, FailsAt step debug body env s e env' j → j = i) ∧
    ∀ later, statements step debug (body.take (i + 1) ++ later) env s =
      statements step debug body env s

/-- A sequence that succeeds goes on with whatever stands behind it. -/
theorem sequence_append {xs : List Ast} {v w : Value} {env env' : Env ι} {s mid : σ}
    (h : Returns (sequence step debug v env xs) s (w, env') mid) (hw : w.isError = false)
    (ys : List Ast) :
    sequence step debug v env (xs ++ ys) s =
      (sequence step debug v env xs >>= fun r => sequence step debug r.1 r.2 ys) s := by
  induction xs generalizing v env s with
  | nil => rfl
  | cons first rest ih =>
    obtain ⟨⟨v₁, env₁⟩, s₁, hfirst, h⟩ := h.of_bind
    rw [List.cons_append, sequence, sequence, Run.bind_assoc]
    refine hfirst.bind_congr ?_
    rcases returns_if_failed h with ⟨hf, h⟩ | ⟨hf, h⟩
    · obtain ⟨_, _, _, h⟩ := h.of_bind
      cases h.of_pure.1
      rw [Value.isError_of_failed hf] at hw
      cases hw
    · dsimp only
      rw [if_failed hf, if_failed hf]
      exact ih h

/-- A sequence that begins with a failing statement stops there. -/
theorem sequence_cons_error {first : Ast} {v e : Value} {env after : Env ι} {s t : σ}
    (h : Returns (step first env) s (e, after) t) (he : e.isError = true) (ys zs : List Ast) :
    sequence step debug v env (first :: ys) s = sequence step debug v env (first :: zs) s ∧
    ∀ w env' u, Returns (sequence step debug v env (first :: ys)) s (w, env') u → w = e := by
  have hf := Value.failed_of_isError he
  refine ⟨h.bind_congr ?_, fun w env' u hr => ?_⟩
  · dsimp only
    rw [if_failed hf, if_failed hf]
    rfl
  · obtain ⟨r, mid, hfirst, hr⟩ := hr.of_bind
    obtain ⟨hre, rfl⟩ := hfirst.unique h
    cases hre
    rcases returns_if_failed hr with ⟨-, hr⟩ | ⟨hne, -⟩
    · obtain ⟨_, _, _, hr⟩ := hr.of_bind
      exact (Prod.mk.inj hr.of_pure.1).1
    · exact (not_failed_false he hne).elim

theorem sequence_failsAt {body : List Ast} {v e : Value} {env env' : Env ι} {s t : σ}
    (h : Returns (sequence step debug v env body) s (e, env') t) (he : e.isError = true)
    (hv : v.isError = false) :
    ∃ i w mid statement after t, Returns (sequence step debug v env (body.take i)) s (w, env') mid ∧
      w.isError = false ∧ body[i]? = some statement ∧
      Returns (step statement env') mid (e, after) t := by
  induction body generalizing v env s with
  | nil =>
    cases h.of_pure.1
    rw [hv] at he
    cases he
  | cons first rest ih =>
    obtain ⟨⟨v₁, env₁⟩, s₁, hfirst, h⟩ := h.of_bind
    rcases returns_if_failed h with ⟨-, h⟩ | ⟨hf, h⟩
    · obtain ⟨_, _, _, h⟩ := h.of_bind
      cases h.of_pure.1
      exact ⟨0, v, s, first, env₁, s₁, .pure _ _, hv, rfl, hfirst⟩
    · obtain ⟨i, w, mid, statement, after, u, htake, hw, hi, hstep⟩ :=
        ih h (Value.isError_of_failed hf)
      refine ⟨i + 1, w, mid, statement, after, u, hfirst.bind ?_, hw, hi, hstep⟩
      dsimp only
      rw [if_failed hf]
      exact htake

/-- From a failing statement on it does not matter what stands there. -/
theorem FailsAt.rest {body : List Ast} {env env' : Env ι} {s : σ} {e : Value} {i : Nat}
    (h : FailsAt step debug body env s e env' i) (he : e.isError = true) (ys zs : List Ast) :
    statements step debug (body.take (i + 1) ++ ys) env s =
      statements step debug (body.take (i + 1) ++ zs) env s ∧
    ∀ w last u, Returns (statements step debug (body.take (i + 1) ++ ys) env) s (w, last) u →
      w = e := by
  obtain ⟨v, mid, statement, after, t, htake, hv, hi, hstep⟩ := h
  have hsplit : ∀ zs, body.take (i + 1) ++ zs = body.take i ++ statement :: zs := by
    intro zs
    rw [List.take_add_one, hi, List.append_assoc]
    rfl
  have hrun := sequence_append htake hv
  obtain ⟨hsame, hreturns⟩ := sequence_cons_error (v := v) hstep he ys zs
  rw [hsplit, hsplit]
  unfold statements
  rw [hrun, hrun]
  refine ⟨htake.bind_congr hsame, fun w last u ⟨lines, hr⟩ => ?_⟩
  rw [hrun] at hr
  obtain ⟨r, mid', hr', hr⟩ := Returns.of_bind ⟨lines, hr⟩
  obtain ⟨hre, rfl⟩ := hr'.unique htake
  cases hre
  exact hreturns w last u hr

/-- No statement in front of a failing one fails. -/
theorem FailsAt.le {body : List Ast} {env env' : Env ι} {s : σ} {e : Value} {i j : Nat}
    (hi : FailsAt step debug body env s e env' i) (hj : FailsAt step debug body env s e env' j)
    (he : e.isError = true) : j ≤ i := by
  refine Classical.byContradiction fun hlt => ?_
  obtain ⟨v, mid, -, -, -, htake, hv, -⟩ := hj
  -- the statements before the later one would contain the failing one
  have hsplit : body.take j = body.take (i + 1) ++ (body.take j).drop (i + 1) := by
    have := List.take_append_drop (i + 1) (body.take j)
    rw [List.take_take, Nat.min_eq_left (by omega)] at this
    exact this.symm
  rw [hsplit] at htake
  have hve := (hi.rest he ((body.take j).drop (i + 1)) []).2 v env' mid htake
  rw [hve, he] at hv
  cases hv

theorem statements_failsOnce {body : List Ast} {e : Value} {env env' : Env ι} {s t : σ}
    (h : Returns (statements step debug body env) s (e, env') t) (he : e.isError = true) :
    FailsOnce step debug body env s e env' := by
  obtain ⟨i, hi⟩ := sequence_failsAt h he rfl
  have hi : FailsAt step debug body env s e env' i := hi
  refine ⟨i, hi, fun j hj => Nat.le_antisymm (hi.le hj he) (hj.le hi he), fun later => ?_⟩
  have := (hi.rest he later (body.drop (i + 1))).1
  rwa [List.take_append_drop] at this

/-! ## Nodes -/

/-- The programs among the nodes are those that ask for a body to be run. -/
theorem kind_source_iff {n : Ast} : n.kind = .text "Source" ↔ ∃ body, n.form = .source body := by
  cases n with
  | source body => exact ⟨fun _ => ⟨_, rfl⟩, fun _ => rfl⟩
  | written d =>
    show d.kind = .text "Source" ↔ ∃ body, Ast.Form.ofDatum d = .source body
    unfold Ast.Form.ofDatum
    constructor
    · intro h
      rw [h]
      exact ⟨_, rfl⟩
    · rintro ⟨body, h⟩
      split at h <;> first | assumption | cases h
  | _ =>
    constructor
    · intro h
      simp [Ast.kind] at h
    · rintro ⟨body, h⟩
      cases h

theorem node_error {n : Ast} {e : Value} {env env' : Env ι} {s t : σ}
    (hn : n.kind ≠ .text "Source")
    (h : Returns (node invoke debug step n env) s (e, env') t) (he : e.isError = true) :
    env' = env := by
  unfold node at h
  obtain ⟨_, s₁, -, h⟩ := h.of_bind
  cases hform : n.form with
  | source body => exact absurd (kind_source_iff.2 ⟨body, hform⟩) hn
  | literal v =>
    rw [hform] at h
    obtain ⟨v, -, h⟩ := h.of_lift_bind
    exact (Prod.mk.inj h.of_pure.1).2
  | var name =>
    rw [hform] at h
    obtain ⟨name, -, h⟩ := h.of_lift_bind
    exact (Prod.mk.inj h.of_pure.1).2
  | assignment name expression =>
    rw [hform] at h
    obtain ⟨expression, -, h⟩ := h.of_lift_bind
    obtain ⟨⟨v, env₁⟩, s₂, -, h⟩ := h.of_bind
    rcases returns_if_failed h with ⟨-, h⟩ | ⟨-, h⟩
    · exact (Prod.mk.inj h.of_pure.1).2
    · obtain ⟨name, -, h⟩ := h.of_lift_bind
      cases h.of_pure.1
      cases he
  | add left right =>
    rw [hform] at h
    obtain ⟨left, -, h⟩ := h.of_lift_bind
    obtain ⟨⟨l, env₁⟩, s₂, -, h⟩ := h.of_bind
    rcases returns_if_failed h with ⟨-, h⟩ | ⟨-, h⟩
    · exact (Prod.mk.inj h.of_pure.1).2
    · obtain ⟨right, -, h⟩ := h.of_lift_bind
      obtain ⟨⟨r, env₂⟩, s₃, -, h⟩ := h.of_bind
      rcases returns_if_failed h with ⟨-, h⟩ | ⟨-, h⟩
      · exact (Prod.mk.inj h.of_pure.1).2
      · obtain ⟨v, -, h⟩ := h.of_lift_bind
        exact settle_error h he
  | conditional condition body =>
    rw [hform] at h
    obtain ⟨condition, -, h⟩ := h.of_lift_bind
    obtain ⟨⟨c, env₁⟩, s₂, -, h⟩ := h.of_bind
    rcases returns_if_failed h with ⟨-, h⟩ | ⟨-, h⟩
    · exact (Prod.mk.inj h.of_pure.1).2
    · obtain ⟨holds, -, h⟩ := h.of_lift_bind
      cases holds with
      | true =>
        obtain ⟨body, -, h⟩ := h.of_lift_bind
        obtain ⟨⟨v, last⟩, s₃, -, h⟩ := h.of_bind
        exact settle_error h he
      | false =>
        cases h.of_pure.1
        cases he
  | definition parts =>
    rw [hform] at h
    obtain ⟨d, -, h⟩ := h.of_lift_bind
    obtain ⟨_, s₂, -, h⟩ := h.of_bind
    obtain ⟨name, -, h⟩ := h.of_lift_bind
    cases h.of_pure.1
    cases he
  | call name args =>
    rw [hform] at h
    obtain ⟨name, -, h⟩ := h.of_lift_bind
    cases hf : env.lookupFunction name with
    | none =>
      rw [hf] at h
      obtain ⟨v, -, h⟩ := h.of_lift_bind
      exact (Prod.mk.inj h.of_pure.1).2
    | some f =>
      rw [hf] at h
      obtain ⟨args, -, h⟩ := h.of_lift_bind
      obtain ⟨vs, s₂, -, h⟩ := h.of_bind
      cases vs with
      | error v => exact (Prod.mk.inj h.of_pure.1).2
      | values vs env₁ =>
        obtain ⟨v, s₃, -, h⟩ := h.of_bind
        exact settle_error h he
  | unknown =>
    rw [hform] at h
    obtain ⟨_, s₂, -, h⟩ := h.of_bind
    obtain ⟨v, -, h⟩ := h.of_lift_bind
    exact (Prod.mk.inj h.of_pure.1).2

theorem node_source_error {n : Ast} {e : Value} {env env' : Env ι} {s t : σ}
    (hn : n.kind = .text "Source")
    (h : Returns (node invoke debug step n env) s (e, env') t) (he : e.isError = true) :
    ∃ body, n.form = .source (.ok body) ∧ FailsOnce step debug body env s e env' := by
  obtain ⟨body, hform⟩ := kind_source_iff.1 hn
  unfold node at h
  obtain ⟨_, s₁, htrace, h⟩ := h.of_bind
  rw [hform] at h
  obtain ⟨body, rfl, h⟩ := h.of_lift_bind
  cases trace_state htrace
  exact ⟨body, hform, statements_failsOnce h he⟩

theorem eval_error {depth : Nat} {n : Ast} {e : Value} {env env' : Env ι} {s t : σ}
    (hn : n.kind ≠ .text "Source")
    (h : Returns (eval invoke debug depth n env) s (e, env') t) (he : e.isError = true) :
    env' = env := by
  cases depth with
  | zero => exact absurd h Returns.not_fail
  | succ depth => exact node_error hn h he

theorem eval_source_error {depth : Nat} {n : Ast} {e : Value} {env env' : Env ι} {s t : σ}
    (hn : n.kind = .text "Source")
    (h : Returns (eval invoke debug depth n env) s (e, env') t) (he : e.isError = true) :
    ∃ body, n.form = .source (.ok body) ∧
      FailsOnce (eval invoke debug (depth - 1)) debug body env s e env' := by
  cases depth with
  | zero => exact absurd h Returns.not_fail
  | succ depth => exact node_source_error hn h he

/-! ## Programs -/

/-- A program returns what its evaluation does, or it met the recursion limit. -/
theorem evaluate_returns {host : Host ι σ} {root : Ast} {v : Value} {env env' : Env ι} {s t : σ}
    (h : Returns (evaluate host debug root env) s (v, env') t) :
    Returns (eval (Callback.call host) debug maxDepth root env) s (v, env') t ∨
    ((eval (Callback.call host) debug maxDepth root env s).1.outcome = .error .tooDeep ∧
      v = depthError root ∧ env' = env) := by
  obtain ⟨lines, h⟩ := h
  unfold evaluate at h
  split at h
  · rename_i hd
    cases h
    exact .inr ⟨by rw [hd], rfl, rfl⟩
  · exact .inl ⟨lines, h⟩

/-- **Failures are atomic.** A node other than a program that returns an error returns it in the
environment that it was given. Where a sequence of statements does, exactly one of them failed: the
ones before it succeeded in the environment of the result, and none after it ran. So it is with a
program, unless it met the recursion limit, and then it is back in the environment it was given. -/
theorem error_is_atomic (invoke : Invoke ι σ) (host : Host ι σ) (debug : Bool) (depth : Nat)
    (env env' : Env ι) (s t : σ) (e : Value) (he : e.isError = true) :
    (∀ n : Ast, n.kind ≠ .text "Source" →
      Returns (eval invoke debug depth n env) s (e, env') t → env' = env) ∧
    (∀ body : List Ast,
      Returns (statements (eval invoke debug depth) debug body env) s (e, env') t →
      FailsOnce (eval invoke debug depth) debug body env s e env') ∧
    (∀ n : Ast, n.kind = .text "Source" →
      Returns (eval invoke debug depth n env) s (e, env') t →
      ∃ body, n.form = .source (.ok body) ∧
        FailsOnce (eval invoke debug (depth - 1)) debug body env s e env') ∧
    ∀ root : Ast, root.kind = .text "Source" →
      Returns (evaluate host debug root env) s (e, env') t →
      ((eval (Callback.call host) debug maxDepth root env s).1.outcome = .error .tooDeep ∧
        e = depthError root ∧ env' = env) ∨
      ∃ body, root.form = .source (.ok body) ∧
        FailsOnce (eval (Callback.call host) debug (maxDepth - 1)) debug body env s e env' := by
  refine ⟨fun n hn h => eval_error hn h he, fun body h => statements_failsOnce h he,
    fun n hn h => eval_source_error hn h he, fun root hn h => ?_⟩
  rcases evaluate_returns h with h | h
  · exact .inr (eval_source_error hn h he)
  · exact .inl h

/-- `x = true; missing(); print(null)` keeps the first statement as a sequence, and nothing as the
body of a conditional. -/
theorem error_is_atomic_after_binding :
    let host : Host Empty Unit := nofun
    let body : List Ast :=
      [.assignment "x" (.bool true), .call "missing" [], .call "print" [.null]]
    let env : Env Empty := .standard .empty
    let e := callError "Undefined function: missing"
    FailsOnce (eval (Callback.call host) false 5) false body env () e
      (env.bindVariable "x" (.bool true)) ∧
    ∃ env' t, Returns (eval (Callback.call host) false 5 (.conditional (.bool true) body) env) ()
      (e, env') t ∧ env' = env := by
  intro host body env e
  have hrun : Returns (statements (eval (Callback.call host) false 5) false body env) ()
      (e, env.bindVariable "x" (.bool true)) () := ⟨[], rfl⟩
  have hkind : (Ast.conditional (.bool true) body).kind ≠ .text "Source" := by simp [Ast.kind]
  have hnode : Returns (eval (Callback.call host) false 5 (.conditional (.bool true) body) env) ()
      (e, env) () := ⟨[], rfl⟩
  refine ⟨?_, env, (), hnode, ?_⟩
  · exact (error_is_atomic (Callback.call host) host false 5 env _ () () e rfl).2.1 body hrun
  · exact (error_is_atomic (Callback.call host) host false 5 env env () () e rfl).1 _ hkind hnode

end Tama.Eval
