import Tama.Proofs.Session.Calls

/-!
# Evaluation in a safe environment

In a safe environment a statement evaluates to a result that `Value.Result` lists, in a safe
environment again, or it is stopped by a fault that `Fault.Raised` lists or by the depth. One lemma
per function of the evaluator says so for whatever evaluates the nodes inside; the induction on the
depth is at the end (`eval_ensures`).
-/

set_option autoImplicit false

namespace Tama.Eval

open Run

variable {ι σ : Type}

/-! ## Results -/

/-- What an evaluation in a safe environment yields. -/
def Good (r : Value × Env ι) : Prop :=
  r.1.Result ∧ r.2.Safe

/-- What may stop an evaluation. -/
def Stops (f : Fault) : Prop :=
  f.Raised ∨ f = .tooDeep

/-- What the arguments of a call yield in a safe environment. -/
inductive Arguments.Good : Arguments ι → Prop
  | values {vs : List Value} {env : Env ι} : (∀ v ∈ vs, v.Canonical) → env.Safe →
      Good (.values vs env)
  | error {v : Value} : v.Result → Good (.error v)

/-- A result is an error, or else a value that scripts compute with. -/
theorem ensures_if_failed {α : Type} {P : α → Prop} {E : Fault → Prop} {v : Value}
    (hv : v.Result) {x y : Run σ Fault α} (hx : Ensures P E x)
    (hy : v.Canonical → Ensures P E y) :
    Ensures P E (do if ← v.failed then x else y : Run σ Fault α) := by
  refine .lift_bind hv.failed ?_
  split
  · exact hx
  · rename_i he
    exact hy (hv.canonical (Bool.not_eq_true _ ▸ he))

theorem settle_ensures {v : Value} {before after : Env ι} (hv : v.Result) (hb : before.Safe)
    (ha : after.Safe) :
    Ensures Good Stops (settle v before after : Run σ Fault (Value × Env ι)) :=
  ensures_if_failed hv (.pure ⟨hv, hb⟩) fun _ => .pure ⟨hv, ha⟩

theorem add_rejected {x y : Value} (hx : x.Canonical) (hy : y.Canonical)
    (h : ¬ (x.kind = .text "IntValue" ∧ y.kind = .text "IntValue")) :
    ∃ message, Value.add x y = .ok (.typeError "Add" message [x.kind, y.kind]) := by
  cases hx <;> cases hy <;> first | exact absurd ⟨rfl, rfl⟩ h | exact ⟨_, rfl⟩

theorem add_result {x y : Value} (hx : x.Canonical) (hy : y.Canonical) :
    ∃ v, Value.add x y = .ok v ∧ v.Result := by
  by_cases h : x.kind = .text "IntValue" ∧ y.kind = .text "IntValue"
  · cases hx <;> cases hy <;>
      first | exact ⟨_, rfl, .value (.int _)⟩ | simp [Value.kind, Value.tag?] at h
  · obtain ⟨message, hadd⟩ := add_rejected hx hy h
    exact ⟨_, hadd, .rejected message hx hy h⟩

theorem isTruthy_canonical {v : Value} (h : v.Canonical) : ∃ b, v.isTruthy = .ok b := by
  cases h with
  | int n => exact ⟨_, rfl⟩
  | bool b => exact ⟨_, rfl⟩
  | null => exact ⟨_, rfl⟩

/-! ## Sequences and calls -/

section

variable {step : Step ι σ}
  (hstep : ∀ (n : Ast) (env : Env ι), n.IsStatement → env.Safe → Ensures Good Stops (step n env))

include hstep

theorem sequence_ensures {body : List Ast} (hb : ∀ s ∈ body, s.IsStatement) :
    ∀ (v : Value) (env : Env ι), v.Result → env.Safe →
      Ensures Good Stops (sequence step false v env body) := by
  induction body with
  | nil => exact fun v env hv henv => .pure ⟨hv, henv⟩
  | cons first rest ih =>
    intro v env hv henv
    refine (hstep first env (hb first List.mem_cons_self) henv).bind fun r hr => ?_
    refine ensures_if_failed hr.1 ?_ fun _ => ?_
    · exact (trace_ensures _).bind fun _ _ => .pure ⟨hr.1, henv⟩
    · exact ih (fun s hs => hb s (List.mem_cons_of_mem _ hs)) r.1 r.2 hr.1 hr.2

theorem statements_ensures {body : List Ast} (hb : ∀ s ∈ body, s.IsStatement) {env : Env ι}
    (henv : env.Safe) : Ensures Good Stops (statements step false body env) :=
  sequence_ensures hstep hb .null env (.value .null) henv

theorem arguments_ensures {args : List Ast} (ha : ∀ a ∈ args, a.IsExpression) :
    ∀ env : Env ι, env.Safe → Ensures Arguments.Good Stops (arguments step env args) := by
  induction args with
  | nil => exact fun env henv => .pure (.values nofun henv)
  | cons first rest ih =>
    intro env henv
    refine (hstep first env (.expression (ha first List.mem_cons_self)) henv).bind fun r hr => ?_
    refine ensures_if_failed hr.1 (.pure (.error hr.1)) fun hc => ?_
    refine (ih (fun a h => ha a (List.mem_cons_of_mem _ h)) r.2 hr.2).bind fun vs hvs => ?_
    cases hvs with
    | values hvs hlast => exact .pure (.values (by simpa using ⟨hc, hvs⟩) hlast)
    | error hv => exact .pure (.error hv)

theorem callDefined_ensures (name : Name) {params : List String} {body : List Ast}
    (hb : ∀ s ∈ body, s.IsStatement) {args : List Value} (ha : ∀ v ∈ args, v.Canonical)
    {env : Env ι} (henv : env.Safe) :
    Ensures Value.Result Stops (callDefined step false name (.defined params body) args env) := by
  refine (Ensures.pure trivial).bind fun _ (_ : True) => ?_
  refine (trace_ensures _).bind fun _ _ => ?_
  refine .lift_bind rfl (.lift_bind (Datum.names_map_text params args.length) ?_)
  refine .lift_bind rfl ?_
  refine (statements_ensures hstep hb (henv.callScope _ ha)).bind fun r hr => ?_
  exact .pure hr.1

theorem callFunction_ensures (host : Host ι σ) (name : Name) {key : Name} {f : Function ι}
    (hf : Function.Safe key f) {args : List Value} (ha : ∀ v ∈ args, v.Canonical) {env : Env ι}
    (henv : env.Safe) :
    Ensures Value.Result Stops
      (callFunction (Callback.call host) step false name f args env) := by
  cases hf with
  | standard b => exact (callEmbedded_ensures host name b ha).mono (fun _ => .value) fun _ => .inl
  | defined _ _ _ hb =>
    exact callDefined_ensures hstep name (Analysis.exists_block_iff.1 hb) ha henv

end

/-! ## Nodes -/

section

variable {step : Step ι σ}
  (hstep : ∀ (n : Ast) (env : Env ι), n.IsStatement → env.Safe → Ensures Good Stops (step n env))

include hstep

theorem call_ensures (host : Host ι σ) (f : String) {args : List Ast}
    (ha : ∀ a ∈ args, a.IsExpression) {env : Env ι} (henv : env.Safe) :
    Ensures Good Stops (node (Callback.call host) false step (.call f args) env) := by
  refine (trace_ensures _).bind fun _ _ => .lift_bind rfl ?_
  cases hf : env.lookupFunction f with
  | none => exact .lift_bind rfl (.pure ⟨.undefined f, henv⟩)
  | some fn =>
    obtain ⟨key, -, hsafe⟩ := henv.lookupFunction hf
    refine .lift_bind rfl ((arguments_ensures hstep ha env henv).bind fun vs hvs => ?_)
    cases hvs with
    | error hv => exact .pure ⟨hv, henv⟩
    | values hvs henv' =>
      refine (callFunction_ensures hstep host f hsafe hvs henv').bind fun v hv => ?_
      exact settle_ensures hv henv henv'

theorem expression_ensures (host : Host ι σ) {n : Ast} (hn : n.IsExpression) {env : Env ι}
    (henv : env.Safe) : Ensures Good Stops (node (Callback.call host) false step n env) := by
  cases hn with
  | int n => exact (trace_ensures _).bind fun _ _ => .pure ⟨.value (.int n), henv⟩
  | bool b => exact (trace_ensures _).bind fun _ _ => .pure ⟨.value (.bool b), henv⟩
  | null => exact (trace_ensures _).bind fun _ _ => .pure ⟨.value .null, henv⟩
  | var x => exact (trace_ensures _).bind fun _ _ => .pure ⟨.value (henv.lookupVariable _), henv⟩
  | call f ha => exact call_ensures hstep host f ha henv
  | add hl hr =>
    refine (trace_ensures _).bind fun _ _ => .lift_bind rfl ?_
    refine (hstep _ env (.expression hl) henv).bind fun l hl => ?_
    refine ensures_if_failed hl.1 (.pure ⟨hl.1, henv⟩) fun hlc => .lift_bind rfl ?_
    refine (hstep _ l.2 (.expression hr) hl.2).bind fun r hr => ?_
    refine ensures_if_failed hr.1 (.pure ⟨hr.1, henv⟩) fun hrc => ?_
    obtain ⟨v, hadd, hv⟩ := add_result hlc hrc
    exact .lift_bind hadd (settle_ensures hv henv hr.2)

theorem node_ensures (host : Host ι σ) {n : Ast} (hn : n.IsStatement) {env : Env ι}
    (henv : env.Safe) : Ensures Good Stops (node (Callback.call host) false step n env) := by
  cases hn with
  | expression h => exact expression_ensures hstep host h henv
  | assignment x he =>
    refine (trace_ensures _).bind fun _ _ => .lift_bind rfl ?_
    refine (hstep _ env (.expression he) henv).bind fun r hr => ?_
    refine ensures_if_failed hr.1 (.pure ⟨hr.1, henv⟩) fun hc => .lift_bind rfl ?_
    exact .pure ⟨.value .null, hr.2.bindVariable _ hc⟩
  | conditional hc hb =>
    refine (trace_ensures _).bind fun _ _ => .lift_bind rfl ?_
    refine (hstep _ env (.expression hc) henv).bind fun c hc => ?_
    refine ensures_if_failed hc.1 (.pure ⟨hc.1, henv⟩) fun hcc => ?_
    obtain ⟨holds, htruthy⟩ := isTruthy_canonical hcc
    refine .lift_bind htruthy ?_
    split
    · refine .lift_bind rfl ((statements_ensures hstep hb hc.2).bind fun r hr => ?_)
      exact settle_ensures hr.1 henv hr.2
    · exact .pure ⟨.value .null, hc.2⟩
  | @definition f params body hp hb =>
    refine (trace_ensures _).bind fun _ _ => .lift_bind rfl ?_
    refine (trace_ensures _).bind fun _ _ => .lift_bind rfl ?_
    rw [Function.define_map_text]
    exact .pure ⟨.value .null, henv.bindFunction _ hp hb⟩

end

/-- In a safe environment a statement evaluates to a result, in a safe environment. -/
theorem eval_ensures (host : Host ι σ) (depth : Nat) : ∀ (n : Ast) (env : Env ι), n.IsStatement →
    env.Safe → Ensures Good Stops (eval (Callback.call host) false depth n env) := by
  induction depth with
  | zero => exact fun n env hn henv => .fail (.inr rfl)
  | succ depth ih => exact fun n env hn henv => node_ensures ih host hn henv

/-- So does a program. -/
theorem eval_source_ensures (host : Host ι σ) (depth : Nat) {body : List Ast}
    (hb : ∀ s ∈ body, s.IsStatement) {env : Env ι} (henv : env.Safe) :
    Ensures Good Stops (eval (Callback.call host) false depth (.source body) env) := by
  cases depth with
  | zero => exact .fail (.inr rfl)
  | succ depth =>
    refine (trace_ensures _).bind fun _ _ => .lift_bind rfl ?_
    exact statements_ensures (eval_ensures host depth) hb henv

end Tama.Eval
