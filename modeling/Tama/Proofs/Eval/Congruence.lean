import Tama.Proofs.Eval.Atomic

/-!
# Relations that evaluation keeps

A relation of runs that is closed under what the evaluator is made of, sequencing above all, relates
two evaluations of a node as soon as it relates the evaluations of the nodes inside it and the calls
of callbacks (`Congruence.node`). So a statement about all evaluations needs no walk through the
constructs of the language where it can be read off the parts of a run.

Two statements of this kind:

* More depth keeps an answer (`eval_deepens`). What an evaluation is with the recursion limit aside
  is what it is from some depth on (`Settles`).
* Where callbacks answer by their arguments alone, an evaluation ends in the same way whatever the
  state of the host (`eval_steady`).
-/

set_option autoImplicit false

namespace Tama.Eval

open Run

variable {ι σ τ : Type} {debug : Bool}

/-! ## Congruences -/

/-- A relation of runs that sequencing keeps, and that holds of what runs are made of. -/
structure Congruence (σ τ : Type) (debug : Bool) where
  Rel : {α : Type} → Run σ Fault α → Run τ Fault α → Prop
  lift : ∀ {α : Type} (x : Except Fault α), Rel (liftM x : Run σ Fault α) (liftM x)
  trace : ∀ text : Except Fault String, Rel (trace debug text) (trace debug text)
  bind : ∀ {α β : Type} {x : Run σ Fault α} {y : Run τ Fault α} {f : α → Run σ Fault β}
    {g : α → Run τ Fault β}, Rel x y → (∀ a, Rel (f a) (g a)) → Rel (x >>= f) (y >>= g)

namespace Congruence

variable {C : Congruence σ τ debug} {α : Type}

theorem pure (a : α) : C.Rel (pure a) (pure a) :=
  C.lift (.ok a)

theorem if_failed (v : Value) {x y : Run σ Fault α} {x' y' : Run τ Fault α} (hx : C.Rel x x')
    (hy : C.Rel y y') :
    C.Rel (do if ← v.failed then x else y) (do if ← v.failed then x' else y') := by
  refine C.bind (C.lift v.failed) fun b => ?_
  cases b with
  | true => exact hx
  | false => exact hy

theorem settle (v : Value) (before after : Env ι) :
    C.Rel (settle v before after) (settle v before after) :=
  if_failed v (pure _) (pure _)

section

variable {step : Step ι σ} {step' : Step ι τ} (hstep : ∀ n env, C.Rel (step n env) (step' n env))
include hstep

theorem sequence (body : List Ast) : ∀ (v : Value) (env : Env ι),
    C.Rel (sequence step debug v env body) (sequence step' debug v env body) := by
  induction body with
  | nil => exact fun v env => pure _
  | cons first rest ih =>
    intro v env
    refine C.bind (hstep first env) fun r => ?_
    exact if_failed _ (C.bind (C.trace _) fun _ => pure _) (ih r.1 r.2)

theorem statements (body : List Ast) (env : Env ι) :
    C.Rel (statements step debug body env) (statements step' debug body env) :=
  sequence hstep body .null env

theorem arguments (args : List Ast) : ∀ env : Env ι,
    C.Rel (arguments step env args) (arguments step' env args) := by
  induction args with
  | nil => exact fun env => pure _
  | cons first rest ih =>
    intro env
    refine C.bind (hstep first env) fun r => if_failed _ (pure _) ?_
    refine C.bind (ih r.2) fun a => ?_
    cases a with
    | values vs last => exact pure _
    | error e => exact pure _

theorem callDefined (name : Name) (f : Function ι) (args : List Value) (env : Env ι) :
    C.Rel (callDefined step debug name f args env) (callDefined step' debug name f args env) := by
  have hcount :
      C.Rel (traceCount debug name f args.length) (traceCount debug name f args.length) := by
    unfold traceCount
    split
    · refine C.bind (C.lift _) fun declared => ?_
      split
      · exact pure _
      · exact C.trace _
    · exact pure _
  refine C.bind hcount fun _ => C.bind (C.trace _) fun _ => C.bind (C.lift _) fun d => ?_
  refine C.bind (C.lift _) fun params => C.bind (C.lift _) fun body => ?_
  exact C.bind (statements hstep body _) fun r => pure _

end

theorem toHost (args : List Value) :
    C.Rel (args.mapM fun v => (liftM v.toHost : Run σ Fault Datum))
      (args.mapM fun v => (liftM v.toHost : Run τ Fault Datum)) := by
  induction args with
  | nil => exact pure _
  | cons v rest ih =>
    rw [List.mapM_cons, List.mapM_cons]
    exact C.bind (C.lift _) fun d => C.bind ih fun ds => pure _

section

variable {invoke : Invoke ι σ} {invoke' : Invoke ι τ}
  (hinvoke : ∀ callback args, C.Rel (invoke callback args) (invoke' callback args))
include hinvoke

theorem callEmbedded (name : Name) (f : Function ι) (args : List Value) :
    C.Rel (callEmbedded invoke debug name f args) (callEmbedded invoke' debug name f args) := by
  unfold Eval.callEmbedded
  split
  · exact C.lift _
  · refine C.bind (toHost args) fun native => C.bind (C.trace _) fun _ => ?_
    refine C.bind (C.lift _) fun callback => ?_
    exact C.bind (hinvoke callback native) fun result => C.lift _

variable {step : Step ι σ} {step' : Step ι τ} (hstep : ∀ n env, C.Rel (step n env) (step' n env))
include hstep

theorem callFunction (name : Name) (f : Function ι) (args : List Value) (env : Env ι) :
    C.Rel (callFunction invoke step debug name f args env)
      (callFunction invoke' step' debug name f args env) := by
  unfold Eval.callFunction
  split
  · exact callEmbedded hinvoke name f args
  · exact callDefined hstep name f args env
  · exact C.lift _

/-- Evaluations of a node are related where those of the nodes inside it are. -/
theorem node (n : Ast) (env : Env ι) :
    C.Rel (node invoke debug step n env) (node invoke' debug step' n env) := by
  refine C.bind (C.trace _) fun _ => ?_
  cases n.form with
  | source body => exact C.bind (C.lift _) fun body => statements hstep body env
  | literal v => exact C.bind (C.lift _) fun v => pure _
  | var name => exact C.bind (C.lift _) fun name => pure _
  | assignment name expression =>
    refine C.bind (C.lift _) fun e => C.bind (hstep e env) fun r => if_failed _ (pure _) ?_
    exact C.bind (C.lift _) fun name => pure _
  | add left right =>
    refine C.bind (C.lift _) fun l => C.bind (hstep l env) fun r => if_failed _ (pure _) ?_
    refine C.bind (C.lift _) fun r' => C.bind (hstep r' r.2) fun q => if_failed _ (pure _) ?_
    exact C.bind (C.lift _) fun v => settle v env q.2
  | conditional condition body =>
    refine C.bind (C.lift _) fun c => C.bind (hstep c env) fun r => if_failed _ (pure _) ?_
    refine C.bind (C.lift _) fun holds => ?_
    cases holds with
    | true =>
      refine C.bind (C.lift _) fun body => C.bind (statements hstep body r.2) fun q => ?_
      exact settle q.1 env q.2
    | false => exact pure _
  | definition parts =>
    refine C.bind (C.lift _) fun d => C.bind (C.trace _) fun _ => ?_
    exact C.bind (C.lift _) fun name => pure _
  | call name args =>
    refine C.bind (C.lift _) fun name => ?_
    cases env.lookupFunction name with
    | none => exact C.bind (C.lift _) fun v => pure _
    | some f =>
      refine C.bind (C.lift _) fun args => C.bind (arguments hstep args env) fun a => ?_
      cases a with
      | error v => exact pure _
      | values vs env' =>
        exact C.bind (callFunction hinvoke hstep name f vs env') fun v => settle v env env'
  | unknown => exact C.bind (C.trace _) fun _ => C.bind (C.lift _) fun v => pure _

end

end Congruence

/-! ## Depth -/

/-- The second run does what the first one does, unless that one meets the recursion limit. -/
def deepening (σ : Type) (debug : Bool) : Congruence σ σ debug where
  Rel x y := ∀ s, (x s).1.outcome = .error .tooDeep ∨ y s = x s
  lift _ _ := .inr rfl
  trace _ _ := .inr rfl
  bind {_ _ x y f g} hx hf s := by
    rcases hxs : x s with ⟨⟨lines, o⟩, t⟩
    rcases hx s with hdeep | hsame
    · rw [hxs] at hdeep
      cases hdeep
      exact .inl (by rw [bind_apply_error hxs])
    · rw [hxs] at hsame
      cases o with
      | error e => exact .inr (by rw [bind_apply_error hxs, bind_apply_error hsame])
      | ok a =>
        rw [bind_apply_ok hxs, bind_apply_ok hsame]
        rcases hf a t with hdeep | hgo
        · exact .inl hdeep
        · exact .inr (by rw [hgo])

/-- More depth keeps an answer. -/
theorem eval_deepens (invoke : Invoke ι σ) (debug : Bool) {depth more : Nat} (h : depth ≤ more)
    (n : Ast) (env : Env ι) :
    (deepening σ debug).Rel (eval invoke debug depth n env) (eval invoke debug more n env) := by
  induction depth generalizing more n env with
  | zero => exact fun s => .inl rfl
  | succ depth ih =>
    obtain ⟨more, rfl⟩ : ∃ k, more = k + 1 := ⟨more - 1, by omega⟩
    have hinvoke : ∀ callback args,
        (deepening σ debug).Rel (invoke callback args) (invoke callback args) :=
      fun callback args s => .inr rfl
    exact Congruence.node hinvoke (ih (Nat.le_of_succ_le_succ h)) n env

/-- What an evaluation is with the recursion limit aside: what it is from some depth on. -/
def Settles (invoke : Invoke ι σ) (debug : Bool) (n : Ast) (env : Env ι) (s : σ)
    (r : Traced Fault (Value × Env ι) × σ) : Prop :=
  ∃ depth, ∀ more, depth ≤ more → eval invoke debug more n env s = r

section
variable {invoke : Invoke ι σ} {n : Ast} {env : Env ι} {s : σ}
  {r r' : Traced Fault (Value × Env ι) × σ}

/-- An evaluation within the limit is what it is with the limit aside. -/
theorem Settles.of_eval {depth : Nat} (h : eval invoke debug depth n env s = r)
    (hr : r.1.outcome ≠ .error .tooDeep) : Settles invoke debug n env s r := by
  refine ⟨depth, fun more hmore => ?_⟩
  rcases eval_deepens invoke debug hmore n env s with hdeep | hsame
  · exact absurd (h ▸ hdeep) hr
  · rw [hsame, h]

theorem Settles.unique (h : Settles invoke debug n env s r) (h' : Settles invoke debug n env s r') :
    r = r' := by
  obtain ⟨depth, h⟩ := h
  obtain ⟨depth', h'⟩ := h'
  rw [← h _ (Nat.le_max_left depth depth'), h' _ (Nat.le_max_right depth depth')]

end

/-! ## States -/

/-- How a run ends does not depend on the state that it starts in. -/
def Steady {α : Type} (x : Run σ Fault α) : Prop :=
  ∀ s t, (x s).1.outcome = (x t).1.outcome

/-- What a steady run returns from one state it returns from all. -/
theorem Steady.returns {α : Type} {x : Run σ Fault α} {s t : σ} {a : α} (hx : Steady x)
    (h : Returns x s a t) (s' : σ) : ∃ t', Returns x s' a t' := by
  obtain ⟨lines, h⟩ := h
  have hout := hx s' s
  rw [h] at hout
  rcases hs : x s' with ⟨⟨others, o⟩, t'⟩
  rw [hs] at hout
  cases hout
  exact ⟨t', others, hs⟩

/-- Two runs end in the same way, whatever states they start in. -/
def steadiness (σ : Type) (debug : Bool) : Congruence σ σ debug where
  Rel x y := ∀ s t, (x s).1.outcome = (y t).1.outcome
  lift _ _ _ := rfl
  trace text s t := by
    unfold trace
    split
    · cases text <;> rfl
    · rfl
  bind {_ _ x y f g} hx hf s t := by
    have hout := hx s t
    rcases hxs : x s with ⟨⟨lines, o⟩, s'⟩
    rcases hyt : y t with ⟨⟨lines', o'⟩, t'⟩
    rw [hxs, hyt] at hout
    cases hout
    cases o with
    | error e => rw [bind_apply_error hxs, bind_apply_error hyt]
    | ok a =>
      rw [bind_apply_ok hxs, bind_apply_ok hyt]
      exact hf a s' t'

/-- Where callbacks answer by their arguments alone, evaluations do not depend on the state. -/
theorem eval_steady {invoke : Invoke ι σ} (h : ∀ callback args, Steady (invoke callback args))
    (debug : Bool) (depth : Nat) (n : Ast) (env : Env ι) :
    Steady (eval invoke debug depth n env) := by
  induction depth generalizing n env with
  | zero => exact fun s t => rfl
  | succ depth ih => exact Congruence.node (C := steadiness σ debug) h ih n env

end Tama.Eval
