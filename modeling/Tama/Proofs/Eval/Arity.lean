import Mathlib.Data.List.Nodup
import Tama.Proofs.Eval.Congruence
import Tama.Proofs.Eval.Frame
import Tama.Proofs.Eval.Noninterference

/-!
# Calls with too few or too many arguments

A defined function may be called with any number of arguments. Missing ones leave their parameters
unbound, and an unbound variable looks like one that is null; so the call goes as if null were
written in their place (`callDefined_nulls`). Surplus ones are evaluated and then dropped
(`callDefined_take`); where they are expressions that yield a value and callbacks answer by their
arguments alone, nothing of them is left. Main statement: `call_arity`.
-/

set_option autoImplicit false

namespace Tama

variable {ι σ : Type}

/-! ## Parameters and arguments -/

section
variable {α β : Type}

theorem zip_take_left (xs : List α) (ys : List β) :
    (xs.take ys.length).zip ys = xs.zip ys := by
  induction xs generalizing ys with
  | nil => simp
  | cons x xs ih => cases ys <;> simp [ih]

theorem zip_take_right (xs : List α) (ys : List β) :
    xs.zip (ys.take xs.length) = xs.zip ys := by
  induction xs generalizing ys with
  | nil => simp
  | cons x xs ih => cases ys <;> simp [ih]

theorem zip_append_right (xs : List α) (ys zs : List β) :
    xs.zip (ys ++ zs) = xs.zip ys ++ (xs.drop ys.length).zip zs := by
  induction ys generalizing xs with
  | nil => simp
  | cons y ys ih => cases xs <;> simp [ih]

theorem mapM_take {ε : Type} {f : α → Except ε β} {xs : List α} {ys : List β}
    (h : xs.mapM f = .ok ys) (n : Nat) : (xs.take n).mapM f = .ok (ys.take n) := by
  induction xs generalizing ys n with
  | nil =>
    rw [List.mapM_nil] at h
    cases h
    rw [List.take_nil, List.take_nil]
    rfl
  | cons x xs ih =>
    cases n with
    | zero => rfl
    | succ n =>
      rw [List.mapM_cons] at h
      cases hx : f x with
      | error e =>
        rw [hx] at h
        cases h
      | ok y =>
        cases hxs : xs.mapM f with
        | error e =>
          rw [hx, hxs] at h
          cases h
        | ok rest =>
          rw [hx, hxs] at h
          cases h
          rw [List.take_succ_cons, List.mapM_cons, hx, ih hxs n]
          rfl

end

/-- A defined function has these parameters, no two of which are the same name. -/
structure Function.Takes (f : Function ι) (params : List Name) : Prop where
  defined : f.kind = .text "DefinedFunction"
  names : ∃ d items, f.arguments = .ok d ∧ d.items = .ok items ∧ items.mapM Datum.name = .ok params
  distinct : (params.map Name.canon).Nodup

/-- What a definition in a script makes. -/
theorem Function.takes_defined {params : List String} (h : params.Nodup) (body : List Ast) :
    (defined params body : Function ι).Takes (params.map .text) where
  defined := rfl
  names := ⟨_, _, rfl, rfl, Datum.mapM_name_map_text params⟩
  distinct := by
    rw [List.map_map]
    exact List.Nodup.map (fun _ _ hst => Name.text.inj hst) h

/-! ## Scopes -/

namespace Env

/-- An unbound variable looks as it does bound to null. -/
theorem lookupVariable_bind_null {env : Env ι} {x : Name} (h : env.lookupVariable x = .null)
    (y : Name) : (env.bindVariable x .null).lookupVariable y = env.lookupVariable y := by
  by_cases hyx : y.canon = x.canon
  · have hy : env.lookupVariable y = env.lookupVariable x := by
      simp only [lookupVariable, Table.get?_congr _ hyx]
    rw [hy, h]
    simp only [lookupVariable, bindVariable, Table.get?_congr _ hyx, Table.get?_insert_self]
  · exact lookupVariable_bindVariable_of_ne env hyx .null

theorem lookupVariable_foldl_null (functions : Table (Function ι))
    {bindings : List (Name × Value)} : ∀ vars : Table Value,
    (∀ b ∈ bindings, b.2 = .null ∧ (make vars functions).lookupVariable b.1 = .null) →
    ∀ y, (make (bindings.foldl (fun t b => t.insert b.1 b.2) vars) functions).lookupVariable y =
      (make vars functions).lookupVariable y := by
  induction bindings with
  | nil => exact fun vars _ y => rfl
  | cons b rest ih =>
    obtain ⟨x, v⟩ := b
    intro vars h y
    obtain ⟨rfl, hx⟩ : v = .null ∧ _ := h (x, v) List.mem_cons_self
    have hstep : ∀ z, (make (vars.insert x .null) functions).lookupVariable z =
        (make vars functions).lookupVariable z := lookupVariable_bind_null hx
    refine (ih (vars.insert x .null) (fun b hb => ?_) y).trans (hstep y)
    obtain ⟨hnull, hbound⟩ := h b (List.mem_cons_of_mem _ hb)
    exact ⟨hnull, (hstep b.1).trans hbound⟩

/-- In a scope it makes no difference whether parameters are unbound or null. -/
theorem lookupVariable_callScope_nulls (env : Env ι) {params : List Name}
    (hd : (params.map Name.canon).Nodup) (vs : List Value) (count : Nat) (y : Name) :
    (env.callScope params (vs ++ List.replicate count .null)).lookupVariable y =
      (env.callScope params vs).lookupVariable y := by
  rw [callScope, callScope, zip_append_right, Table.ofList, List.foldl_append]
  refine lookupVariable_foldl_null env.functions _ (fun b hb => ?_) y
  obtain ⟨hname, hvalue⟩ := List.of_mem_zip hb
  refine ⟨List.eq_of_mem_replicate hvalue, ?_⟩
  -- the parameters that have no argument yet are bound by none of the others
  have hfree : (Table.ofList (params.zip vs)).get? b.1 = none := by
    rw [Table.get?_ofList]
    refine Table.lastBound?_eq_none fun c hc => ?_
    rw [← zip_take_left] at hc
    rw [← List.take_append_drop vs.length params, List.map_append, List.nodup_append] at hd
    exact hd.2.2 _ (List.mem_map_of_mem (List.of_mem_zip hc).1) _ (List.mem_map_of_mem hname)
  simp only [lookupVariable, make]
  unfold Table.ofList at hfree
  rw [hfree]

/-- Surplus arguments are not bound. -/
theorem callScope_take_args (env : Env ι) (params : List Name) (vs : List Value) :
    env.callScope params (vs.take params.length) = env.callScope params vs := by
  rw [callScope, callScope, zip_take_right]

end Env

namespace Eval

open Run Env

variable {invoke : Invoke ι σ} {step : Step ι σ} {env : Env ι} {f : Function ι}
  {params : List Name}

/-! ## Defined functions -/

/-- A call of a defined function: the body runs in the scope of its parameters. -/
theorem callDefined_eq (h : f.Takes params) (step : Step ι σ) (name : Name) (vs : List Value)
    (env : Env ι) :
    callDefined step false name f vs env = (do
      let body ← f.body
      let r ← statements step false body (env.callScope params vs)
      pure r.1) := by
  obtain ⟨d, items, hd, hitems, hnames⟩ := h.names
  have hparams : d.names vs.length = .ok (params.take vs.length) := by
    rw [Datum.names, hitems]
    exact mapM_take hnames vs.length
  have hscope : env.callScope (params.take vs.length) vs = env.callScope params vs := by
    rw [callScope, callScope, zip_take_left]
  simp only [callDefined, traceCount, trace, Bool.false_eq_true, if_false, pure_bind]
  rw [lift_bind hd, lift_bind hparams, hscope]

theorem callFunction_of_takes (h : f.Takes params) (invoke : Invoke ι σ) (step : Step ι σ)
    (debug : Bool) (name : Name) (vs : List Value) (env : Env ι) :
    callFunction invoke step debug name f vs env = callDefined step debug name f vs env := by
  simp only [callFunction, h.defined]

/-- A defined function does not tell missing arguments from null. -/
theorem callDefined_nulls (h : f.Takes params) (hstep : Regards (fun _ => True) step) (name : Name)
    (vs : List Value) (count : Nat) (env : Env ι) :
    Mirrors Eq (callDefined step false name f vs env)
      (callDefined step false name f (vs ++ List.replicate count .null) env) := by
  rw [callDefined_eq h, callDefined_eq h]
  refine .bind_left _ fun body => ?_
  have hshares : Shares (fun _ => True) (env.callScope params vs)
      (env.callScope params (vs ++ List.replicate count .null)) :=
    ⟨fun x _ => rfl, fun x _ g _ _ _ _ _ _ _ _ => trivial⟩
  have hsees : ∀ c ∈ body, Sees (fun _ => True) c (env.callScope params vs)
      (env.callScope params (vs ++ List.replicate count .null)) :=
    fun c _ => ⟨fun x _ => trivial, fun x _ =>
      (lookupVariable_callScope_nulls env h.distinct vs count x).symm⟩
  refine (sequence_mirrors hstep .null hshares hsees).bind ?_
  rintro ⟨v, -⟩ ⟨-, -⟩ ⟨rfl, -⟩
  exact .pure rfl

/-- A defined function does not see surplus arguments. -/
theorem callDefined_take (h : f.Takes params) (step : Step ι σ) (name : Name) (vs : List Value)
    (env : Env ι) : callDefined step false name f (vs.take params.length) env =
      callDefined step false name f vs env := by
  rw [callDefined_eq h, callDefined_eq h, callScope_take_args]

/-! ## Arguments -/

/-- More values behind those of the arguments. -/
def Arguments.followedBy (more : List Value) : Arguments ι → Arguments ι
  | .values vs env => .values (vs ++ more) env
  | .error e => .error e

/-- Null literals behind the arguments add their values to those of the arguments. -/
theorem arguments_append_nulls {nulls : List Ast}
    (h : ∀ n ∈ nulls, ∀ env, step n env = pure (.null, env)) (args : List Ast) (env : Env ι) :
    arguments step env (args ++ nulls) = (do
      let a ← arguments step env args
      pure (a.followedBy (List.replicate nulls.length .null))) := by
  induction args generalizing env with
  | nil =>
    rw [List.nil_append, arguments, pure_bind]
    induction nulls with
    | nil => rfl
    | cons n rest ih =>
      rw [arguments, h n List.mem_cons_self env, pure_bind]
      dsimp only
      rw [ih fun m hm => h m (List.mem_cons_of_mem n hm)]
      rfl
  | cons first rest ih =>
    rw [List.cons_append, arguments, arguments, Run.bind_assoc]
    refine bind_congr ?_
    rintro ⟨v, mid⟩
    dsimp only
    cases hv : v.failed with
    | error fault => rfl
    | ok failed =>
      rw [lift_bind rfl, lift_bind rfl, ih]
      cases failed with
      | true => rfl
      | false =>
        simp only [Bool.false_eq_true, if_false, Run.bind_assoc]
        refine bind_congr fun a => ?_
        cases a <;> rfl

/-- Arguments that yield values in an environment and leave it alone, as many of them as one
likes. -/
theorem arguments_returns {args : List Ast} (h : ∀ a ∈ args, ∃ v, v.failed = .ok false ∧
      ∀ s, ∃ t, Returns (step a env) s (v, env) t) :
    ∃ vs : List Value, vs.length = args.length ∧ ∀ count s, ∃ t,
      Returns (arguments step env (args.take count)) s (.values (vs.take count) env) t := by
  induction args with
  | nil => exact ⟨[], rfl, fun count s => ⟨s, by simpa [arguments] using .pure _ s⟩⟩
  | cons first rest ih =>
    obtain ⟨v, hv, hfirst⟩ := h first List.mem_cons_self
    obtain ⟨vs, hlength, hrest⟩ := ih fun a ha => h a (List.mem_cons_of_mem first ha)
    refine ⟨v :: vs, by rw [List.length_cons, List.length_cons, hlength], fun count s => ?_⟩
    cases count with
    | zero => exact ⟨s, .pure _ s⟩
    | succ count =>
      obtain ⟨mid, hstep⟩ := hfirst s
      obtain ⟨t, hargs⟩ := hrest count mid
      refine ⟨t, hstep.bind ?_⟩
      dsimp only
      rw [if_failed hv]
      exact hargs.bind (.pure _ t)

/-! ## Calls -/

theorem eval_literal {n : Ast} {v : Value} (h : n.form = .literal (.ok v)) (invoke : Invoke ι σ)
    (depth : Nat) (env : Env ι) :
    eval invoke false (depth + 1) n env = pure (v, env) := by
  simp only [eval, node, trace, h, Bool.false_eq_true, if_false]
  rfl

/-- A call once its arguments have been evaluated. -/
def finishCall (invoke : Invoke ι σ) (step : Step ι σ) (x : Name) (f : Function ι) (env : Env ι) :
    Arguments ι → Run σ Fault (Value × Env ι)
  | .error v => pure (v, env)
  | .values vs env' => do settle (← callFunction invoke step false x f vs env') env env'

theorem eval_call {n : Ast} {x : Name} {args : List Ast} (h : n.form = .call (.ok x) (.ok args))
    (hf : env.lookupFunction x = some f) (invoke : Invoke ι σ) (depth : Nat) :
    eval invoke false (depth + 1) n env =
      arguments (eval invoke false depth) env args >>=
        finishCall invoke (eval invoke false depth) x f env := by
  simp only [eval, node, trace, h, Bool.false_eq_true, if_false, pure_bind]
  rw [lift_bind rfl]
  simp only [hf]
  rw [lift_bind rfl]
  refine bind_congr fun a => ?_
  cases a <;> rfl

section
variable {n m : Ast} {x : Name} {args : List Ast} (hf : env.lookupFunction x = some f)
  (h : f.Takes params) (hn : n.form = .call (.ok x) (.ok args))
include hf h hn

/-- A call goes as with null literals behind its arguments. -/
theorem eval_call_nulls {nulls : List Ast} (hnulls : ∀ e ∈ nulls, e.form = .literal (.ok .null))
    (hm : m.form = .call (.ok x) (.ok (args ++ nulls))) (invoke : Invoke ι σ) (depth : Nat) :
    Mirrors Eq (eval invoke false (depth + 2) n env) (eval invoke false (depth + 2) m env) := by
  have hstep : ∀ e ∈ nulls, ∀ env, eval invoke false (depth + 1) e env = pure (.null, env) :=
    fun e he env => eval_literal (hnulls e he) invoke depth env
  rw [eval_call hn hf, eval_call hm hf, arguments_append_nulls hstep, Run.bind_assoc]
  refine .bind_left _ fun a => ?_
  cases a with
  | error v => exact .refl _
  | values vs mid =>
    have hregards := eval_regards invoke false (fun _ => True) (depth + 1)
    have hbody := callDefined_nulls h hregards x vs nulls.length mid
    rw [pure_bind]
    simp only [Arguments.followedBy, finishCall, callFunction_of_takes h]
    refine hbody.bind ?_
    rintro v - rfl
    exact .refl _

/-- Where the arguments yield values and change nothing but the state, a call ends as without the
surplus ones. -/
theorem eval_call_take (hinvoke : ∀ callback data, Steady (invoke callback data)) {depth : Nat}
    (hargs : ∀ a ∈ args, ∃ v, v.failed = .ok false ∧
      ∀ s, ∃ t, Returns (eval invoke false depth a env) s (v, env) t)
    (hm : m.form = .call (.ok x) (.ok (args.take params.length))) (s : σ) :
    (eval invoke false (depth + 1) m env s).1.outcome =
      (eval invoke false (depth + 1) n env s).1.outcome := by
  obtain ⟨vs, hlength, hreturns⟩ := arguments_returns hargs
  obtain ⟨t, hfirst⟩ := hreturns params.length s
  obtain ⟨t', hall⟩ := hreturns args.length s
  rw [List.take_length, ← hlength, List.take_length] at hall
  rw [eval_call hm hf, eval_call hn hf, hfirst.outcome_bind, hall.outcome_bind]
  simp only [finishCall, callFunction_of_takes h, callDefined_take h]
  -- what is left is the same run, from two states
  have hstep := eval_steady hinvoke false depth
  exact (steadiness σ false).bind (Congruence.callDefined hstep x f vs env)
    (fun v => Congruence.settle v env env) t t'

end

/-! ## The main statement -/

/-- **Calls with too few or too many arguments.** A call of a defined function with too few
arguments goes as the one with null literals for the missing ones: the same output, the same calls
of callbacks and the same result or fault. Where callbacks answer by their arguments alone and all
arguments are expressions that yield values, a call with too many arguments ends as the one without
the surplus. -/
theorem call_arity (invoke : Invoke ι σ) (env : Env ι) (x : Name) (f : Function ι)
    (params : List Name) (hf : env.lookupFunction x = some f) (htakes : f.Takes params) (n : Ast)
    (args : List Ast) (hn : n.form = .call (.ok x) (.ok args)) :
    (∀ nulls m, args.length + nulls.length = params.length →
      (∀ e ∈ nulls, e.form = .literal (.ok .null)) →
      m.form = .call (.ok x) (.ok (args ++ nulls)) → ∀ depth,
      Mirrors Eq (eval invoke false (depth + 2) n env) (eval invoke false (depth + 2) m env) ∧
      Mirrors Eq (eval (logCalls invoke) false (depth + 2) n env)
        (eval (logCalls invoke) false (depth + 2) m env)) ∧
    (params.length < args.length → (∀ callback data, Steady (invoke callback data)) → ∀ depth,
      (∀ a ∈ args, (∃ room tree, (Analysis.expression room tree).outcome = .ok a) ∧
        ∃ s v env' t, Returns (eval invoke false depth a env) s (v, env') t ∧
          v.failed = .ok false) →
      ∀ m, m.form = .call (.ok x) (.ok (args.take params.length)) → ∀ s,
        (eval invoke false (depth + 1) m env s).1.outcome =
          (eval invoke false (depth + 1) n env s).1.outcome) := by
  refine ⟨fun nulls m _ hnulls hm depth => ?_, fun _ hinvoke depth hargs m hm s => ?_⟩
  · exact ⟨eval_call_nulls hf htakes hn hnulls hm invoke depth,
      eval_call_nulls hf htakes hn hnulls hm (logCalls invoke) depth⟩
  · refine eval_call_take hf htakes hn hinvoke (fun a ha => ?_) hm s
    obtain ⟨⟨room, tree, htree⟩, s, v, env', t, hreturns, hv⟩ := hargs a ha
    have hquiet := Analysis.expression_quiet room tree htree
    have hgrows := eval_grows depth a env env' s t v hreturns
    obtain rfl : env' = env := hgrows.eq hquiet.not_assigns hquiet.not_defines
    exact ⟨v, hv, (eval_steady hinvoke false depth a env').returns hreturns⟩

/-- `f(1)` goes as `f(1, null)`, and `f(1, 2, 3)` ends as `f(1, 2)`, where `f` has two parameters,
prints the second and yields the first. -/
theorem call_arity_of_print :
    let host : Host Empty Unit := nofun
    let f : Function Empty := .defined ["a", "b"] [.call "print" [.var "b"], .var "a"]
    let env := (Env.standard .empty).bindFunction "f" f
    Mirrors Eq (eval (logCalls (Callback.call host)) false 9 (.call "f" [.int 1]) env)
      (eval (logCalls (Callback.call host)) false 9 (.call "f" [.int 1, .null]) env) ∧
    (eval (Callback.call host) false 9 (.call "f" [.int 1, .int 2]) env ()).1.outcome =
      (eval (Callback.call host) false 9 (.call "f" [.int 1, .int 2, .int 3]) env
        ()).1.outcome := by
  intro host f env
  have htakes : f.Takes [.text "a", .text "b"] := Function.takes_defined (by decide) _
  have hinvoke : ∀ callback data, Steady (Callback.call host callback data) := by
    intro callback data s t
    rfl
  have hargs : ∀ a ∈ [Ast.int 1, .int 2, .int 3],
      (∃ room tree, (Analysis.expression room tree).outcome = .ok a) ∧
      ∃ s v env' t, Returns (eval (Callback.call host) false 8 a env) s (v, env') t ∧
        v.failed = .ok false := by
    simp only [List.forall_mem_cons]
    refine ⟨⟨⟨2, .int 1, rfl⟩, (), .int 1, env, (), ⟨[], rfl⟩, rfl⟩, ?_⟩
    refine ⟨⟨⟨2, .int 2, rfl⟩, (), .int 2, env, (), ⟨[], rfl⟩, rfl⟩, ?_⟩
    exact ⟨⟨⟨2, .int 3, rfl⟩, (), .int 3, env, (), ⟨[], rfl⟩, rfl⟩, nofun⟩
  have hfew := call_arity (Callback.call host) env "f" f _ rfl htakes (.call "f" [.int 1]) [.int 1]
    rfl
  have hmany := call_arity (Callback.call host) env "f" f _ rfl htakes
    (.call "f" [.int 1, .int 2, .int 3]) [.int 1, .int 2, .int 3] rfl
  have hend := hmany.2 (by decide) hinvoke 8 hargs (.call "f" [.int 1, .int 2]) rfl ()
  refine ⟨(hfew.1 [.null] _ rfl ?_ rfl 7).2, by simpa only [Nat.reduceAdd] using hend⟩
  intro e he
  rw [List.mem_singleton.1 he]
  rfl

end Eval
end Tama
