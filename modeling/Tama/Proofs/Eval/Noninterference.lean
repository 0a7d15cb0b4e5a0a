import Tama.Proofs.Ast.Occurrence
import Tama.Proofs.Eval.Observed
import Tama.Proofs.Run
import Tama.Proofs.Table

/-!
# What an evaluation depends on

Two evaluations of a node, in environments that need not be the same. They go alike when the
variables that the node reads look the same in both and so do the functions of a set of names `N`
that is closed under calls (`Env.Shares`). Each function of the evaluator keeps the environments so,
whatever it binds (`Env.Keeps`), and that carries the induction on the depth. Names outside `N`, the
order of the tables and the difference between an unbound variable and one bound to null do not
matter.
-/

set_option autoImplicit false

namespace Tama

variable {ι σ : Type}

/-! ## Bodies of functions -/

/-- The body of a defined function calls only names in `N`. -/
def Function.CallsWithin (N : Name → Prop) (f : Function ι) : Prop :=
  f.kind = .text "DefinedFunction" → ∀ body, f.body = .ok body → ∀ n ∈ body, ∀ x, n.Calls x → N x

theorem Function.define_callsWithin {N : Name → Prop} {params : List Datum} {body : List Ast}
    (h : ∀ n ∈ body, ∀ x, n.Calls x → N x) :
    (define params body : Function ι).CallsWithin N := by
  intro hkind body' hbody n hn x hx
  unfold define at hbody
  split at hbody
  · cases hbody
    exact h n hn x hx
  · -- a record holds the records of the body
    have hrecords : body' = body.map Ast.asRecord := by
      rw [Ast.map_asRecord]
      exact (Except.ok.inj hbody).symm
    rw [hrecords] at hn
    obtain ⟨m, hm, rfl⟩ := List.mem_map.1 hn
    exact h m hm x hx.of_asRecord

/-! ## Pairs of environments -/

namespace Env

/-- The functions of `N` are the same in two environments and call only functions of `N`. -/
structure Shares (N : Name → Prop) (e₁ e₂ : Env ι) : Prop where
  same : ∀ x, N x → e₁.lookupFunction x = e₂.lookupFunction x
  within : ∀ x, N x → ∀ f, e₁.lookupFunction x = some f → f.CallsWithin N

/-- Whatever looks the same in one pair of environments does so in a later pair, which shares the
functions of `N`. -/
structure Keeps (N : Name → Prop) (e₁ e₂ f₁ f₂ : Env ι) : Prop where
  vars : ∀ x, e₁.lookupVariable x = e₂.lookupVariable x →
    f₁.lookupVariable x = f₂.lookupVariable x
  functions : ∀ x, e₁.lookupFunction x = e₂.lookupFunction x →
    f₁.lookupFunction x = f₂.lookupFunction x
  entries : ∀ x, e₁.functions.get? x = e₂.functions.get? x →
    f₁.functions.get? x = f₂.functions.get? x
  shares : Shares N f₁ f₂

variable {N : Name → Prop} {e₁ e₂ f₁ f₂ g₁ g₂ : Env ι}

theorem Keeps.refl (h : Shares N e₁ e₂) : Keeps N e₁ e₂ e₁ e₂ :=
  ⟨fun _ => id, fun _ => id, fun _ => id, h⟩

theorem Keeps.trans (h : Keeps N e₁ e₂ f₁ f₂) (h' : Keeps N f₁ f₂ g₁ g₂) :
    Keeps N e₁ e₂ g₁ g₂ :=
  ⟨fun x hx => h'.vars x (h.vars x hx), fun x hx => h'.functions x (h.functions x hx),
    fun x hx => h'.entries x (h.entries x hx), h'.shares⟩

theorem lookupVariable_bindVariable_of_eq (env env' : Env ι) {x name : Name}
    (h : name.canon = x.canon) (v : Value) :
    (env.bindVariable x v).lookupVariable name = (env'.bindVariable x v).lookupVariable name := by
  simp only [lookupVariable, bindVariable, Table.get?_congr _ h, Table.get?_insert_self]

theorem get?_bindFunction_of_eq (env : Env ι) {x name : Name} (h : name.canon = x.canon)
    (f : Function ι) : (env.bindFunction x f).functions.get? name = some f := by
  simp only [bindFunction, Table.get?_congr _ h, Table.get?_insert_self]

theorem Keeps.bindVariable (h : Keeps N e₁ e₂ f₁ f₂) (x : Name) (v : Value) :
    Keeps N e₁ e₂ (f₁.bindVariable x v) (f₂.bindVariable x v) := by
  refine ⟨fun y hy => ?_, h.functions, h.entries, h.shares.same, h.shares.within⟩
  by_cases hyx : y.canon = x.canon
  · exact lookupVariable_bindVariable_of_eq f₁ f₂ hyx v
  · rw [lookupVariable_bindVariable_of_ne f₁ hyx, lookupVariable_bindVariable_of_ne f₂ hyx]
    exact h.vars y hy

theorem Keeps.bindFunction (h : Keeps N e₁ e₂ f₁ f₂) (x : Name) {f : Function ι}
    (hf : f.CallsWithin N) : Keeps N e₁ e₂ (f₁.bindFunction x f) (f₂.bindFunction x f) := by
  -- a function of the name that is bound is the new one in both
  have hlookup : ∀ y, f₁.lookupFunction y = f₂.lookupFunction y →
      (f₁.bindFunction x f).lookupFunction y = (f₂.bindFunction x f).lookupFunction y := by
    intro y hy
    by_cases hyx : y.canon = x.canon
    · rw [lookupFunction, lookupFunction, get?_bindFunction_of_eq f₁ hyx,
        get?_bindFunction_of_eq f₂ hyx]
    · rw [lookupFunction_bindFunction_of_ne f₁ hyx, lookupFunction_bindFunction_of_ne f₂ hyx, hy]
  refine ⟨h.vars, fun y hy => hlookup y (h.functions y hy), fun y hy => ?_,
    fun y hy => hlookup y (h.shares.same y hy), fun y hy g hg => ?_⟩
  · by_cases hyx : y.canon = x.canon
    · rw [get?_bindFunction_of_eq f₁ hyx, get?_bindFunction_of_eq f₂ hyx]
    · have hentry := h.entries y hy
      simpa only [Env.bindFunction, Table.get?_insert_of_ne _ hyx] using hentry
  · by_cases hyx : y.canon = x.canon
    · rw [lookupFunction, get?_bindFunction_of_eq f₁ hyx, Option.filter_eq_some_iff] at hg
      cases hg.1
      exact hf
    · rw [lookupFunction_bindFunction_of_ne f₁ hyx] at hg
      exact h.shares.within y hy g hg

/-- Of a scope only the functions come from the caller. -/
theorem Shares.callScope (h : Shares N e₁ e₂) (params : List Name) (args : List Value) :
    Shares N (e₁.callScope params args) (e₂.callScope params args) :=
  ⟨h.same, h.within⟩

end Env

namespace Eval

open Run Env

variable {invoke : Invoke ι σ} {debug : Bool} {step : Step ι σ} {N : Name → Prop}
  {e₁ e₂ f₁ f₂ : Env ι}

/-! ## Pairs of evaluations -/

/-- Two environments look the same to a node. -/
structure Sees (N : Name → Prop) (n : Ast) (e₁ e₂ : Env ι) : Prop where
  calls : ∀ x, n.Calls x → N x
  reads : ∀ x, n.Reads x → e₁.lookupVariable x = e₂.lookupVariable x

/-- Two evaluations from a pair of environments yield the same value, and environments again in
which everything looks the same that did. -/
structure Agrees (N : Name → Prop) (e₁ e₂ : Env ι) (r₁ r₂ : Value × Env ι) : Prop where
  value : r₁.1 = r₂.1
  keeps : Keeps N e₁ e₂ r₁.2 r₂.2

/-- A step goes alike in environments that look the same to its node. -/
def Regards (N : Name → Prop) (step : Step ι σ) : Prop :=
  ∀ n e₁ e₂, Shares N e₁ e₂ → Sees N n e₁ e₂ →
    Mirrors (Agrees N e₁ e₂) (step n e₁) (step n e₂)

theorem Sees.inner {n c : Ast} (h : Sees N n e₁ e₂) (hc : c ∈ n.form.inner) : Sees N c e₁ e₂ :=
  ⟨fun x hx => h.calls x (.inner hc hx), fun x hx => h.reads x (.inner hc hx)⟩

theorem Sees.keeps {n : Ast} (h : Sees N n e₁ e₂) (hk : Keeps N e₁ e₂ f₁ f₂) : Sees N n f₁ f₂ :=
  ⟨h.calls, fun x hx => hk.vars x (h.reads x hx)⟩

theorem agrees_trans {x y : Run σ Fault (Value × Env ι)} (hk : Keeps N e₁ e₂ f₁ f₂)
    (h : Mirrors (Agrees N f₁ f₂) x y) : Mirrors (Agrees N e₁ e₂) x y :=
  h.mono fun _ _ h => ⟨h.value, hk.trans h.keeps⟩

theorem mirrors_if_failed {α β : Type} {R : α → β → Prop} {v : Value} {x y : Run σ Fault α}
    {x' y' : Run σ Fault β} (hx : Mirrors R x x') (hy : Mirrors R y y') :
    Mirrors R (do if ← v.failed then x else y : Run σ Fault α)
      (do if ← v.failed then x' else y' : Run σ Fault β) := by
  refine Mirrors.lift_bind _ fun b _ => ?_
  cases b with
  | true => exact hx
  | false => exact hy

theorem settle_mirrors (v : Value) (h : Shares N e₁ e₂) (hk : Keeps N e₁ e₂ f₁ f₂) :
    Mirrors (Agrees N e₁ e₂) (settle v e₁ f₁ : Run σ Fault (Value × Env ι)) (settle v e₂ f₂) :=
  mirrors_if_failed (.pure ⟨rfl, .refl h⟩) (.pure ⟨rfl, hk⟩)

/-! ## Sequences and arguments -/

section

variable (hstep : Regards N step)

include hstep

theorem sequence_mirrors {body : List Ast} (v : Value) (h : Shares N e₁ e₂)
    (hb : ∀ c ∈ body, Sees N c e₁ e₂) :
    Mirrors (Agrees N e₁ e₂) (sequence step debug v e₁ body) (sequence step debug v e₂ body) := by
  induction body generalizing v e₁ e₂ with
  | nil => exact .pure ⟨rfl, .refl h⟩
  | cons first rest ih =>
    refine (hstep first e₁ e₂ h (hb first List.mem_cons_self)).bind ?_
    rintro ⟨w, f₁⟩ ⟨-, f₂⟩ ⟨rfl, hk⟩
    refine mirrors_if_failed (.bind_left _ fun _ => .pure ⟨rfl, .refl h⟩) ?_
    have hrest : ∀ c ∈ rest, Sees N c f₁ f₂ := fun c hc =>
      (hb c (List.mem_cons_of_mem _ hc)).keeps hk
    exact agrees_trans hk (ih w hk.shares hrest)

/-- Two lists of evaluated arguments agree. -/
inductive Arguments.Agree (N : Name → Prop) (e₁ e₂ : Env ι) : Arguments ι → Arguments ι → Prop
  | values (vs : List Value) {f₁ f₂ : Env ι} : Keeps N e₁ e₂ f₁ f₂ →
      Agree N e₁ e₂ (.values vs f₁) (.values vs f₂)
  | error (v : Value) : Agree N e₁ e₂ (.error v) (.error v)

theorem arguments_mirrors {args : List Ast} (h : Shares N e₁ e₂)
    (ha : ∀ c ∈ args, Sees N c e₁ e₂) :
    Mirrors (Arguments.Agree N e₁ e₂) (arguments step e₁ args) (arguments step e₂ args) := by
  induction args generalizing e₁ e₂ with
  | nil => exact .pure (.values [] (.refl h))
  | cons first rest ih =>
    refine (hstep first e₁ e₂ h (ha first List.mem_cons_self)).bind ?_
    rintro ⟨w, f₁⟩ ⟨-, f₂⟩ ⟨rfl, hk⟩
    refine mirrors_if_failed (.pure (.error w)) ?_
    have hrest : ∀ c ∈ rest, Sees N c f₁ f₂ := fun c hc =>
      (ha c (List.mem_cons_of_mem _ hc)).keeps hk
    refine (ih hk.shares hrest).bind fun a₁ a₂ hagree => ?_
    cases hagree with
    | values vs hk' => exact .pure (.values (w :: vs) (hk.trans hk'))
    | error v => exact .pure (.error v)

/-! ## Calls -/

/-- What a called function does depends on its arguments and on functions alone. -/
theorem callFunction_mirrors (name : Name) {f : Function ι} (args : List Value)
    (h : Shares N e₁ e₂) (hf : f.CallsWithin N) :
    Mirrors Eq (callFunction invoke step debug name f args e₁)
      (callFunction invoke step debug name f args e₂) := by
  unfold callFunction
  split
  · exact .refl _
  · rename_i hkind
    refine .bind_left _ fun _ => .bind_left _ fun _ => .bind_left _ fun ps => ?_
    refine .bind_left _ fun params => .lift_bind _ fun body hbody => ?_
    have hscope := h.callScope params args
    have hsees : ∀ c ∈ body, Sees N c (e₁.callScope params args) (e₂.callScope params args) :=
      fun c hc => ⟨hf hkind body hbody c hc, fun x _ => rfl⟩
    refine (sequence_mirrors hstep .null hscope hsees).bind ?_
    rintro ⟨v, -⟩ ⟨-, -⟩ ⟨rfl, -⟩
    exact .pure rfl
  · exact .refl _

/-! ## Nodes -/

theorem node_regards : Regards N (node invoke debug step) := by
  intro n e₁ e₂ h hsees
  have hbody : ∀ {body : List Ast} {f₁ f₂ : Env ι}, (∀ c ∈ body, c ∈ n.form.inner) →
      Keeps N e₁ e₂ f₁ f₂ →
      Mirrors (Agrees N f₁ f₂) (statements step debug body f₁) (statements step debug body f₂) :=
    fun hb hk => sequence_mirrors hstep .null hk.shares fun c hc =>
      (hsees.inner (hb c hc)).keeps hk
  unfold node
  refine .bind_left _ fun _ => ?_
  cases hform : n.form with
  | source body =>
    refine .lift_bind _ fun body hb => hbody (fun c hc => ?_) (.refl h)
    simpa [hform, Ast.Form.inner, Except.toOption, hb] using hc
  | literal v => exact .lift_bind _ fun v _ => .pure ⟨rfl, .refl h⟩
  | var name =>
    refine .lift_bind _ fun name hname => .pure ⟨?_, .refl h⟩
    exact hsees.reads name ⟨n, .self, by rw [hform, hname]⟩
  | assignment name expression =>
    refine .lift_bind _ fun e he => ?_
    have hmem : e ∈ n.form.inner := by simp [hform, Ast.Form.inner, Except.toOption, he]
    refine (hstep e e₁ e₂ h (hsees.inner hmem)).bind ?_
    rintro ⟨v, f₁⟩ ⟨-, f₂⟩ ⟨rfl, hk⟩
    refine mirrors_if_failed (.pure ⟨rfl, .refl h⟩) (.lift_bind _ fun name _ => ?_)
    exact .pure ⟨rfl, hk.bindVariable name v⟩
  | add left right =>
    refine .lift_bind _ fun l hl => ?_
    have hmem : l ∈ n.form.inner := by simp [hform, Ast.Form.inner, Except.toOption, hl]
    refine (hstep l e₁ e₂ h (hsees.inner hmem)).bind ?_
    rintro ⟨v, f₁⟩ ⟨-, f₂⟩ ⟨rfl, hk⟩
    refine mirrors_if_failed (.pure ⟨rfl, .refl h⟩) (.lift_bind _ fun r hr => ?_)
    have hmem' : r ∈ n.form.inner := by simp [hform, Ast.Form.inner, Except.toOption, hr]
    refine (hstep r f₁ f₂ hk.shares ((hsees.inner hmem').keeps hk)).bind ?_
    rintro ⟨w, g₁⟩ ⟨-, g₂⟩ ⟨rfl, hk'⟩
    refine mirrors_if_failed (.pure ⟨rfl, .refl h⟩) (.lift_bind _ fun sum _ => ?_)
    exact settle_mirrors sum h (hk.trans hk')
  | conditional condition body =>
    refine .lift_bind _ fun c hc => ?_
    have hmem : c ∈ n.form.inner := by simp [hform, Ast.Form.inner, Except.toOption, hc]
    refine (hstep c e₁ e₂ h (hsees.inner hmem)).bind ?_
    rintro ⟨v, f₁⟩ ⟨-, f₂⟩ ⟨rfl, hk⟩
    refine mirrors_if_failed (.pure ⟨rfl, .refl h⟩) (.lift_bind _ fun holds _ => ?_)
    cases holds with
    | true =>
      refine .lift_bind _ fun body hb => ?_
      have hmem : ∀ c ∈ body, c ∈ n.form.inner := fun c hc => by
        simp [hform, Ast.Form.inner, Except.toOption, hb, hc]
      refine (hbody hmem hk).bind ?_
      rintro ⟨w, g₁⟩ ⟨-, g₂⟩ ⟨rfl, hk'⟩
      exact settle_mirrors w h (hk.trans hk')
    | false => exact .pure ⟨rfl, hk⟩
  | definition parts =>
    refine .lift_bind _ fun d hd => .bind_left _ fun _ => .lift_bind _ fun name _ => ?_
    have hdeferred : ∀ c ∈ d.body, c ∈ n.form.deferred := fun c hc => by
      simpa [hform, Ast.Form.deferred, Except.toOption, hd] using hc
    have hwithin : (Function.define d.params d.body : Function ι).CallsWithin N :=
      Function.define_callsWithin fun c hc x hx => hsees.calls x (.deferred (hdeferred c hc) hx)
    exact .pure ⟨rfl, (Keeps.refl h).bindFunction name hwithin⟩
  | call name args =>
    refine .lift_bind _ fun name hname => ?_
    have hN : N name := hsees.calls name ⟨n, args, .self, by rw [hform, hname]⟩
    rw [← h.same name hN]
    cases hlookup : e₁.lookupFunction name with
    | none => exact .lift_bind _ fun v _ => .pure ⟨rfl, .refl h⟩
    | some f =>
      refine .lift_bind _ fun args ha => ?_
      have hmem : ∀ c ∈ args, c ∈ n.form.inner := fun c hc => by
        simpa [hform, Ast.Form.inner, Except.toOption, ha] using hc
      have hargs := arguments_mirrors hstep h fun c hc => hsees.inner (hmem c hc)
      refine hargs.bind fun a₁ a₂ hagree => ?_
      cases hagree with
      | error v => exact .pure ⟨rfl, .refl h⟩
      | values vs hk =>
        have hwithin := h.within name hN f hlookup
        refine (callFunction_mirrors hstep name vs hk.shares hwithin).bind ?_
        rintro v - rfl
        exact settle_mirrors v h hk
  | unknown => exact .bind_left _ fun _ => .lift_bind _ fun v _ => .pure ⟨rfl, .refl h⟩

end

theorem eval_regards (invoke : Invoke ι σ) (debug : Bool) (N : Name → Prop) (depth : Nat) :
    Regards N (eval invoke debug depth) := by
  induction depth with
  | zero => exact fun n e₁ e₂ _ _ => .fail Fault.tooDeep
  | succ depth ih => exact node_regards ih

theorem logReturn_regards {step : Step ι (σ × List (Event ι))} (hstep : Regards N step) :
    Regards N (logReturn step) := by
  intro n e₁ e₂ h hsees
  refine (hstep n e₁ e₂ h hsees).bind ?_
  rintro ⟨v, f₁⟩ ⟨-, f₂⟩ ⟨rfl, hk⟩
  exact .bind_left _ fun _ => .pure ⟨rfl, hk⟩

theorem observe_regards (invoke : Invoke ι σ) (debug : Bool) (N : Name → Prop) (depth : Nat) :
    Regards N (observe invoke debug depth) := by
  induction depth with
  | zero => exact fun n e₁ e₂ _ _ => .fail Fault.tooDeep
  | succ depth ih => exact node_regards (logReturn_regards ih)

/-- Two programs go alike where their evaluations do, so long as the results of programs that nest
too deeply are alike too. -/
theorem evaluate_mirrors {R : Value × Env ι → Value × Env ι → Prop} {host : Host ι σ} {n m : Ast}
    (h : Mirrors R (eval (Callback.call host) debug maxDepth n e₁)
      (eval (Callback.call host) debug maxDepth m e₂))
    (hdeep : R (depthError n, e₁) (depthError m, e₂)) :
    Mirrors R (evaluate host debug n e₁) (evaluate host debug m e₂) := by
  intro s
  have hmirror := h s
  unfold evaluate
  rcases h₁ : eval (Callback.call host) debug maxDepth n e₁ s with ⟨⟨lines, o₁⟩, t⟩
  rcases h₂ : eval (Callback.call host) debug maxDepth m e₂ s with ⟨⟨lines', o₂⟩, t'⟩
  rw [h₁, h₂] at hmirror
  obtain ⟨hlines, hout, hstate⟩ := hmirror
  cases hlines
  cases hstate
  cases hout with
  | ok hR => exact ⟨rfl, .ok hR, rfl⟩
  | error e =>
    cases e with
    | tooDeep => exact ⟨rfl, .ok hdeep, rfl⟩
    | _ => exact ⟨rfl, .error _, rfl⟩

theorem evaluate_regards (host : Host ι σ) (debug : Bool) (N : Name → Prop) :
    Regards N (evaluate host debug) := fun n e₁ e₂ h hsees =>
  evaluate_mirrors (eval_regards (Callback.call host) debug N maxDepth n e₁ e₂ h hsees)
    ⟨rfl, .refl h⟩

/-! ## The main statement -/

/-- **What an evaluation depends on.** Let two environments share the functions of `N`, a set closed
under calls. If a node calls functions of `N` only and the variables that it reads look the same in
both, then it goes alike in them: the same output, the same calls of callbacks in the same order,
the same value or fault, and afterwards environments that share the functions of `N` and in which
everything looks the same that did before. And a call of a function of `N` depends on its arguments
alone, whatever variables its caller has. -/
theorem eval_noninterference (invoke : Invoke ι σ) (host : Host ι σ) (debug : Bool) (depth : Nat)
    (N : Name → Prop) (e₁ e₂ : Env ι) (h : Shares N e₁ e₂) :
    (∀ n : Ast, (∀ x, n.Calls x → N x) →
      (∀ x, n.Reads x → e₁.lookupVariable x = e₂.lookupVariable x) →
      Mirrors (Agrees N e₁ e₂) (eval invoke debug depth n e₁) (eval invoke debug depth n e₂) ∧
      Mirrors (Agrees N e₁ e₂) (observe invoke debug depth n e₁)
        (observe invoke debug depth n e₂) ∧
      Mirrors (Agrees N e₁ e₂) (evaluate host debug n e₁) (evaluate host debug n e₂)) ∧
    ∀ x f args, N x → e₁.lookupFunction x = some f →
      Mirrors Eq (callFunction invoke (eval invoke debug depth) debug x f args e₁)
        (callFunction invoke (eval invoke debug depth) debug x f args e₂) ∧
      Mirrors Eq
        (callFunction (logCalls invoke) (logReturn (observe invoke debug depth)) debug x f args e₁)
        (callFunction (logCalls invoke) (logReturn (observe invoke debug depth)) debug x f args
          e₂) := by
  refine ⟨fun n hcalls hreads => ?_, fun x f args hx hf => ?_⟩
  · have hsees : Sees N n e₁ e₂ := ⟨hcalls, hreads⟩
    exact ⟨eval_regards invoke debug N depth n e₁ e₂ h hsees,
      observe_regards invoke debug N depth n e₁ e₂ h hsees,
      evaluate_regards host debug N n e₁ e₂ h hsees⟩
  · have hwithin := h.within x hx f hf
    exact ⟨callFunction_mirrors (eval_regards invoke debug N depth) x args h hwithin,
      callFunction_mirrors (logReturn_regards (observe_regards invoke debug N depth)) x args h
        hwithin⟩

/-- `f(y)` in two environments: `y` is unbound in one and null in the other, which also has another
order of functions, a variable and a function of its own. What `f` defines is closed under calls. -/
theorem eval_noninterference_of_call :
    let host : Host Empty Unit := nofun
    let f : Function Empty := .defined ["a"]
      [.definition "g" [] [.call "f" [.var "x"]], .call "print" [.var "a"]]
    let e₁ : Env Empty := .make .empty (.ofList [("f", f), ("print", .standard .print)])
    let e₂ : Env Empty := .make (.ofList [("x", .bool true), ("y", .null)])
      (.ofList [("h", f), ("print", .standard .print), ("f", f)])
    let N : Name → Prop := fun x => x = "f" ∨ x = "print"
    Shares N e₁ e₂ ∧
    Mirrors (Agrees N e₁ e₂) (observe (Callback.call host) false 9 (.call "f" [.var "y"]) e₁)
      (observe (Callback.call host) false 9 (.call "f" [.var "y"]) e₂) := by
  intro host f e₁ e₂ N
  have hbody : f.CallsWithin N := by
    rintro - body ⟨⟩ n hn x hx
    simp only [List.mem_cons, List.not_mem_nil, or_false] at hn
    rcases hn with rfl | rfl
    · exact .inl (by simpa using hx)
    · exact .inr (by simpa using hx)
  have hprint : (Function.standard .print : Function Empty).CallsWithin N := by
    intro hkind
    have hkind : Datum.text "EmbeddedFunction" = .text "DefinedFunction" := hkind
    simp at hkind
  have hshares : Shares N e₁ e₂ := by
    refine ⟨fun x hx => ?_, fun x hx g hg => ?_⟩
    · rcases hx with rfl | rfl <;> rfl
    · rcases hx with rfl | rfl
      · cases hg
        exact hbody
      · cases hg
        exact hprint
  have hcalls : ∀ x, (Ast.call "f" [.var "y"]).Calls x → N x :=
    fun x hx => .inl (by simpa using hx)
  have hreads : ∀ x, (Ast.call "f" [.var "y"]).Reads x →
      e₁.lookupVariable x = e₂.lookupVariable x := by
    intro x hx
    obtain rfl : x = "y" := by simpa using hx
    rfl
  have hmain := eval_noninterference (Callback.call host) host false 9 N e₁ e₂ hshares
  exact ⟨hshares, (hmain.1 _ hcalls hreads).2.1⟩

end Eval
end Tama
