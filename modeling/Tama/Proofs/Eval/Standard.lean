import Tama.Proofs.Eval.Arity
import Tama.Proofs.Session.Calls

/-!
# Standard functions and the language

The standard functions compute on native data, the language on values, and so truthiness, equality
and the written form exist twice. The two agree on the values that scripts compute with
(`Value.Canonical.truthy_native`, `equals_native`, `format_native`), and the way from values to
native data and back loses nothing. Main statement: a call of a standard function gives what the
language itself would say of the arguments (`standard_agrees`).
-/

set_option autoImplicit false

namespace Tama

open Run

variable {ι σ : Type}

/-! ## Native forms -/

section
variable {x y : Value} {d e : Datum}

theorem Value.Canonical.exists_native (hx : x.Canonical) : ∃ d, x.toHost = .ok d ∧ d.Native := by
  cases hx with
  | int n => exact ⟨_, rfl, .int n⟩
  | bool b => exact ⟨_, rfl, .bool b⟩
  | null => exact ⟨_, rfl, .null⟩

theorem Value.Canonical.ofHost_native (hx : x.Canonical) (hd : x.toHost = .ok d) :
    Value.ofHost d = .ok x := by
  have h := Value.ofHost_toHost hx
  rwa [hd] at h

/-- A value is truthy in a script where its native form is for a standard function. -/
theorem Value.Canonical.truthy_native (hx : x.Canonical) (hd : x.toHost = .ok d) :
    x.isTruthy = .ok (Builtin.truthy d) := by
  cases hx with
  | int n => cases hd; rfl
  | bool b => cases hd; cases b <;> rfl
  | null => cases hd; rfl

theorem Builtin.equals_int (m n : Int) : equals (.int m) (.int n) = (n == m) := rfl

theorem Builtin.equals_bool (b c : Bool) : equals (.bool b) (.bool c) = (b == c) := by
  cases b <;> cases c <;> rfl

theorem Builtin.equals_of_typeName (h : d.typeName ≠ e.typeName) : equals d e = false := by
  rw [equals, beq_false_of_ne h, Bool.false_and]

/-- Native forms are equal where the values are. An integer and a truth value never are, though the
host itself takes some of them for the same. -/
theorem Value.Canonical.equals_native (hx : x.Canonical) (hy : y.Canonical)
    (hd : x.toHost = .ok d) (he : y.toHost = .ok e) :
    Builtin.equals d e = true ↔ x = y := by
  cases hx <;> cases hy <;> cases hd <;> cases he
  case int.int m n =>
    rw [Builtin.equals_int, beq_iff_eq, Value.int.injEq]
    exact eq_comm
  case bool.bool b c => simp [Builtin.equals_bool]
  case null.null => exact iff_of_true rfl rfl
  all_goals
    -- two values of different types
    rw [Builtin.equals_of_typeName (by simp [Datum.typeName])]
    exact iff_of_false Bool.false_ne_true nofun

/-- A value and its native form are written alike, or both cannot be written. -/
theorem Value.Canonical.format_native (hx : x.Canonical) (hd : x.toHost = .ok d) :
    Builtin.format d = x.format := by
  cases hx with
  | int n =>
    cases hd
    simp only [Builtin.format, Datum.display, Datum.literal, Value.format]
  | bool b => cases hd; rfl
  | null => cases hd; rfl

/-- Only an integer of too many digits cannot be written. -/
theorem Value.Canonical.format_error (hx : x.Canonical) {f : Fault} (h : x.format = .error f) :
    f = .digits .writing ∧ ∃ n : Int, x = .int n ∧ Nat.pow 10 Decimal.maxDigits ≤ n.natAbs := by
  cases hx with
  | int n =>
    by_cases hn : n.natAbs < Nat.pow 10 Decimal.maxDigits
    · rw [Value.format, Decimal.write_eq_ok hn] at h
      cases h
    · rw [Value.format, Decimal.write, if_neg hn] at h
      cases h
      exact ⟨rfl, n, rfl, Nat.le_of_not_lt hn⟩
  | bool b => cases h
  | null => cases h

end

/-! ## Standard functions on values -/

namespace Builtin

/-- A standard function on script values. -/
def onValues (b : Builtin) (vs : List Value) : Traced Fault Value := do
  let native ← (vs.mapM Value.toHost : Except Fault (List Datum))
  let result ← b.call native
  Value.ofHost result

section
variable {x y : Value} {d e : Datum}

theorem onValues_single (b : Builtin) (hd : x.toHost = .ok d) :
    b.onValues [x] = (do Value.ofHost (← b.call [d])) := by
  simp only [onValues, List.mapM_cons, List.mapM_nil, hd]
  rfl

theorem onValues_pair (b : Builtin) (hd : x.toHost = .ok d) (he : y.toHost = .ok e) :
    b.onValues [x, y] = (do Value.ofHost (← b.call [d, e])) := by
  simp only [onValues, List.mapM_cons, List.mapM_nil, hd, he]
  rfl

theorem onValues_either (hx : x.Canonical) (hy : y.Canonical) {truth : Bool}
    (h : x.isTruthy = .ok truth) :
    either.onValues [x, y] = pure (if truth then x else y) := by
  obtain ⟨d, hd, -⟩ := hx.exists_native
  obtain ⟨e, he, -⟩ := hy.exists_native
  cases h.symm.trans (hx.truthy_native hd)
  rw [onValues_pair _ hd he]
  simp only [call, pure_bind]
  split
  · rw [hx.ofHost_native hd]; rfl
  · rw [hy.ofHost_native he]; rfl

theorem onValues_both (hx : x.Canonical) (hy : y.Canonical) {truth : Bool}
    (h : x.isTruthy = .ok truth) :
    both.onValues [x, y] = pure (if truth then y else x) := by
  obtain ⟨d, hd, -⟩ := hx.exists_native
  obtain ⟨e, he, -⟩ := hy.exists_native
  cases h.symm.trans (hx.truthy_native hd)
  rw [onValues_pair _ hd he]
  simp only [call, pure_bind]
  split
  · rw [hy.ofHost_native he]; rfl
  · rw [hx.ofHost_native hd]; rfl

theorem onValues_negation (hx : x.Canonical) {truth : Bool} (h : x.isTruthy = .ok truth) :
    negation.onValues [x] = pure (.bool !truth) := by
  obtain ⟨d, hd, -⟩ := hx.exists_native
  cases h.symm.trans (hx.truthy_native hd)
  rw [onValues_single _ hd]
  rfl

theorem onValues_equal (hx : x.Canonical) (hy : y.Canonical) :
    ∃ same : Bool, (same = true ↔ x = y) ∧ equal.onValues [x, y] = pure (.bool same) ∧
      notEqual.onValues [x, y] = pure (.bool !same) := by
  obtain ⟨d, hd, -⟩ := hx.exists_native
  obtain ⟨e, he, -⟩ := hy.exists_native
  refine ⟨equals d e, hx.equals_native hy hd he, ?_, ?_⟩
  · rw [onValues_pair _ hd he]; rfl
  · rw [onValues_pair _ hd he]; rfl

theorem onValues_print (hx : x.Canonical) :
    print.onValues [x] = (do Traced.line (← x.format); pure .null) := by
  obtain ⟨d, hd, -⟩ := hx.exists_native
  rw [onValues_single _ hd, ← hx.format_native hd]
  simp only [call]
  cases format d <;> rfl

end

theorem natives_of_canonical {vs : List Value} (h : ∀ v ∈ vs, v.Canonical) :
    ∃ ds, vs.mapM Value.toHost = .ok ds ∧ ∀ d ∈ ds, d.Native := by
  induction vs with
  | nil => exact ⟨[], rfl, nofun⟩
  | cons v rest ih =>
    obtain ⟨d, hd, hnative⟩ := (h v List.mem_cons_self).exists_native
    obtain ⟨ds, hds, hrest⟩ := ih fun w hw => h w (List.mem_cons_of_mem v hw)
    refine ⟨d :: ds, ?_, List.forall_mem_cons.2 ⟨hnative, hrest⟩⟩
    rw [List.mapM_cons, hd, hds]
    rfl

/-- What a standard function returns on values that scripts compute with is such a value. -/
theorem onValues_post (b : Builtin) {vs : List Value} (h : ∀ v ∈ vs, v.Canonical) :
    Post Value.Canonical Fault.Raised (b.onValues vs).outcome := by
  obtain ⟨ds, hds, hnative⟩ := natives_of_canonical h
  simp only [onValues, hds]
  rw [Traced.outcome_bind]
  refine .bind (.ok rfl) fun native heq => ?_
  cases heq
  rw [Traced.outcome_bind]
  exact (b.call_post hnative).bind fun d hd => hd.ofHost

end Builtin

/-- An entry that calls a standard function, with whatever number of arguments it declares. -/
structure Function.Embeds (f : Function ι) (b : Builtin) : Prop where
  kind : f.kind = .text "EmbeddedFunction"
  target : f.target = some (.ok (.builtin b))

theorem Function.embeds_standard (b : Builtin) : (standard b : Function ι).Embeds b :=
  ⟨rfl, rfl⟩

/-- An environment in which every standard function can be called by its name. -/
def Env.BindsStandard (env : Env ι) : Prop :=
  ∀ b : Builtin, ∃ f, env.lookupFunction (.text b.name) = some f ∧ f.Embeds b

theorem Env.bindsStandard_standard (vars : Table Value) :
    (standard vars : Env ι).BindsStandard := by
  intro b
  refine ⟨.standard b, ?_, Function.embeds_standard b⟩
  cases b <;> rfl

namespace Eval

variable {env : Env ι} {f : Function ι} {b : Builtin} {step : Step ι σ}

/-! ## Traces -/

/-- The lines of a trace, where it can be written. -/
def traceLines (debug : Bool) (text : Except Fault String) : Except Fault (List String) :=
  if debug then text.map fun line => [line] else .ok []

/-- What the visit of a node of some type prints. -/
def visited (debug : Bool) (kind : String) : List String :=
  if debug then ["Evaluating: " ++ kind] else []

theorem trace_apply {debug : Bool} {text : Except Fault String} {lines : List String}
    (h : traceLines debug text = .ok lines) (s : σ) :
    trace debug text s = (⟨lines, .ok ()⟩, s) := by
  unfold traceLines at h
  unfold trace
  cases debug with
  | false => cases h; rfl
  | true =>
    cases text with
    | error e => cases h
    | ok line => cases h; rfl

theorem traceLines_visit (debug : Bool) (kind : String) :
    traceLines debug (visitText (.text kind)) = .ok (visited debug kind) := by
  cases debug <;> rfl

/-- What the call of a standard function prints before it runs. -/
def callLines (debug : Bool) (b : Builtin) (vs : List Value) : Except Fault (List String) :=
  traceLines debug (do embeddedText (.text b.name) (← vs.mapM Value.toHost))

/-! ## Calls -/

theorem mapM_toHost {vs : List Value} {ds : List Datum} (h : vs.mapM Value.toHost = .ok ds) :
    (vs.mapM fun v => (liftM v.toHost : Run σ Fault Datum)) = pure ds := by
  induction vs generalizing ds with
  | nil =>
    cases h
    rfl
  | cons v rest ih =>
    rw [List.mapM_cons] at h
    cases hv : v.toHost with
    | error e => rw [hv] at h; cases h
    | ok d =>
      cases hrest : rest.mapM Value.toHost with
      | error e => rw [hv, hrest] at h; cases h
      | ok ds' =>
        rw [hv, hrest] at h
        cases h
        rw [List.mapM_cons, ih hrest, lift_bind hv]
        rfl

variable (step) in
/-- A call of a standard function by its name, on values that scripts compute with. -/
theorem callFunction_standard (hf : f.Embeds b) (host : Host ι σ) {debug : Bool} {vs : List Value}
    (hvs : ∀ v ∈ vs, v.Canonical) {lines : List String} (hlines : callLines debug b vs = .ok lines)
    (env : Env ι) (s : σ) :
    callFunction (Callback.call host) step debug (.text b.name) f vs env s =
      (⟨lines ++ (b.onValues vs).lines, (b.onValues vs).outcome⟩, s) := by
  obtain ⟨ds, hds, -⟩ := Builtin.natives_of_canonical hvs
  have htrace : trace debug (embeddedText (.text b.name) ds) s = (⟨lines, .ok ()⟩, s) := by
    refine trace_apply ?_ s
    rw [← hlines, callLines, hds]
    rfl
  have hvalues : b.onValues vs = (do Value.ofHost (← b.call ds)) := by
    rw [Builtin.onValues, hds]
    rfl
  simp only [callFunction, hf.kind, callEmbedded, hf.target]
  rw [mapM_toHost hds, pure_bind, bind_apply_ok htrace, hvalues]
  rw [lift_bind rfl]
  simp only [Callback.call]
  rw [bind_apply]
  obtain ⟨said, outcome⟩ := b.call ds
  cases outcome <;> rfl

/-- Expressions evaluate to these values one after the other, each in the environment and the state
that the one before left. -/
inductive Supply (step : Step ι σ) :
    List Ast → Env ι → σ → List Value → List String → Env ι → σ → Prop
  | nil (env : Env ι) (s : σ) : Supply step [] env s [] [] env s
  | cons {first : Ast} {rest : List Ast} {env mid env' : Env ι} {s u t : σ} {v : Value}
      {vs : List Value} {lines more : List String} :
      step first env s = (⟨lines, .ok (v, mid)⟩, u) → Supply step rest mid u vs more env' t →
      Supply step (first :: rest) env s (v :: vs) (lines ++ more) env' t

theorem Supply.arguments {args : List Ast} {env env' : Env ι} {s t : σ} {vs : List Value}
    {said : List String} (h : Supply step args env s vs said env' t)
    (hvs : ∀ v ∈ vs, v.failed = .ok false) :
    arguments step env args s = (⟨said, .ok (.values vs env')⟩, t) := by
  induction h with
  | nil _ _ => rfl
  | cons hfirst _ ih =>
    obtain ⟨hv, hvs⟩ := List.forall_mem_cons.1 hvs
    rw [Eval.arguments, bind_apply_ok hfirst]
    dsimp only
    rw [if_failed hv, if_neg Bool.false_ne_true, bind_apply_ok (ih hvs)]
    simp

/-! ## What the language says -/

/-- A call of a standard function on these values gives this result: whatever expressions the
arguments are that evaluate to them, it does so in the environment and the state that they leave,
and prints nothing else but what a debug trace shows of it. -/
def Answers (host : Host ι σ) (debug : Bool) (env : Env ι) (b : Builtin) (vs : List Value)
    (r : Traced Fault Value) : Prop :=
  ∀ (n : Ast) (args : List Ast) (depth : Nat) (s t : σ) (said shown : List String) (env' : Env ι),
    n.form = .call (.ok (.text b.name)) (.ok args) →
    Supply (eval (Callback.call host) debug depth) args env s vs said env' t →
    callLines debug b vs = .ok shown →
    eval (Callback.call host) debug (depth + 1) n env s =
      (⟨visited debug "FunctionCall" ++ said ++ shown ++ r.lines, r.outcome.map (·, env')⟩, t)

/-- A conditional whose condition evaluates to this value runs its body, or yields null without
running it. -/
def Decides (host : Host ι σ) (debug : Bool) (x : Value) (runs : Bool) : Prop :=
  ∀ (n condition : Ast) (body : List Ast) (depth : Nat) (env env' : Env ι) (s t : σ)
    (said : List String),
    n.form = .conditional (.ok condition) (.ok body) →
    eval (Callback.call host) debug depth condition env s = (⟨said, .ok (x, env')⟩, t) →
    eval (Callback.call host) debug (depth + 1) n env s =
      let rest : Run σ Fault (Value × Env ι) :=
        if runs then do
          let (v, last) ← statements (eval (Callback.call host) debug depth) debug body env'
          settle v env last
        else pure (.null, env')
      (⟨visited debug "If" ++ said ++ (rest t).1.lines, (rest t).1.outcome⟩, (rest t).2)

theorem answers_onValues (host : Host ι σ) (debug : Bool)
    (hf : env.lookupFunction (.text b.name) = some f) (hb : f.Embeds b) {vs : List Value}
    (hvs : ∀ v ∈ vs, v.Canonical) : Answers host debug env b vs (b.onValues vs) := by
  intro n args depth s t said shown env' hn hsupply hshown
  have hkind : n.kind = .text "FunctionCall" := by
    have h := n.kind_of_form
    rwa [hn] at h
  have hvisit := trace_apply (traceLines_visit debug "FunctionCall") s
  have hcall := callFunction_standard (eval (Callback.call host) debug depth) hb host hvs hshown
    env' t
  have hpost := b.onValues_post hvs
  have hargs := hsupply.arguments fun v hv => (hvs v hv).failed
  simp only [eval, node, hkind, hn]
  rw [bind_apply_ok hvisit, lift_bind rfl]
  simp only [hf]
  rw [lift_bind rfl, bind_apply_ok hargs]
  dsimp only
  cases hr : (b.onValues vs).outcome with
  | error e =>
    rw [hr] at hcall
    rw [bind_apply_error hcall]
    simp [Except.map]
  | ok v =>
    rw [hr] at hcall hpost
    cases hpost with
    | ok hv =>
      rw [bind_apply_ok hcall, settle, if_failed hv.failed]
      simp [Except.map]

theorem decides_isTruthy (host : Host ι σ) (debug : Bool) {x : Value} (hx : x.Canonical)
    {truth : Bool} (h : x.isTruthy = .ok truth) : Decides host debug x truth := by
  intro n condition body depth env env' s t said hn hcondition
  have hkind : n.kind = .text "If" := by
    have h := n.kind_of_form
    rwa [hn] at h
  have hvisit := trace_apply (traceLines_visit debug "If") s
  simp only [eval, node, hkind, hn]
  rw [bind_apply_ok hvisit, lift_bind rfl, bind_apply_ok hcondition]
  dsimp only
  rw [if_failed hx.failed, if_neg Bool.false_ne_true, lift_bind h]
  cases truth with
  | true =>
    rw [if_pos rfl, lift_bind rfl]
    simp
  | false => simp

/-! ## The main statement -/

/-- What the standard functions give on two values, next to what the language says of them: whether
a conditional runs its body on the first, and whether the two are the same value. -/
structure Agreement (host : Host ι σ) (debug : Bool) (env : Env ι) (x y : Value)
    (runs same : Bool) : Prop where
  condition : Decides host debug x runs
  either : Answers host debug env .either [x, y] (pure (if runs then x else y))
  both : Answers host debug env .both [x, y] (pure (if runs then y else x))
  negation : Answers host debug env .negation [x] (pure (.bool !runs))
  structural : same = true ↔ x = y
  equal : Answers host debug env .equal [x, y] (pure (.bool same))
  notEqual : Answers host debug env .notEqual [x, y] (pure (.bool !same))
  /-- Of two integers one is less, or both are the same, or one is greater, and the sign of the
  difference tells. -/
  order : ∀ m n, x = .int m → y = .int n → ∃ (less greater : Bool) (difference : Int),
    Answers host debug env .less [x, y] (pure (.bool less)) ∧
    Answers host debug env .greater [x, y] (pure (.bool greater)) ∧
    Answers host debug env .subtract [x, y] (pure (.int difference)) ∧
    [less, same, greater].count true = 1 ∧ (less = true ↔ difference < 0)
  /-- What is printed is the value as it is written, in a line of its own. -/
  print : Answers host debug env .print [x] (do Traced.line (← x.format); pure .null)
  /-- Only an integer of too many digits cannot be printed. -/
  limit : ∀ f, x.format = .error f →
    f = .digits .writing ∧ ∃ n : Int, x = .int n ∧ Nat.pow 10 Decimal.maxDigits ≤ n.natAbs

/-- Two integers stand in one order only. -/
theorem count_orders (m n : Int) :
    [decide (m < n), decide (m = n), decide (n < m)].count true = 1 := by
  rcases Int.lt_trichotomy m n with h | rfl | h
  · have hne : m ≠ n := by omega
    have hlt : ¬ n < m := by omega
    simp [h, hne, hlt]
  · simp
  · have hne : m ≠ n := by omega
    have hlt : ¬ m < n := by omega
    simp [h, hne, hlt]

theorem Agreement.of_answers {host : Host ι σ} {debug : Bool} {env : Env ι} {x y : Value}
    (hx : x.Canonical) (hy : y.Canonical) {runs same : Bool} (hruns : x.isTruthy = .ok runs)
    (hsame : same = true ↔ x = y)
    (hequal : Builtin.equal.onValues [x, y] = pure (.bool same))
    (hnotEqual : Builtin.notEqual.onValues [x, y] = pure (.bool !same))
    (hanswers : ∀ b vs, (∀ v ∈ vs, v = x ∨ v = y) → Answers host debug env b vs (b.onValues vs)) :
    Agreement host debug env x y runs same where
  condition := decides_isTruthy host debug hx hruns
  either := Builtin.onValues_either hx hy hruns ▸ hanswers .either [x, y] (by simp)
  both := Builtin.onValues_both hx hy hruns ▸ hanswers .both [x, y] (by simp)
  negation := Builtin.onValues_negation hx hruns ▸ hanswers .negation [x] (by simp)
  structural := hsame
  equal := hequal ▸ hanswers .equal [x, y] (by simp)
  notEqual := hnotEqual ▸ hanswers .notEqual [x, y] (by simp)
  order := by
    rintro m n rfl rfl
    have hmn : same = decide (m = n) := by
      rw [Bool.eq_iff_iff, hsame, decide_eq_true_iff, Value.int.injEq]
    refine ⟨decide (m < n), decide (n < m), m - n, hanswers .less _ (by simp),
      hanswers .greater _ (by simp), hanswers .subtract _ (by simp), hmn ▸ count_orders m n, ?_⟩
    rw [decide_eq_true_iff]
    omega
  print := Builtin.onValues_print hx ▸ hanswers .print [x] (by simp)
  limit _ hf := hx.format_error hf

/-- **The standard functions agree with the language.** Wherever they can be called, they take a
value for true exactly where a conditional does, they tell two values from each other where these
are different, and they print a value as the language writes it. -/
theorem standard_agrees (host : Host ι σ) (debug : Bool) {env : Env ι} (henv : env.BindsStandard)
    {x y : Value} (hx : x.Canonical) (hy : y.Canonical) :
    ∃ runs same, Agreement host debug env x y runs same := by
  obtain ⟨d, hd, -⟩ := hx.exists_native
  obtain ⟨same, hsame, hequal, hnotEqual⟩ := Builtin.onValues_equal hx hy
  refine ⟨Builtin.truthy d, same, .of_answers hx hy (hx.truthy_native hd) hsame hequal hnotEqual ?_⟩
  intro b vs hvs
  obtain ⟨f, hf, hb⟩ := henv b
  refine answers_onValues host debug hf hb fun v hv => ?_
  rcases hvs v hv with rfl | rfl
  · exact hx
  · exact hy

/-- On `true` and `1`, which the host itself takes for the same. -/
theorem standard_agrees_on_true_and_one :
    let host : Host Empty Unit := nofun
    let env : Env Empty := .standard .empty
    let yields (n : Ast) (lines : List String) (v : Value) : Prop :=
      eval (Callback.call host) false 2 n env () = (⟨lines, .ok (v, env)⟩, ())
    yields (.call "or" [.bool true, .int 1]) [] (.bool true) ∧
    yields (.call "and" [.bool true, .int 1]) [] (.int 1) ∧
    yields (.call "not" [.bool true]) [] (.bool false) ∧
    yields (.call "eq" [.bool true, .int 1]) [] (.bool false) ∧
    yields (.call "print" [.bool true]) ["true"] .null := by
  intro host env yields
  obtain ⟨runs, same, h⟩ := standard_agrees host false (Env.bindsStandard_standard .empty)
    (.bool true) (.int 1)
  have hruns : runs = true := by
    have hif := h.condition (.conditional (.bool true) [.int 5]) _ _ 1 env env () () [] rfl rfl
    cases runs with
    | true => rfl
    | false => cases hif
  have hsame : same = false := by
    rw [← Bool.not_eq_true, h.structural]
    exact nofun
  subst hruns hsame
  let step : Step Empty Unit := eval (Callback.call host) false 1
  have harg : Supply step [.bool true] env () [.bool true] ([] ++ []) env () :=
    .cons rfl (.nil env ())
  have hargs : Supply step [.bool true, .int 1] env () [.bool true, .int 1] ([] ++ ([] ++ [])) env
    () := .cons rfl (.cons rfl (.nil env ()))
  exact ⟨h.either _ _ 1 () () _ [] env rfl hargs rfl, h.both _ _ 1 () () _ [] env rfl hargs rfl,
    h.negation _ _ 1 () () _ [] env rfl harg rfl, h.equal _ _ 1 () () _ [] env rfl hargs rfl,
    h.print _ _ 1 () () _ [] env rfl harg rfl⟩

end Eval
end Tama
