import Tama.Proofs.Env.Renaming

/-!
# Local names

The variables of a called function are its own, so their names do not matter. Two evaluations are
compared, one with a function as it stands and one with the function renamed. Inside a call of the
function the two have differently named variables, everywhere else the same ones; so an evaluator
has to respect whatever renaming is in force (`Respects`), and that carries the induction on the
depth.
-/

set_option autoImplicit false

namespace Tama.Eval

open Run Env

variable {ι σ : Type} {invoke : Invoke ι σ} {debug : Bool} {step : Step ι σ} {x : Name}
  {f : Function ι} {r ρ : Renaming} {e₁ e₂ f₁ f₂ : Env ι}

/-- Two evaluations yield the same value, and environments that differ by renamings. -/
structure Coincide (x : Name) (f : Function ι) (r ρ : Renaming) (r₁ r₂ : Value × Env ι) : Prop where
  value : r₁.1 = r₂.1
  env : Renamed x f r ρ r₁.2 r₂.2

/-- A step goes alike in environments that differ by a renaming, when its node is renamed too. -/
def Respects (x : Name) (f : Function ι) (r : Renaming) (step : Step ι σ) : Prop :=
  ∀ (ρ : Renaming) (n : Ast) (e₁ e₂ : Env ι), Renamed x f r ρ e₁ e₂ →
    Mirrors (Coincide x f r ρ) (step n e₁) (step (n.rename ρ) e₂)

theorem settle_coincide (v : Value) (h : Renamed x f r ρ e₁ e₂) (h' : Renamed x f r ρ f₁ f₂) :
    Mirrors (Coincide x f r ρ) (settle v e₁ f₁ : Run σ Fault (Value × Env ι)) (settle v e₂ f₂) :=
  mirrors_if_failed (.pure ⟨rfl, h⟩) (.pure ⟨rfl, h'⟩)

/-! ## Sequences and arguments -/

section

variable (hstep : Respects x f r step)

include hstep

theorem sequence_coincides (body : List Ast) (v : Value) (h : Renamed x f r ρ e₁ e₂) :
    Mirrors (Coincide x f r ρ) (sequence step debug v e₁ body)
      (sequence step debug v e₂ (body.map (Ast.rename ρ))) := by
  induction body generalizing v e₁ e₂ with
  | nil => exact .pure ⟨rfl, h⟩
  | cons first rest ih =>
    refine (hstep ρ first e₁ e₂ h).bind ?_
    rintro ⟨w, f₁⟩ ⟨-, f₂⟩ ⟨rfl, h'⟩
    exact mirrors_if_failed (.bind_left _ fun _ => .pure ⟨rfl, h⟩) (ih w h')

/-- Two lists of evaluated arguments coincide. -/
inductive Arguments.Coincide (x : Name) (f : Function ι) (r ρ : Renaming) :
    Arguments ι → Arguments ι → Prop
  | values (vs : List Value) {f₁ f₂ : Env ι} : Renamed x f r ρ f₁ f₂ →
      Coincide x f r ρ (.values vs f₁) (.values vs f₂)
  | error (v : Value) : Coincide x f r ρ (.error v) (.error v)

theorem arguments_coincide (args : List Ast) (h : Renamed x f r ρ e₁ e₂) :
    Mirrors (Arguments.Coincide x f r ρ) (arguments step e₁ args)
      (arguments step e₂ (args.map (Ast.rename ρ))) := by
  induction args generalizing e₁ e₂ with
  | nil => exact .pure (.values [] h)
  | cons first rest ih =>
    refine (hstep ρ first e₁ e₂ h).bind ?_
    rintro ⟨w, f₁⟩ ⟨-, f₂⟩ ⟨rfl, h'⟩
    refine mirrors_if_failed (.pure (.error w)) ((ih h').bind fun a₁ a₂ hargs => ?_)
    cases hargs with
    | values vs h'' => exact .pure (.values (w :: vs) h'')
    | error v => exact .pure (.error v)

/-! ## Calls -/

/-- A call goes alike for a function and for what becomes of it, whatever the renaming around it. -/
theorem callFunction_coincides (name : Name) {g g' : Function ι} {ρ' : Renaming}
    (hg : g.Renames ρ' g') (args : List Value) (h : Renamed x f r ρ e₁ e₂) :
    Mirrors Eq (callFunction invoke step debug name g args e₁)
      (callFunction invoke step debug name g' args e₂) := by
  unfold callFunction
  rw [hg.kind]
  split
  · unfold callEmbedded
    rw [hg.target]
    exact .refl _
  · have hcount : traceCount debug name g' args.length =
        (traceCount debug name g args.length : Run σ Fault Unit) := by
      simp only [traceCount, countText, hg.count, hg.declared]
    obtain ⟨params, hparams, hnames⟩ := hg.arguments
    unfold callDefined
    rw [hcount, hparams, hg.body]
    refine .bind_left _ fun _ => .bind_left _ fun _ => .lift_map_bind _ _ fun ps _ => ?_
    rw [hnames]
    refine .lift_map_bind _ _ fun names _ => .lift_map_bind _ _ fun body _ => ?_
    refine (sequence_coincides hstep body .null (h.callScope ρ' names args)).bind ?_
    rintro ⟨v, -⟩ ⟨-, -⟩ ⟨rfl, -⟩
    exact .pure rfl
  · exact .refl _

/-! ## Nodes -/

theorem node_respects : Respects x f r (node invoke debug step) := by
  intro ρ n e₁ e₂ h
  unfold node
  rw [Ast.kind_rename, Ast.form_rename]
  refine .bind_left _ fun _ => ?_
  cases n.form with
  | source body =>
    exact .lift_map_bind _ _ fun body _ => sequence_coincides hstep body .null h
  | literal v => exact .lift_bind _ fun v _ => .pure ⟨rfl, h⟩
  | var name =>
    exact .lift_map_bind _ _ fun name _ => .pure ⟨(h.lookupVariable name).symm, h⟩
  | assignment name expression =>
    refine .lift_map_bind _ _ fun e _ => (hstep ρ e e₁ e₂ h).bind ?_
    rintro ⟨v, f₁⟩ ⟨-, f₂⟩ ⟨rfl, h'⟩
    refine mirrors_if_failed (.pure ⟨rfl, h⟩) (.lift_map_bind _ _ fun name _ => ?_)
    exact .pure ⟨rfl, h'.bindVariable name v⟩
  | add left right =>
    refine .lift_map_bind _ _ fun l _ => (hstep ρ l e₁ e₂ h).bind ?_
    rintro ⟨v, f₁⟩ ⟨-, f₂⟩ ⟨rfl, h'⟩
    refine mirrors_if_failed (.pure ⟨rfl, h⟩) (.lift_map_bind _ _ fun right _ => ?_)
    refine (hstep ρ right f₁ f₂ h').bind ?_
    rintro ⟨w, g₁⟩ ⟨-, g₂⟩ ⟨rfl, h''⟩
    exact mirrors_if_failed (.pure ⟨rfl, h⟩) (.lift_bind _ fun sum _ => settle_coincide sum h h'')
  | conditional condition body =>
    refine .lift_map_bind _ _ fun c _ => (hstep ρ c e₁ e₂ h).bind ?_
    rintro ⟨v, f₁⟩ ⟨-, f₂⟩ ⟨rfl, h'⟩
    refine mirrors_if_failed (.pure ⟨rfl, h⟩) (.lift_bind _ fun holds _ => ?_)
    cases holds with
    | true =>
      refine .lift_map_bind _ _ fun body _ => (sequence_coincides hstep body .null h').bind ?_
      rintro ⟨w, g₁⟩ ⟨-, g₂⟩ ⟨rfl, h''⟩
      exact settle_coincide w h h''
    | false => exact .pure ⟨rfl, h'⟩
  | definition parts =>
    refine .lift_bind _ fun d _ => .bind_left _ fun _ => .lift_bind _ fun name _ => ?_
    exact .pure ⟨rfl, h.bindFunction name _⟩
  | call name args =>
    refine .lift_bind _ fun name _ => ?_
    -- the callee is what it was, or the renamed function
    obtain ⟨g, g', ρ', h₁, h₂, hg⟩ | ⟨h₁, h₂⟩ : (∃ g g' ρ', e₁.lookupFunction name = some g ∧
        e₂.lookupFunction name = some g' ∧ g.Renames ρ' g') ∨
        e₁.lookupFunction name = none ∧ e₂.lookupFunction name = none := by
      rcases h.lookupFunction name with hsame | ⟨h₁, h₂⟩
      · cases hlookup : e₁.lookupFunction name with
        | none => exact .inr ⟨rfl, hsame.trans hlookup⟩
        | some g => exact .inl ⟨g, g, .id, rfl, hsame.trans hlookup, .refl g⟩
      · exact .inl ⟨f, f.rename r, r, h₁, h₂, f.renames_rename r⟩
    · rw [h₁, h₂]
      refine .lift_map_bind _ _ fun args _ => (arguments_coincide hstep args h).bind ?_
      intro a₁ a₂ hargs
      cases hargs with
      | error v => exact .pure ⟨rfl, h⟩
      | values vs h' =>
        refine (callFunction_coincides hstep name hg vs h').bind ?_
        rintro v - rfl
        exact settle_coincide v h h'
    · rw [h₁, h₂]
      exact .lift_bind _ fun v _ => .pure ⟨rfl, h⟩
  | unknown => exact .bind_left _ fun _ => .lift_bind _ fun v _ => .pure ⟨rfl, h⟩

end

theorem eval_respects (invoke : Invoke ι σ) (debug : Bool) (depth : Nat) :
    Respects x f r (eval invoke debug depth) := by
  induction depth with
  | zero => exact fun ρ n e₁ e₂ _ => .fail Fault.tooDeep
  | succ depth ih => exact node_respects ih

theorem logReturn_respects {step : Step ι (σ × List (Event ι))} (hstep : Respects x f r step) :
    Respects x f r (logReturn step) := by
  intro ρ n e₁ e₂ h
  refine (hstep ρ n e₁ e₂ h).bind ?_
  rintro ⟨v, f₁⟩ ⟨-, f₂⟩ ⟨rfl, h'⟩
  exact .bind_left _ fun _ => .pure ⟨rfl, h'⟩

theorem observe_respects (invoke : Invoke ι σ) (debug : Bool) (depth : Nat) :
    Respects x f r (observe invoke debug depth) := by
  induction depth with
  | zero => exact fun ρ n e₁ e₂ _ => .fail Fault.tooDeep
  | succ depth ih => exact node_respects (logReturn_respects ih)

theorem evaluate_respects (host : Host ι σ) (debug : Bool) :
    Respects x f r (evaluate host debug) := by
  intro ρ n e₁ e₂ h
  have heval := eval_respects (Callback.call host) debug maxDepth ρ n e₁ e₂ h
  exact evaluate_mirrors heval ⟨by simp only [depthError, Ast.kind_rename], h⟩

/-! ## The main statement -/

/-- Two evaluations yield the same value, the same variables and history, and the same functions,
but that `f` may be renamed in the second. -/
structure SameButFor (x : Name) (f : Function ι) (r : Renaming) (r₁ r₂ : Value × Env ι) : Prop where
  value : r₂.1 = r₁.1
  vars : r₂.2.vars = r₁.2.vars
  functions : r₂.2.functions = r₁.2.functions ∨
    r₁.2.functions.get? x = some f ∧ r₂.2.functions = r₁.2.functions.insert x (f.rename r)
  history : r₂.2.history = r₁.2.history

theorem Respects.sameButFor (hstep : Respects x f r step) (n : Ast) {env : Env ι}
    (h : env.functions.get? x = some f) :
    Mirrors (SameButFor x f r) (step n env) (step n (env.replaceFunction x (f.rename r))) := by
  have hpair : Renamed x f r .id env (env.replaceFunction x (f.rename r)) := by
    have hswapped : Renamed x f r .id env ((env.rename .id).replaceFunction x (f.rename r)) :=
      .swapped h
    rwa [Env.rename_id] at hswapped
  have hmirror := hstep .id n env _ hpair
  rw [Ast.rename_id] at hmirror
  refine hmirror.mono ?_
  rintro ⟨v, f₁⟩ ⟨w, f₂⟩ ⟨hvalue, henv⟩
  rcases henv.eq_or_eq with he | ⟨hf, he⟩ <;> dsimp only at he <;> subst he
  · exact ⟨hvalue.symm, rfl, .inl rfl, rfl⟩
  · exact ⟨hvalue.symm, rfl, .inr ⟨hf, rfl⟩, rfl⟩

/-- **Local names can be renamed.** Exchange a function of an environment for its renaming: other
names for its parameters and for the variables of its body, different ones for different ones. Then
every node goes alike: the same output, the same calls of callbacks in the same order, the same
nested results, the same value or fault, and afterwards the same variables and the same functions,
but for the one that was exchanged if it is still there. -/
theorem eval_renaming (invoke : Invoke ι σ) (host : Host ι σ) (debug : Bool) (depth : Nat)
    (env : Env ι) (x : Name) (f : Function ι) (r : Renaming) (n : Ast)
    (h : env.functions.get? x = some f) :
    Mirrors (SameButFor x f r) (eval invoke debug depth n env)
      (eval invoke debug depth n (env.replaceFunction x (f.rename r))) ∧
    Mirrors (SameButFor x f r) (observe invoke debug depth n env)
      (observe invoke debug depth n (env.replaceFunction x (f.rename r))) ∧
    Mirrors (SameButFor x f r) (evaluate host debug n env)
      (evaluate host debug n (env.replaceFunction x (f.rename r))) :=
  ⟨(eval_respects invoke debug depth).sameButFor n h,
    (observe_respects invoke debug depth).sameButFor n h,
    (evaluate_respects host debug).sameButFor n h⟩

/-- A function that reads its parameter, assigns a variable, reads another one that it does not
have, defines a function with a variable of the same name, and redefines itself. -/
theorem eval_renaming_of_call :
    let host : Host Empty Unit := nofun
    let r : Renaming := ⟨fun s => "_" ++ s, (String.append_right_inj "_").1⟩
    let f : Function Empty := .defined ["a"] [.assignment "b" (.add (.var "a") (.int 1)),
      .definition "g" ["a"] [.var "b"], .call "print" [.var "b"], .call "print" [.var "c"],
      .definition "f" [] [.call "g" [.null]], .call "f" []]
    let renamed : Function Empty := .defined ["_a"] [.assignment "_b" (.add (.var "_a") (.int 1)),
      .definition "g" ["a"] [.var "b"], .call "print" [.var "_b"], .call "print" [.var "_c"],
      .definition "f" [] [.call "g" [.null]], .call "f" []]
    let env : Env Empty := (Env.standard .empty).bindFunction "f" f
    env.functions.get? "f" = some f ∧ f.rename r = renamed ∧
    Mirrors (SameButFor "f" f r) (observe (Callback.call host) false 9 (.call "f" [.int 1]) env)
      (observe (Callback.call host) false 9 (.call "f" [.int 1])
        (env.replaceFunction "f" renamed)) := by
  intro host r f renamed env
  have hf : env.functions.get? "f" = some f := rfl
  have hrenamed : f.rename r = renamed := rfl
  have hmain := eval_renaming (Callback.call host) host false 9 env "f" f r (.call "f" [.int 1]) hf
  exact ⟨hf, hrenamed, hrenamed ▸ hmain.2.1⟩

end Tama.Eval
