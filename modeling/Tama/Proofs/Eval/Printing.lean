import Tama.Proofs.Eval.Congruence
import Tama.Proofs.Eval.Observed

/-!
# What a run prints

A run without a trace prints nothing but what `print` was called on: its lines are what the calls in
its log print, in order (`Prints`). It does where only standard functions are called, since any
other callback may print what it likes; so it does for a host that provides no others
(`observe_prints`).
-/

set_option autoImplicit false

namespace Tama

/-- What a call of a standard function prints: a text for `print`, where it can be written. -/
def Builtin.printed (b : Builtin) (args : List Datum) : List String :=
  match b, args with
  | .print, [x] => (Builtin.format x).toOption.toList
  | _, _ => []

theorem Builtin.lines_call (b : Builtin) (args : List Datum) :
    (b.call args).lines = b.printed args := by
  have hlift : ∀ {α : Type} (x : Except Fault α) (f : α → Datum),
      ((liftM x : Traced Fault α) >>= fun a => pure (f a)).lines = [] := by
    intro α x f
    cases x <;> rfl
  unfold call
  split
  · rename_i x
    show ((liftM (format x) : Traced Fault String) >>= fun text => Traced.line text >>= _).lines =
      (format x).toOption.toList
    cases format x <;> rfl
  · exact hlift _ fun r : Int × Int => .int (r.1 - r.2)
  · exact hlift _ fun r : Int × Int => .bool (r.1 < r.2)
  · exact hlift _ fun r : Int × Int => .bool (r.2 < r.1)
  · rfl
  · rfl
  · rfl
  · rfl
  · rfl
  · rename_i hprint _ _ _ _ _ _ _ _
    unfold printed
    split
    · exact absurd rfl (hprint _ rfl)
    · rfl

namespace Eval

open Run

variable {ι σ ε α β : Type}

/-- What an event in the log of a run prints, if that is known. -/
def Event.printed : Event ι → List String
  | .called (.builtin b) args => b.printed args
  | .called (.custom _) _ => []
  | .returned _ => []

/-- From anywhere a run only adds to the log, and prints what the events that it adds print. -/
def Prints (x : Run (σ × List (Event ι)) ε α) : Prop :=
  ∀ s log, ∃ events, (x (s, log)).2.2 = log ++ events ∧
    (x (s, log)).1.lines = events.flatMap Event.printed

namespace Prints

theorem of_silent {x : Run (σ × List (Event ι)) ε α}
    (h : ∀ s log, (x (s, log)).2.2 = log ∧ (x (s, log)).1.lines = []) : Prints x :=
  fun s log => ⟨[], by rw [(h s log).1, List.append_nil], (h s log).2⟩

theorem pure (a : α) : Prints (pure a : Run (σ × List (Event ι)) ε α) :=
  .of_silent fun _ _ => ⟨rfl, rfl⟩

theorem fail (e : ε) : Prints (fail e : Run (σ × List (Event ι)) ε α) :=
  .of_silent fun _ _ => ⟨rfl, rfl⟩

theorem lift (x : Except ε α) : Prints (liftM x : Run (σ × List (Event ι)) ε α) :=
  .of_silent fun _ _ => ⟨rfl, rfl⟩

theorem liftTraced {x : Traced ε α} (h : x.lines = []) :
    Prints (liftM x : Run (σ × List (Event ι)) ε α) :=
  .of_silent fun _ _ => ⟨rfl, h⟩

theorem mapError {ε' : Type} {x : Run (σ × List (Event ι)) ε α} (h : Prints x)
    (f : ε → ε') : Prints (x.mapError f) :=
  h

/-- Going on with what the first part is known to yield. -/
theorem bind_of {x : Run (σ × List (Event ι)) ε α} {f : α → Run (σ × List (Event ι)) ε β}
    {P : α → Prop} {E : ε → Prop} (hx : Prints x) (hP : Ensures P E x)
    (hf : ∀ a, P a → Prints (f a)) : Prints (x >>= f) := by
  intro s log
  obtain ⟨events, hlog, hlines⟩ := hx s log
  have hpost := hP (s, log)
  rcases hxs : x (s, log) with ⟨⟨lines, o⟩, t, log'⟩
  rw [hxs] at hlog hlines hpost
  dsimp only at hlog hlines
  cases hpost with
  | error =>
    rw [bind_apply_error hxs]
    exact ⟨events, hlog, hlines⟩
  | @ok a ha =>
    obtain ⟨more, hmore, hsaid⟩ := hf a ha t log'
    rw [bind_apply_ok hxs]
    refine ⟨events ++ more, ?_, ?_⟩
    · rw [hmore, hlog, List.append_assoc]
    · rw [hlines, hsaid, List.flatMap_append]

theorem bind {x : Run (σ × List (Event ι)) ε α} {f : α → Run (σ × List (Event ι)) ε β}
    (hx : Prints x) (hf : ∀ a, Prints (f a)) : Prints (x >>= f) :=
  hx.bind_of (.any x) fun a _ => hf a

end Prints

/-! ## Evaluation -/

/-- Evaluation keeps to what its callbacks print; the second run does not matter. -/
def printing (σ : Type) : Congruence (σ × List (Event Empty)) (σ × List (Event Empty)) false where
  Rel x _ := Prints x
  lift x := .lift x
  trace _ := .pure ()
  bind hx hf := hx.bind hf

theorem logCalls_builtin_prints (host : Host ι σ) (b : Builtin) (args : List Datum) :
    Prints (logCalls (Callback.call host) (.builtin b) args) := by
  intro s log
  refine ⟨[.called (.builtin b) args], rfl, ?_⟩
  rw [List.flatMap_singleton]
  exact b.lines_call args

theorem logCalls_prints (host : Host Empty σ) (callback : Callback Empty) (args : List Datum) :
    Prints (logCalls (Callback.call host) callback args) := by
  cases callback with
  | builtin b => exact logCalls_builtin_prints host b args
  | custom i => exact nomatch i

theorem logReturn_prints {step : Step ι (σ × List (Event ι))} {n : Ast} {env : Env ι}
    (h : Prints (step n env)) : Prints (logReturn step n env) :=
  h.bind fun r _ _ => ⟨[.returned r.1], rfl, rfl⟩

/-- An evaluation without a trace prints what its calls of `print` print. -/
theorem observe_prints (host : Host Empty σ) (depth : Nat) : ∀ (n : Ast) (env : Env Empty),
    Prints (observe (Callback.call host) false depth n env) := by
  induction depth with
  | zero => exact fun n env => .fail _
  | succ depth ih =>
    let invoke := logCalls (Callback.call host)
    let step := logReturn (observe (Callback.call host) false depth)
    have hinvoke : ∀ callback args,
        (printing σ).Rel (invoke callback args) (invoke callback args) := logCalls_prints host
    have hstep : ∀ n env, (printing σ).Rel (step n env) (step n env) :=
      fun n env => logReturn_prints (ih n env)
    exact Congruence.node hinvoke hstep

end Eval
end Tama
