import Tama.Proofs.Eval.Observed
import Tama.Proofs.Run

/-!
# Errors end evaluation

An error that any nested evaluation returns is what the whole evaluation returns, and nothing
happens any more after it (`eval_error_propagates`). Each function of the evaluator passes on the
first error of its parts; here that is one lemma per function, over whatever evaluates the nodes
inside, and an induction on the depth.
-/

set_option autoImplicit false

namespace Tama.Eval

variable {ι σ : Type} {debug : Bool}

/-! ## Errors of results -/

/-- The result of a node, as the error that it may be. -/
def resultError (r : Value × Env ι) : Option Value :=
  some r.1

/-- The error among the values of arguments. -/
def Arguments.error? : Arguments ι → Option Value
  | .values _ _ => none
  | .error v => some v

section

variable {α : Type} {errorOf : α → Option Value}

/-- What becomes of a value that is an error goes one way, and of any other the other way. -/
theorem Watches.if_failed {v : Value} {x y : Run σ Fault α}
    {x' y' : Run (σ × List (Event ι)) Fault α} (hx : Watches debug errorOf x x')
    (hy : Watches debug errorOf y y') :
    Watches debug errorOf (do if ← v.failed then x else y) (do if ← v.failed then x' else y') := by
  refine .lift_bind _ fun b => ?_
  cases b with
  | true => exact hx
  | false => exact hy

theorem Hands.if_failed {e v : Value} (he : v.isError = true) {x y : Run σ Fault α}
    {x' y' : Run (σ × List (Event ι)) Fault α} (hx : Hands debug errorOf e x x') :
    Hands debug errorOf e (do if ← v.failed then x else y)
      (do if ← v.failed then x' else y') := by
  rw [Run.lift_bind (Value.failed_of_isError he), Run.lift_bind (Value.failed_of_isError he)]
  exact hx

end

/-! ## Tracing -/

theorem trace_watches (text : Except Fault String) :
    Watches debug noError (trace debug text : Run σ Fault Unit)
      (trace debug text : Run (σ × List (Event ι)) Fault Unit) := by
  unfold trace
  split
  · exact .lift_bind _ fun _ => .line _
  · exact .pure _

/-- The trace of an error changes nothing about it, unless it fails. -/
theorem trace_hands {α : Type} {errorOf : α → Option Value} {e : Value} {a : α}
    (text : Except Fault String) (h : errorOf a = some e) :
    Hands debug errorOf e (do trace debug text; pure a : Run σ Fault α)
      (do trace debug text; pure a : Run (σ × List (Event ι)) Fault α) := by
  intro s log
  cases debug with
  | false => exact ⟨rfl, h⟩
  | true =>
    cases text with
    | error f => exact ⟨rfl, rfl⟩
    | ok words => exact ⟨rfl, h⟩

/-! ## Sequences -/

section

variable {step : Step ι σ} {step' : Step ι (σ × List (Event ι))}
  (hstep : ∀ node env, Watches debug resultError (step node env) (step' node env))

include hstep

theorem sequence_watches (body : List Ast) : ∀ (v : Value) (env : Env ι),
    Watches debug resultError (sequence step debug v env body)
      (sequence step' debug v env body) := by
  induction body with
  | nil => exact fun v env => .pure _
  | cons first rest ih =>
    intro v env
    refine (hstep first env).bind (fun r => ?_) fun r e hr he => ?_
    · exact .if_failed ((trace_watches _).bind_noError fun _ => .pure _) (ih r.1 r.2)
    · cases hr
      exact .if_failed he (trace_hands _ rfl)

theorem statements_watches (body : List Ast) (env : Env ι) :
    Watches debug resultError (statements step debug body env)
      (statements step' debug body env) :=
  sequence_watches hstep body .null env

theorem arguments_watches (args : List Ast) : ∀ env : Env ι,
    Watches debug Arguments.error? (arguments step env args) (arguments step' env args) := by
  induction args with
  | nil => exact fun env => .pure _
  | cons first rest ih =>
    intro env
    refine (hstep first env).bind (fun r => ?_) fun r e hr he => ?_
    · refine .if_failed (.pure _) ((ih r.2).bind (fun a => ?_) fun a e ha he => ?_)
      · cases a <;> exact .pure _
      · cases a with
        | values vs last => cases ha
        | error v => exact .pure ha
    · exact .if_failed (by cases hr; exact he) (.pure hr)

end

/-! ## Calls -/

theorem mapM_lift_watches {α β : Type} (f : α → Except Fault β) (xs : List α) :
    Watches debug noError (xs.mapM fun a => (liftM (f a) : Run σ Fault β))
      (xs.mapM fun a => (liftM (f a) : Run (σ × List (Event ι)) Fault β)) := by
  induction xs with
  | nil => exact .pure _
  | cons a rest ih =>
    rw [List.mapM_cons, List.mapM_cons]
    exact .lift_bind _ fun b => ih.bind_noError fun bs => .pure _

theorem logCalls_watches (invoke : Invoke ι σ) (callback : Callback ι) (args : List Datum) :
    Watches debug noError (invoke callback args) (logCalls invoke callback args) :=
  fun _ _ => ⟨[.called callback args], rfl, .inl (.called callback args)⟩

theorem callEmbedded_watches (invoke : Invoke ι σ) (name : Name) (f : Function ι)
    (args : List Value) :
    Watches debug some (callEmbedded invoke debug name f args)
      (callEmbedded (logCalls invoke) debug name f args) := by
  unfold callEmbedded
  split
  · exact .lift _
  · refine (mapM_lift_watches Value.toHost args).bind_noError fun native => ?_
    refine (trace_watches _).bind_noError fun _ => ?_
    refine .lift_bind _ fun callback => ?_
    exact (logCalls_watches invoke callback native).bind_noError fun result => .lift _

section

variable {step : Step ι σ} {step' : Step ι (σ × List (Event ι))}
  (hstep : ∀ node env, Watches debug resultError (step node env) (step' node env))

theorem traceCount_watches (name : Name) (f : Function ι) (given : Nat) :
    Watches debug noError (traceCount debug name f given : Run σ Fault Unit)
      (traceCount debug name f given : Run (σ × List (Event ι)) Fault Unit) := by
  unfold traceCount
  split
  · refine .lift_bind _ fun declared => ?_
    split
    · exact .pure _
    · exact trace_watches _
  · exact .pure _

include hstep

theorem callDefined_watches (name : Name) (f : Function ι) (args : List Value) (env : Env ι) :
    Watches debug some (callDefined step debug name f args env)
      (callDefined step' debug name f args env) := by
  refine (traceCount_watches name f args.length).bind_noError fun _ => ?_
  refine (trace_watches _).bind_noError fun _ => ?_
  refine .lift_bind _ fun params => .lift_bind _ fun names => .lift_bind _ fun body => ?_
  exact (statements_watches hstep body _).bind (fun r => .pure _) fun r e hr _ => .pure hr

theorem callFunction_watches (invoke : Invoke ι σ) (name : Name) (f : Function ι)
    (args : List Value) (env : Env ι) :
    Watches debug some (callFunction invoke step debug name f args env)
      (callFunction (logCalls invoke) step' debug name f args env) := by
  unfold callFunction
  split
  · exact callEmbedded_watches invoke name f args
  · exact callDefined_watches hstep name f args env
  · exact .lift _

end

/-! ## Nodes -/

theorem settle_watches (v : Value) (before after : Env ι) :
    Watches debug resultError (settle v before after : Run σ Fault (Value × Env ι))
      (settle v before after : Run (σ × List (Event ι)) Fault (Value × Env ι)) :=
  .if_failed (.pure _) (.pure _)

theorem settle_hands {e : Value} (he : e.isError = true) (before after : Env ι) :
    Hands debug resultError e (settle e before after : Run σ Fault (Value × Env ι))
      (settle e before after : Run (σ × List (Event ι)) Fault (Value × Env ι)) :=
  .if_failed he (.pure rfl)

theorem node_watches (invoke : Invoke ι σ) {step : Step ι σ} {step' : Step ι (σ × List (Event ι))}
    (hstep : ∀ node env, Watches debug resultError (step node env) (step' node env)) (n : Ast)
    (env : Env ι) :
    Watches debug resultError (node invoke debug step n env)
      (node (logCalls invoke) debug step' n env) := by
  refine (trace_watches _).bind_noError fun _ => ?_
  cases n.form with
  | source body => exact .lift_bind _ fun body => statements_watches hstep body env
  | literal v => exact .lift_bind _ fun v => .pure _
  | var name => exact .lift_bind _ fun name => .pure _
  | assignment name expression =>
    refine .lift_bind _ fun expression => ?_
    refine (hstep expression env).bind (fun r => ?_) fun r e hr he => ?_
    · exact .if_failed (.pure _) (.lift_bind _ fun name => .pure _)
    · exact .if_failed (by cases hr; exact he) (.pure hr)
  | add left right =>
    refine .lift_bind _ fun left => ?_
    refine (hstep left env).bind (fun l => ?_) fun l e hl he => ?_
    · refine .if_failed (.pure _) (.lift_bind _ fun right => ?_)
      refine (hstep right l.2).bind (fun r => ?_) fun r e hr he => ?_
      · exact .if_failed (.pure _) (.lift_bind _ fun v => settle_watches v env r.2)
      · exact .if_failed (by cases hr; exact he) (.pure hr)
    · exact .if_failed (by cases hl; exact he) (.pure hl)
  | conditional condition body =>
    refine .lift_bind _ fun condition => ?_
    refine (hstep condition env).bind (fun c => ?_) fun c e hc he => ?_
    · refine .if_failed (.pure _) (.lift_bind _ fun holds => ?_)
      split
      · refine .lift_bind _ fun body => ?_
        refine (statements_watches hstep body c.2).bind (fun r => ?_) fun r e hr he => ?_
        · exact settle_watches r.1 env r.2
        · cases hr
          exact settle_hands he env r.2
      · exact .pure _
    · exact .if_failed (by cases hc; exact he) (.pure hc)
  | definition parts =>
    refine .lift_bind _ fun d => ?_
    exact (trace_watches _).bind_noError fun _ => .lift_bind _ fun name => .pure _
  | call name args =>
    refine .lift_bind _ fun name => ?_
    cases env.lookupFunction name with
    | none => exact .lift_bind _ fun v => .pure _
    | some f =>
      refine .lift_bind _ fun args => ?_
      refine (arguments_watches hstep args env).bind (fun a => ?_) fun a e ha he => ?_
      · cases a with
        | error v => exact .pure _
        | values vs env' =>
          refine (callFunction_watches hstep invoke name f vs env').bind (fun v => ?_)
            fun v e hv he => ?_
          · exact settle_watches v env env'
          · cases hv
            exact settle_hands he env env'
      · cases a with
        | error v => exact .pure ha
        | values vs env' => cases ha
  | unknown => exact (trace_watches _).bind_noError fun _ => .lift_bind _ fun v => .pure _

/-- What a node returns comes into the log behind all that happened in it, and stops the log where
it is an error. -/
theorem logReturn_watches {step : Step ι σ} {step' : Step ι (σ × List (Event ι))} {n : Ast}
    {env : Env ι} (h : Watches debug resultError (step n env) (step' n env)) :
    Watches debug resultError (step n env) (logReturn step' n env) := by
  intro s log
  obtain ⟨events, hy, hlog⟩ := h s log
  rcases hxs : step n env s with ⟨⟨lines, o⟩, t⟩
  rw [hxs] at hy hlog
  cases o with
  | error fault => exact ⟨events, Run.bind_apply_error hy _, hlog⟩
  | ok r =>
    refine ⟨events ++ [.returned r.1], ?_, ?_⟩
    · refine (Run.bind_apply_ok hy _).trans ?_
      simp [record, Run.bind_apply]
    · rcases hlog with hclean | ⟨e, hstop, hend⟩
      · cases hr : r.1.isError with
        | false => exact .inl (hclean.returned_ok hr)
        | true => exact .inr ⟨r.1, hclean.returned_error hr, rfl⟩
      · refine .inr ⟨e, ?_, hend⟩
        cases hend
        exact hstop.returned

theorem observe_watches (invoke : Invoke ι σ) (debug : Bool) (depth : Nat) :
    ∀ (n : Ast) (env : Env ι), Watches debug resultError (eval invoke debug depth n env)
      (observe invoke debug depth n env) := by
  induction depth with
  | zero => exact fun n env => .fail _
  | succ depth ih =>
    exact fun n env => node_watches invoke (fun n env => logReturn_watches (ih n env)) n env

/-! ## The main statement -/

/-- **An error value is never absorbed.** Observing an evaluation changes nothing about it. If an
evaluation nested in it returns an error, then it returns nothing but that error, and from there on
no callback is called and no evaluation returns anything else. Only the trace of the error, with
`debug` on, can keep it from returning. -/
theorem eval_error_propagates (invoke : Invoke ι σ) (debug : Bool) (depth : Nat) (n : Ast)
    (env : Env ι) (s : σ) :
    ∃ events,
      observe invoke debug depth n env (s, []) =
        ((eval invoke debug depth n env s).1, ((eval invoke debug depth n env s).2, events)) ∧
      ∀ earlier e later, events = earlier ++ .returned e :: later → e.isError = true →
        (∀ v env', (eval invoke debug depth n env s).1.outcome = .ok (v, env') → v = e) ∧
        (debug = false → ∃ env', (eval invoke debug depth n env s).1.outcome = .ok (e, env')) ∧
        (∀ event ∈ later, event = .returned e) ∧
        ∀ callback args, .called callback args ∉ later := by
  obtain ⟨events, hy, hlog⟩ := observe_watches invoke debug depth n env s []
  refine ⟨events, by simpa using hy, fun earlier e later hs he => ?_⟩
  rcases hlog with hclean | ⟨e', hstop, hend⟩
  · have := hclean e (by simp [hs])
    rw [he] at this
    cases this
  · obtain ⟨rfl, hlater⟩ := hstop.split hs he
    refine ⟨fun v env' ho => ?_, fun hd => ?_, hlater, fun callback args hm => ?_⟩
    · rw [ho] at hend
      exact Option.some.inj hend
    · cases ho : (eval invoke debug depth n env s).1.outcome with
      | error f =>
        rw [ho] at hend
        exact absurd (hend.symm.trans hd) (by decide)
      | ok r =>
        rw [ho] at hend
        cases Option.some.inj hend
        exact ⟨r.2, rfl⟩
    · cases hlater _ hm

/-- `print(true) + f()`, where the first statement of `f` fails on an argument: the error comes out
of the argument, of the call around it, of `f` and of the sum, and nothing is printed any more. -/
theorem eval_error_propagates_from_body :
    let f : Function Empty :=
      .defined [] [.call "print" [.call "missing" []], .call "print" [.null]]
    let run := eval (Callback.call nofun) false 5
      (.add (.call "print" [.bool true]) (.call "f" [])) ((Env.standard .empty).bindFunction "f" f)
    (run ()).1.lines = ["true"] ∧
    ∃ env', (run ()).1.outcome = .ok (callError "Undefined function: missing", env') := by
  intro f run
  refine ⟨rfl, ?_⟩
  obtain ⟨events, hobserve, h⟩ := eval_error_propagates (Callback.call nofun) false 5
    (.add (.call "print" [.bool true]) (.call "f" []))
    ((Env.standard .empty).bindFunction "f" f) ()
  have hlog : events =
      [.returned (.bool true), .called (.builtin .print) [.bool true], .returned .null] ++
      .returned (callError "Undefined function: missing") ::
      [.returned (callError "Undefined function: missing"),
        .returned (callError "Undefined function: missing")] :=
    (congrArg (fun r => r.2.2) hobserve).symm
  exact (h _ _ _ hlog rfl).2.1 rfl

end Tama.Eval
