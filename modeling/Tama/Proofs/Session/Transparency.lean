import Tama.Proofs.Session.Safety
import Tama.Proofs.Session.Tracing

/-!
# The trace changes nothing but the output

A source text that is run with `debug` on does what it does without, and prints more
(`tracing_is_transparent`). What it does includes which embedded functions are called, on what data
and in which order; so the statement is about observed runs, and `observeSource_eq` says that these
are runs of the text with a log beside them.
-/

set_option autoImplicit false

namespace Tama

open Run

variable {ι σ : Type}

/-! ## Programs -/

namespace Eval

variable (host : Host ι σ) (debug : Bool) (root : Ast)

/-- Evaluates a program as `evaluate` does and logs what happens in it. -/
def observeProgram (host : Host ι σ) (debug : Bool) (root : Ast) (env : Env ι) :
    Run (σ × List (Event ι)) Fault (Value × Env ι) := fun s =>
  match observe (Callback.call host) debug maxDepth root env s with
  | (⟨lines, .error .tooDeep⟩, t) => (⟨lines, .ok (depthError root, env)⟩, t)
  | result => result

theorem observeProgram_eq (env : Env ι) (s : σ) (log : List (Event ι)) :
    ∃ events, observeProgram host debug root env (s, log) =
      ((evaluate host debug root env s).1, (evaluate host debug root env s).2, log ++ events) := by
  obtain ⟨events, hy, -⟩ :=
    observe_watches (Callback.call host) debug maxDepth root env s log
  refine ⟨events, ?_⟩
  unfold observeProgram evaluate
  rw [hy]
  rcases eval (Callback.call host) debug maxDepth root env s with ⟨⟨lines, o⟩, t⟩
  cases o with
  | ok r => rfl
  | error f => cases f <;> rfl

/-- In a safe environment a program evaluates alike with a trace. -/
theorem observeProgram_follows {body : List Ast} (hb : ∀ n ∈ body, n.IsStatement) {env : Env ι}
    (henv : env.Safe) (s : σ) (log : List (Event ι)) :
    Follows (.digits .writing) log (observeProgram host false (.source body) env (s, log))
      (observeProgram host true (.source body) env (s, log)) := by
  have hfollows := (observe_source_traces host maxDepth hb henv).follows s log
  unfold observeProgram
  generalize observe (Callback.call host) false maxDepth (.source body) env (s, log) = r
    at hfollows
  generalize observe (Callback.call host) true maxDepth (.source body) env (s, log) = r'
    at hfollows
  -- the recursion limit becomes a value in both runs, and the limit of digits stays what it is
  cases hfollows with
  | @same _ _ o _ _ hsub =>
    rcases o with f | a
    · cases f <;> exact .same hsub
    · exact .same hsub
  | @stopped _ _ _ _ o _ _ _ _ hsub hargs =>
    rcases o with f | a
    · cases f <;> exact .stopped hsub hargs
    · exact .stopped hsub hargs

end Eval

/-! ## Texts -/

namespace Session

open Eval

variable (stack : Stack) (host : Host ι σ) (debug : Bool) (source filename : String)

/-- Runs a source text as `runSource` does and logs what happens in it. -/
def observeSource (stack : Stack) (host : Host ι σ) (debug : Bool) (source filename : String)
    (env : Env ι) : Run (σ × List (Event ι)) Failure (Value × Env ι) :=
  staged stack debug source filename fun root =>
    (observeProgram host debug root env).mapError .fault

/-- Observing a run changes nothing about it. -/
theorem observeSource_eq (env : Env ι) (s : σ) (log : List (Event ι)) :
    ∃ events, observeSource stack host debug source filename env (s, log) =
      ((runSource stack host debug source filename env s).1,
        (runSource stack host debug source filename env s).2, log ++ events) := by
  rw [runSource_eq_staged, observeSource]
  cases hprepare : (prepare stack debug source filename).outcome with
  | error e =>
    rw [staged_of_error hprepare, staged_of_error hprepare]
    exact ⟨[], by rw [List.append_nil]⟩
  | ok root =>
    obtain ⟨events, hprogram⟩ := observeProgram_eq host debug root env s log
    rw [staged_of_ok hprepare, staged_of_ok hprepare, mapError_apply hprogram]
    exact ⟨events, rfl⟩

/-- In a safe environment a text runs alike with a trace. -/
theorem observeSource_follows {env : Env ι} (henv : env.Safe) (s : σ) (log : List (Event ι)) :
    Follows (.fault (.digits .writing)) log
      (observeSource stack host false source filename env (s, log))
      (observeSource stack host true source filename env (s, log)) := by
  have hpost := prepare_post stack source filename false
  have hsame : (prepare stack true source filename).outcome =
      (prepare stack false source filename).outcome := by rw [prepare_outcome, prepare_outcome]
  unfold observeSource
  cases hprepare : (prepare stack false source filename).outcome with
  | error e =>
    rw [hprepare] at hsame
    rw [staged_of_error hprepare, staged_of_error hsame, prepare_silent]
    exact .same (List.nil_sublist _)
  | ok root =>
    rw [hprepare] at hsame hpost
    cases hpost with
    | ok h =>
      obtain ⟨body, rfl, hb⟩ := h
      rw [staged_of_ok hprepare, staged_of_ok hsame, prepare_silent]
      exact ((observeProgram_follows host hb henv s log).mapError Failure.fault).behind _

/-! ## The main statement -/

/-- **Tracing is transparent.** In a safe environment a text that is run with a trace fails as it
does without, or returns the same result and the same environment, and leaves the host in the same
state; it calls the same embedded functions on the same data in the same order, evaluates the same
nodes to the same values, and prints what it prints without the trace, with other lines between.
Only where an embedded function is called on an integer that is too long to be written, the run with
the trace may stop instead, at that call: up to it there are the same calls and the same values, and
what these calls print is what the run without the trace prints first, and stands in the trace. -/
theorem tracing_is_transparent (stack : Stack) (host : Host ι σ) (source filename : String)
    {env : Env ι} (henv : env.Safe) (s : σ) :
    let plain := runSource stack host false source filename env s
    let traced := runSource stack host true source filename env s
    ∃ calls calls' : List (Event ι),
      observeSource stack host false source filename env (s, []) = (plain.1, plain.2, calls) ∧
      observeSource stack host true source filename env (s, []) = (traced.1, traced.2, calls') ∧
      ((traced.1.outcome = plain.1.outcome ∧ traced.2 = plain.2 ∧ calls' = calls ∧
          plain.1.lines.Sublist traced.1.lines) ∨
        traced.1.outcome = .error (.fault (.digits .writing)) ∧
          ∃ callback args later more, Unwritable args ∧
            calls = calls' ++ .called callback args :: later ∧
            plain.1.lines = calls'.flatMap Event.printed ++ more ∧
            (calls'.flatMap Event.printed).Sublist traced.1.lines) := by
  intro plain traced
  obtain ⟨calls, hplain⟩ := observeSource_eq stack host false source filename env s []
  obtain ⟨calls', htraced⟩ := observeSource_eq stack host true source filename env s []
  have hfollows := observeSource_follows stack host source filename henv s []
  rw [hplain, htraced] at hfollows
  exact ⟨calls, calls', hplain, htraced, hfollows.alike_or_stopped⟩

/-- `print(true);` returns alike with a trace, and the line that it prints stands in the trace. -/
theorem tracing_is_transparent_of_call :
    let host : Host Empty Unit := nofun
    let stack := Stack.ofLimit 1000
    (runSource stack host true "print(true);" "" (.standard .empty) ()).1.outcome =
        (runSource stack host false "print(true);" "" (.standard .empty) ()).1.outcome ∧
      List.Sublist ["true"]
        (runSource stack host true "print(true);" "" (.standard .empty) ()).1.lines := by
  intro host stack
  have hprepare : ∀ debug, (prepare stack debug "print(true);" "").outcome =
      .ok (.source [.call "print" [.bool true]]) := fun _ =>
    prepare_of_program (by decide) (by cbv : Parser.program 5 _ = .done _ _) rfl
  have hplain : runSource stack host false "print(true);" "" (.standard .empty) () =
      (⟨["true"], .ok (.null, .standard .empty)⟩, ()) := (runSource_of_ok (hprepare _)).trans rfl
  have htraced : (runSource stack host true "print(true);" "" (.standard .empty) ()).1.outcome =
      .ok (.null, .standard .empty) := by
    rw [runSource_eq_staged, staged_of_ok (hprepare _)]
    rfl
  obtain ⟨_, _, _, _, hcases⟩ :=
    tracing_is_transparent stack host "print(true);" "" Env.safe_standard ()
  rcases hcases with ⟨hout, -, -, hlines⟩ | ⟨hout, -⟩
  · rw [hplain] at hlines
    exact ⟨hout, hlines⟩
  · rw [htraced] at hout
    cases hout

end Session
end Tama
