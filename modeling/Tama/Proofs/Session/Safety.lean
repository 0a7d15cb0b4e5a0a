import Tama.Proofs.Grammar.Acceptance
import Tama.Proofs.Session.Evaluation

/-!
# Sessions are type safe

Whatever texts a session has run, its environment is safe, and so the next text can only end in the
ways that `Value.Result` and `Fault.Raised` list (`session_safe`).
-/

set_option autoImplicit false

namespace Tama.Session

open Run

variable {ι σ : Type} {stack : Stack} {host : Host ι σ} {source filename : String} {env : Env ι}
  {s : σ}

/-! ## The stages of a run -/

theorem outcome_mapError {ε ε' α : Type} (f : ε → ε') (x : Run σ ε α) :
    (x.mapError f s).1.outcome = (x s).1.outcome.mapError f :=
  rfl

/-- Reads and analyzes a text and goes on with the program, as `runSource` does. -/
def staged {α : Type} (stack : Stack) (debug : Bool) (source filename : String)
    (last : Ast → Run σ Failure α) : Run σ Failure α := do
  let root ← prepare stack debug source filename
  last root

theorem runSource_eq_staged (debug : Bool) : runSource stack host debug source filename env =
    staged stack debug source filename fun root =>
      (Eval.evaluate host debug root env).mapError .fault :=
  rfl

section

variable {α : Type} {debug : Bool} {trees : List Tree} {root : Ast}
  {last : Ast → Run σ Failure α}

theorem shown_outcome {ε : Type} (x : Traced ε α) : (shown debug x).outcome = x.outcome := by
  cases debug <;> rfl

theorem read_outcome {fits : String → Bool} :
    (read fits source filename).outcome = Program.readWithin fits source filename := by
  unfold read
  cases Program.readWithin fits source filename <;> rfl

/-- What preparing a text yields does not depend on whether it is shown. -/
theorem prepare_outcome (debug : Bool) : (prepare stack debug source filename).outcome =
    ((Program.readWithin stack.runs source filename).mapError Failure.ofRead).bind fun trees =>
      (Analysis.program stack.analysis trees).outcome.mapError Failure.ofAnalysis := by
  simp only [prepare, Traced.outcome_bind, Traced.mapError, shown_outcome, read_outcome]

theorem prepare_of_unread {e : ReadFailure}
    (h : Program.readWithin stack.runs source filename = .error e) (debug : Bool) :
    (prepare stack debug source filename).outcome = .error (.ofRead e) := by
  rw [prepare_outcome, h]
  rfl

theorem prepare_of_read (h : Program.readWithin stack.runs source filename = .ok trees)
    (debug : Bool) : (prepare stack debug source filename).outcome =
      (Analysis.program stack.analysis trees).outcome.mapError Failure.ofAnalysis := by
  rw [prepare_outcome, h]
  rfl

/-- A text is prepared if it is read and analyzed. -/
theorem prepare_eq_ok : (prepare stack debug source filename).outcome = .ok root ↔
    ∃ trees, Program.readWithin stack.runs source filename = .ok trees ∧
      (Analysis.program stack.analysis trees).outcome = .ok root := by
  cases hread : Program.readWithin stack.runs source filename with
  | error e =>
    rw [prepare_of_unread hread]
    exact ⟨nofun, by rintro ⟨_, ⟨⟩, -⟩⟩
  | ok trees =>
    rw [prepare_of_read hread]
    cases ha : (Analysis.program stack.analysis trees).outcome with
    | error e => exact ⟨nofun, by rintro ⟨_, ⟨⟩, h⟩; rw [ha] at h; cases h⟩
    | ok root' =>
      constructor
      · rintro ⟨⟩
        exact ⟨trees, rfl, ha⟩
      · rintro ⟨_, ⟨⟩, h⟩
        rw [ha] at h
        cases h
        rfl

/-- A text that is short for the recursion limit is prepared if it is analyzed. -/
theorem prepare_of_program {frames nesting : Nat}
    (hlength : (Tab.expand source.toList).length < frames / Stack.framesPerLevel)
    (h : Parser.program nesting (Tab.expand source.toList) = .done trees [])
    (ha : (Analysis.program frames trees).outcome = .ok root) :
    (prepare (.ofLimit frames) debug source filename).outcome = .ok root :=
  prepare_eq_ok.2 ⟨trees, Grammar.readWithin_eq_ok.2
    ⟨Grammar.isShallow_of_length hlength, Grammar.read_of_program h⟩, ha⟩

/-- Without a trace nothing is printed before the evaluation. -/
theorem prepare_silent : (prepare stack false source filename).lines = [] := by
  unfold prepare
  cases hread : (read stack.runs source filename).outcome with
  | error e => simp [shown, Traced.mapError, hread, Except.mapError]
  | ok trees => simp [shown, Traced.mapError, hread, Except.mapError]

theorem staged_of_error {e : Failure}
    (h : (prepare stack debug source filename).outcome = .error e) :
    staged stack debug source filename last s =
      (⟨(prepare stack debug source filename).lines, .error e⟩, s) := by
  rw [staged, liftTraced_bind_error h]

theorem staged_of_ok (h : (prepare stack debug source filename).outcome = .ok root) :
    staged stack debug source filename last s =
      (⟨(prepare stack debug source filename).lines ++ (last root s).1.lines,
        (last root s).1.outcome⟩, (last root s).2) := by
  rw [staged, liftTraced_bind_ok h]

end

theorem runSource_of_error {e : Failure}
    (h : (prepare stack false source filename).outcome = .error e) :
    runSource stack host false source filename env s = (⟨[], .error e⟩, s) := by
  rw [runSource_eq_staged, staged_of_error h, prepare_silent]

theorem runSource_of_ok {root : Ast}
    (h : (prepare stack false source filename).outcome = .ok root) :
    runSource stack host false source filename env s =
      (Eval.evaluate host false root env).mapError .fault s := by
  rw [runSource_eq_staged, staged_of_ok h, prepare_silent]
  rfl

/-- A text is prepared to a list of statements, or refused: for what reading it finds, for a
semantic error, or for the lack of stack. -/
theorem prepare_post (stack : Stack) (source filename : String) (debug : Bool) :
    Post (fun root => ∃ body, root = .source body ∧ ∀ n ∈ body, n.IsStatement)
      (fun e => ∀ f, e = .fault f →
        Program.read source filename = .error (.fault f) ∨ f = .tooDeep)
      (prepare stack debug source filename).outcome := by
  cases hread : Program.readWithin stack.runs source filename with
  | error e =>
    rw [prepare_of_unread hread]
    refine .error fun f hf => ?_
    cases e with
    | syntaxError e => cases hf
    | fault f' =>
      cases hf
      unfold Program.readWithin at hread
      split at hread
      · exact .inl hread
      · cases hread
        exact .inr rfl
  | ok trees =>
    have hderives := Grammar.read_eq_ok.1 (Grammar.readWithin_eq_ok.1 hread).2
    rw [prepare_of_read hread]
    refine (Analysis.program_proper hderives.isStatement).mapError fun e he f hf => ?_
    rcases he with ⟨e', rfl⟩ | rfl
    · cases hf
    · cases hf
      exact .inr rfl

/-! ## One run -/

/-- The evaluation of a text meets the recursion limit. -/
def MeetsLimit (stack : Stack) (host : Host ι σ) (source filename : String) (env : Env ι) (s : σ) :
    Prop :=
  ∃ root, (prepare stack false source filename).outcome = .ok root ∧
    (Eval.eval (Callback.call host) false Eval.maxDepth root env s).1.outcome = .error .tooDeep

/-- In a safe environment a program evaluates to a result in a safe environment, unless it meets the
recursion limit. -/
theorem evaluate_post {body : List Ast} (hb : ∀ n ∈ body, n.IsStatement) (henv : env.Safe)
    (s : σ) :
    Post (fun r => r.2.Safe ∧ (r.1.Result ∨ r.1 = Eval.depthError (.source body) ∧
        (Eval.eval (Callback.call host) false Eval.maxDepth (.source body) env s).1.outcome =
          .error .tooDeep)) Fault.Raised
      (Eval.evaluate host false (.source body) env s).1.outcome := by
  have hpost := Eval.eval_source_ensures host Eval.maxDepth hb henv s
  unfold Eval.evaluate
  rcases hs : Eval.eval (Callback.call host) false Eval.maxDepth (.source body) env s with
    ⟨⟨lines, o⟩, t⟩
  rw [hs] at hpost
  cases hpost with
  | ok h => exact .ok ⟨h.2, .inl h.1⟩
  | error h =>
    rcases h with h | rfl
    · cases h with
      | wantsInteger position got hb => exact .error (.wantsInteger position got hb)
      | arity hg => exact .error (.arity hg)
      | unprintable => exact .error .unprintable
    · exact .ok ⟨henv, .inr ⟨rfl, rfl⟩⟩

/-- A fault before the evaluation: an integer with too many digits, or the lack of stack. -/
def IsEarly (stack : Stack) (source filename : String) (f : Fault) : Prop :=
  (prepare stack false source filename).outcome = .error (.fault f) ∧
    (Program.read source filename = .error (.fault f) ∨ f = .tooDeep)

/-- How a run in a safe environment ends. -/
theorem runSource_post (stack : Stack) (host : Host ι σ) (source filename : String)
    (henv : env.Safe) (s : σ) :
    Post (fun r => r.2.Safe ∧ (r.1.Result ∨ (∃ body, r.1 = Eval.depthError (.source body)) ∧
        MeetsLimit stack host source filename env s))
      (fun e => ∀ f, e = .fault f → IsEarly stack source filename f ∨ f.Raised)
      (runSource stack host false source filename env s).1.outcome := by
  have hpost := prepare_post stack source filename false
  cases hprepare : (prepare stack false source filename).outcome with
  | error e =>
    rw [hprepare] at hpost
    rw [runSource_of_error hprepare]
    cases hpost with
    | error h =>
      refine .error ?_
      rintro f rfl
      exact .inl ⟨hprepare, h f rfl⟩
  | ok root =>
    rw [hprepare] at hpost
    cases hpost with
    | ok h =>
      obtain ⟨body, rfl, hb⟩ := h
      rw [runSource_of_ok hprepare, outcome_mapError]
      refine Post.mapError (E := Fault.Raised) ?_ fun f h f' hf => .inr ?_
      · refine (evaluate_post hb henv s).mono
          (fun r h => ⟨h.1, h.2.imp_right fun hdeep => ⟨⟨body, hdeep.1⟩, ?_⟩⟩) fun f h => h
        exact ⟨_, hprepare, hdeep.2⟩
      · cases hf
        exact h

/-! ## Sessions -/

theorem next_safe (host : Host ι σ) (input : Input) {at' : Env ι × σ} (h : at'.1.Safe) :
    (next host at' input).1.Safe := by
  have hpost := runSource_post input.stack host input.source input.filename h at'.2
  unfold next
  rcases hs : runSource input.stack host false input.source input.filename at'.1 at'.2 with
    ⟨⟨lines, o⟩, t⟩
  rw [hs] at hpost
  cases hpost with
  | ok hr => exact hr.1
  | error _ => exact h

theorem after_safe (host : Host ι σ) (inputs : List Input) (s : σ) :
    (after host inputs s).1.Safe := by
  have hfold : ∀ (inputs : List Input) (at' : Env ι × σ), at'.1.Safe →
      (inputs.foldl (next host) at').1.Safe := by
    intro inputs
    induction inputs with
    | nil => exact fun at' h => h
    | cons input rest ih => exact fun at' h => ih _ (next_safe host input h)
  exact hfold inputs _ Env.safe_standard

/-- **Session type safety.** Whatever texts were run one after the other, on whatever stacks, the
environment is safe; and the next text, where its evaluation does not meet the recursion limit,
returns nothing but a value that scripts compute with, the type error of an addition or the error of
an undefined function. Its evaluation is stopped by nothing but a standard function that is called
in the wrong way or that cannot print an integer; before it there is only what reading finds, and
the lack of stack. -/
theorem session_safe (host : Host ι σ) (inputs : List Input) (s : σ) (stack : Stack)
    (source filename : String) :
    (after host inputs s).1.Safe ∧
    (∀ v env', (runSource stack host false source filename (after host inputs s).1
        (after host inputs s).2).1.outcome = .ok (v, env') →
      v.Result ∨
        MeetsLimit stack host source filename (after host inputs s).1 (after host inputs s).2) ∧
    ∀ f, (runSource stack host false source filename (after host inputs s).1
        (after host inputs s).2).1.outcome = .error (.fault f) →
      IsEarly stack source filename f ∨ f.Raised := by
  have hsafe := after_safe host inputs s
  have hpost := runSource_post stack host source filename hsafe (after host inputs s).2
  refine ⟨hsafe, fun v env' ho => ?_, fun f ho => ?_⟩
  · rw [ho] at hpost
    cases hpost with
    | ok h => exact h.2.imp_right And.right
  · rw [ho] at hpost
    cases hpost with
    | error h => exact h f rfl

/-- After `x=true;`, `sub(x,null);` is stopped by the check of `sub` for integers. -/
theorem session_safe_after_assignment :
    let host : Host Empty Unit := nofun
    let stack := Stack.ofLimit 1000
    let first : Input := ⟨stack, "x=true;", ""⟩
    ∃ f, (runSource stack host false "sub(x,null);" "" (after host [first] ()).1
        (after host [first] ()).2).1.outcome = .error (.fault f) ∧ f.Raised := by
  intro host stack first
  have hfirst : (prepare stack false "x=true;" "").outcome =
      .ok (.source [.assignment "x" (.bool true)]) :=
    prepare_of_program (by decide) (by cbv : Parser.program 5 _ = .done _ _) rfl
  have hsecond : (prepare stack false "sub(x,null);" "").outcome =
      .ok (.source [.call "sub" [.var "x", .null]]) :=
    prepare_of_program (by decide) (by cbv : Parser.program 5 _ = .done _ _) rfl
  have hrun : runSource stack host false "x=true;" "" (.standard .empty) () =
      (⟨[], .ok (.null, (Env.standard .empty).bindVariable "x" (.bool true))⟩, ()) :=
    (runSource_of_ok hfirst).trans rfl
  have hafter : after host [first] () =
      ((Env.standard .empty).bindVariable "x" (.bool true), ()) := by
    simp only [after, List.foldl_cons, List.foldl_nil, next, first, hrun]
  have ho : (runSource stack host false "sub(x,null);" "" (after host [first] ()).1
      (after host [first] ()).2).1.outcome =
      .error (.fault (.host (.wantsInteger "sub" 1 "true"))) := by
    rw [hafter, runSource_of_ok hsecond]
    rfl
  refine ⟨_, ho, ?_⟩
  rcases (session_safe host [first] () stack "sub(x,null);" "").2.2 _ ho with h | h
  · cases hsecond.symm.trans h.1
  · exact h

end Tama.Session
