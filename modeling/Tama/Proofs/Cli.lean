import Tama.Cli.Run
import Tama.Proofs.Eval.Printing
import Tama.Proofs.Session.Reporting

/-!
# Failing scripts

A script ends with exit code 0, or with exit code 1 and a message that says what failed, or at a
fault that nobody reports (`script_reported`). `Fails` lists the messages, and `Escapes` the
contents that end at such a fault: the same call of a standard function or the same integer that
ends an interactive session, and in a script whose trees are to be shown the lack of stack. Without
a trace a script ends with exit code 0 exactly if its run returns a value (`runScript_exit_iff`),
and prints what its calls of `print` print (`runSource_prints`).
-/

set_option autoImplicit false

namespace Tama

open Run Eval Session

/-! ## Output -/

namespace Session

variable {σ : Type} (stack : Stack) (host : Host Empty σ) (source filename : String)
  (env : Env Empty)

theorem observeProgram_prints (root : Ast) :
    Prints (observeProgram host false root env) := by
  intro s log
  obtain ⟨events, hlog, hlines⟩ := observe_prints host maxDepth root env s log
  refine ⟨events, ?_⟩
  unfold observeProgram
  generalize observe (Callback.call host) false maxDepth root env (s, log) = r at hlog hlines
  obtain ⟨⟨lines, o⟩, t⟩ := r
  cases o with
  | ok r => exact ⟨hlog, hlines⟩
  | error f => cases f <;> exact ⟨hlog, hlines⟩

theorem observeSource_prints : Prints (observeSource stack host false source filename env) :=
  (Prints.liftTraced prepare_silent).bind fun root =>
    (observeProgram_prints host env root).mapError Failure.fault

/-- A run without a trace prints what its calls of `print` print. -/
theorem runSource_prints (s : σ) : ∃ calls,
    observeSource stack host false source filename env (s, []) =
      ((runSource stack host false source filename env s).1,
        (runSource stack host false source filename env s).2, calls) ∧
    (runSource stack host false source filename env s).1.lines = calls.flatMap Event.printed := by
  obtain ⟨calls, hcalls⟩ := observeSource_eq stack host false source filename env s []
  obtain ⟨events, hlog, hlines⟩ := observeSource_prints stack host source filename env s []
  rw [hcalls] at hlog hlines
  refine ⟨calls, hcalls, ?_⟩
  rw [hlines, show calls = events from hlog]

end Session

namespace Cli

/-! ## Modes -/

/-- What a command line does with a script. -/
inductive Mode where
  | tokens
  | trees (debug : Bool)
  | run (debug : Bool)

/-- What options ask for. -/
def Options.mode (options : Options) : Mode :=
  if options.tokens then .tokens
  else if options.parse then .trees options.debug
  else .run options.debug

/-- The run of a script with the standard functions. -/
abbrev runOf (stack : Stack) (debug : Bool) (path source : String) :
    Traced Failure (Value × Env Empty) :=
  (runSource stack standardHost debug source path (.standard .empty) ()).1

/-- What is asked for can be done with a text. -/
inductive Succeeds (stack : Stack) (path source : String) : Mode → Prop
  | tokens {tokens : List Token} : Lexer.tokenize source path = .ok tokens →
      Succeeds stack path source .tokens
  /-- The text can be read, and none of its trees is too high to be laid out on the stack. -/
  | trees {trees : List Tree} (debug : Bool) :
      Program.readWithin stack.shows source path = .ok trees →
      (∀ t ∈ trees, t.height < stack.layout) → Succeeds stack path source (.trees debug)
  | run {debug : Bool} {v : Value} {env : Env Empty} :
      (runOf stack debug path source).outcome = .ok (v, env) → v.isError = false →
      Succeeds stack path source (.run debug)

/-- What is asked for cannot be done with the contents of a file, with this to say about it. -/
inductive Fails (stack : Stack) (path : String) (bytes : List UInt8) : Mode → List String → Prop
  | undecodableTokens {f : Utf8.Fault} : decode bytes = .error f →
      Fails stack path bytes .tokens [cannotDecode path f]
  | undecodableTrees {f : Utf8.Fault} (debug : Bool) : decode bytes = .error f →
      Fails stack path bytes (.trees debug) [parseErrorLine path
        (.plain ("Cannot decode file " ++ path ++ ": " ++ f.message) path)]
  | undecodable {f : Utf8.Fault} (debug : Bool) : decode bytes = .error f →
      Fails stack path bytes (.run debug) [cannotDecode path f]
  | tokens {source : String} {c : Char} {span : Span} : decode bytes = .ok source →
      Lexer.tokenize source path = .error (.unknown c span) →
      Fails stack path bytes .tokens ["Tokenizer error: " ++ (LexFailure.unknown c span).message]
  | trees {source : String} {e : ParseError} (debug : Bool) : decode bytes = .ok source →
      Program.readWithin stack.shows source path = .error (.syntaxError e) →
      Fails stack path bytes (.trees debug) [parseErrorLine path e]
  /-- The script cannot be run to an end. -/
  | run {debug : Bool} {source : String} {e : Failure} {message : List String} :
      decode bytes = .ok source → (runOf stack debug path source).outcome = .error e →
      report path e = .ok message → Fails stack path bytes (.run debug) message
  /-- The script returns an error. -/
  | error {debug : Bool} {source text : String} {v : Value} {env : Env Empty} :
      decode bytes = .ok source → (runOf stack debug path source).outcome = .ok (v, env) →
      v.isError = true → v.formatError = .ok (.text text) →
      Fails stack path bytes (.run debug) ["\nError: " ++ text]

/-- What is asked for meets a fault that nobody reports. -/
inductive Escapes (stack : Stack) (path source : String) : Mode → Fault → Prop
  | tokens {f : Fault} : Lexer.tokenize source path = .error (.fault f) →
      Escapes stack path source .tokens f
  /-- A literal is too long, or there is no room on the stack for the reading. -/
  | unread {f : Fault} (debug : Bool) :
      Program.readWithin stack.shows source path = .error (.fault f) →
      Escapes stack path source (.trees debug) f
  /-- A tree is too high to be laid out on the stack. -/
  | tree {trees : List Tree} {t : Tree} (debug : Bool) :
      Program.readWithin stack.shows source path = .ok trees → t ∈ trees →
      stack.layout ≤ t.height → Escapes stack path source (.trees debug) .tooDeep
  | run {debug : Bool} {f : Fault} : (runOf stack debug path source).outcome = .error (.fault f) →
      f.Unreported → Escapes stack path source (.run debug) f
  /-- An integer that is too long is to be shown, as the result or in the environment. -/
  | shown {v : Value} {env : Env Empty} : (runOf stack true path source).outcome = .ok (v, env) →
      v.format = .error (.digits .writing) ∨ env.print.outcome = .error (.digits .writing) →
      Escapes stack path source (.run true) (.digits .writing)

/-- The faults that end a script: those that nobody reports, and in a script whose trees are to be
shown the lack of stack. -/
inductive Uncaught : Mode → Fault → Prop
  | unreported {mode : Mode} {f : Fault} : f.Unreported → Uncaught mode f
  | tooDeep (debug : Bool) : Uncaught (.trees debug) .tooDeep

theorem Escapes.uncaught {stack : Stack} {path source : String} {mode : Mode} {f : Fault}
    (h : Escapes stack path source mode f) : Uncaught mode f := by
  cases h with
  | tokens h =>
    obtain ⟨digits, rfl⟩ := Lexer.tokenize_eq_fault h
    exact .unreported (.digits _)
  | unread debug h =>
    obtain ⟨digits, rfl⟩ | rfl := Grammar.readWithin_eq_fault h
    · exact .unreported (.digits _)
    · exact .tooDeep debug
  | tree debug => exact .tooDeep debug
  | run _ hf => exact .unreported hf
  | shown => exact .unreported (.digits _)

/-- How a script ends, and that a failure is among the lines that are printed. -/
inductive Reported (stack : Stack) (path : String) (bytes : List UInt8) (mode : Mode) :
    Outcome → Prop
  | succeeded {source : String} {lines : List String} : decode bytes = .ok source →
      Succeeds stack path source mode → Reported stack path bytes mode (printed lines 0)
  | failed {message : List String} (before after : List String) :
      Fails stack path bytes mode message →
      Reported stack path bytes mode (printed (before ++ message ++ after) 1)
  | escaped {source : String} {lines : List String} {f : Fault} : decode bytes = .ok source →
      Escapes stack path source mode f → Uncaught mode f →
      Reported stack path bytes mode (faulted lines f)

variable {stack : Stack} {path source : String} {bytes : List UInt8} {debug : Bool}

theorem Reported.of_escapes {mode : Mode} {lines : List String} {f : Fault}
    (hdecode : decode bytes = .ok source) (h : Escapes stack path source mode f) :
    Reported stack path bytes mode (faulted lines f) :=
  .escaped hdecode h h.uncaught

/-! ## Tokens and trees -/

theorem showTokens_reported (stack : Stack) (path : String) (bytes : List UInt8) :
    Reported stack path bytes .tokens (showTokens path bytes) := by
  unfold showTokens
  cases hdecode : decode bytes with
  | error f => exact .failed [] [] (.undecodableTokens hdecode)
  | ok source =>
    cases htokens : Lexer.tokenize source path with
    | error e =>
      simp only [htokens]
      cases e with
      | unknown c span => exact .failed [] [] (.tokens hdecode htokens)
      | fault f => exact .of_escapes hdecode (.tokens htokens)
    | ok tokens =>
      have hline : ∀ t ∈ tokens, ∃ text,
          (do return toString t.span.startLine ++ ":" ++ toString t.span.startColumn ++ "\t" ++
            (← t.render) : Except DigitLimit String) = .ok text := by
        intro t ht
        obtain ⟨text, htext⟩ := Lexer.tokenize_renders htokens t ht
        rw [htext]
        exact ⟨_, rfl⟩
      obtain ⟨lines, hlines⟩ := mapM_ok_of hline
      simp only [htokens, hlines]
      exact .succeeded hdecode (.tokens htokens)

/-- Trees that can be laid out are listed, up to one that is too high for the stack. -/
theorem listTrees_outcome {trees : List Tree} (h : ∀ t ∈ trees, t.Shows) (room number : Nat) :
    (listTrees room number trees).outcome = .ok () ∧ (∀ t ∈ trees, t.height < room) ∨
      (listTrees room number trees).outcome = .error .tooDeep ∧ ∃ t ∈ trees, room ≤ t.height := by
  induction trees generalizing number with
  | nil => exact .inl ⟨rfl, List.forall_mem_nil _⟩
  | cons t rest ih =>
    simp only [listTrees, Traced.outcome_bind]
    rcases (h t List.mem_cons_self).layoutOn room with ⟨hroom, text, ht⟩ | ⟨hroom, ht⟩
    · rw [ht]
      rcases ih (fun t ht => h t (List.mem_cons_of_mem _ ht)) (number + 1) with
        ⟨hrest, hall⟩ | ⟨hrest, t', ht', hroom'⟩
      · exact .inl ⟨hrest, by simpa using ⟨hroom, hall⟩⟩
      · exact .inr ⟨hrest, t', List.mem_cons_of_mem _ ht', hroom'⟩
    · rw [ht]
      exact .inr ⟨rfl, t, List.mem_cons_self, hroom⟩

section

variable {fits : String → Bool}

theorem readProgram_outcome_of_undecodable {f : Utf8.Fault} (h : decode bytes = .error f) :
    (readProgram fits path bytes).outcome = .error (.syntaxError
      (.plain ("Cannot decode file " ++ path ++ ": " ++ f.message) path)) := by
  rw [readProgram, h]
  rfl

theorem readProgram_outcome_of_decoded (h : decode bytes = .ok source) :
    (readProgram fits path bytes).outcome = Program.readWithin fits source path := by
  rw [readProgram, h]
  exact read_outcome

end

theorem showTrees_reported (stack : Stack) (debug : Bool) (path : String) (bytes : List UInt8) :
    Reported stack path bytes (.trees debug) (showTrees stack debug path bytes) := by
  unfold showTrees
  simp only [shown_outcome]
  cases hdecode : decode bytes with
  | error f =>
    simp only [readProgram_outcome_of_undecodable hdecode]
    have hfails : Fails stack path bytes (.trees debug) _ := .undecodableTrees debug hdecode
    simpa only [List.append_nil] using Reported.failed _ [] hfails
  | ok source =>
    simp only [readProgram_outcome_of_decoded hdecode]
    cases hread : Program.readWithin stack.shows source path with
    | error e =>
      cases e with
      | syntaxError e =>
        have hfails : Fails stack path bytes (.trees debug) _ := .trees debug hdecode hread
        simpa only [List.append_nil] using Reported.failed _ [] hfails
      | fault f => exact .of_escapes hdecode (.unread debug hread)
    | ok trees =>
      have hshows := Grammar.read_shows (Grammar.readWithin_eq_ok.1 hread).2
      rcases listTrees_outcome hshows stack.layout 1 with ⟨hlisted, hall⟩ | ⟨hlisted, t, ht, hroom⟩
      · simp only [hlisted]
        exact .succeeded hdecode (.trees debug hread hall)
      · simp only [hlisted]
        exact .of_escapes hdecode (.tree debug hread ht hroom)

/-! ## Runs -/

theorem report_of_stopping {e : Failure} (path : String) (h : e.Stopping) :
    (∃ message, report path e = .ok message) ∨
      ∃ f, e = .fault f ∧ f.Unreported ∧ report path e = .error f := by
  cases h with
  | reportable h => cases h <;> exact .inl ⟨_, rfl⟩
  | @unreported f hf =>
    refine .inr ⟨f, rfl, hf, ?_⟩
    cases hf <;> rfl

section

variable {v : Value} {env : Env Empty}

/-- A value is shown in a run with a trace only. -/
theorem finishScript_untraced (path : String) (env : Env Empty) (hv : v.failed = .ok false) :
    finishScript false path v env = ⟨[], .ok 0⟩ := by
  simp only [finishScript, hv]
  rfl

/-- The end of a script that returns a value. -/
theorem finishScript_of_value (debug : Bool) (path : String) (hv : v.failed = .ok false)
    (hformat : Limited v.format) (henv : Limited env.print.outcome) :
    (∃ lines, finishScript debug path v env = ⟨lines, .ok 0⟩) ∨
      ∃ lines, debug = true ∧ (v.format = .error (.digits .writing) ∨
        env.print.outcome = .error (.digits .writing)) ∧
      finishScript debug path v env = ⟨lines, .error (.digits .writing)⟩ := by
  cases debug with
  | false => exact .inl ⟨_, finishScript_untraced path env hv⟩
  | true =>
    simp only [finishScript, hv]
    rcases hf : v.format with f | text
    · rw [hf] at hformat
      obtain rfl := hformat.eq_of_error
      exact .inr ⟨_, trivial, .inl rfl, rfl⟩
    · rcases hp : env.print with ⟨lines, f | _⟩
      · rw [hp] at henv
        obtain rfl := henv.eq_of_error
        exact .inr ⟨_, trivial, .inr rfl, rfl⟩
      · exact .inl ⟨_, rfl⟩

/-- The end of a script that returns an error. -/
theorem finishScript_of_error (debug : Bool) (path : String) {text : String}
    (hv : v.failed = .ok true) (htext : v.formatError = .ok (.text text))
    (henv : Limited env.print.outcome) :
    (∃ before after, finishScript debug path v env =
      ⟨before ++ ["\nError: " ++ text] ++ after, .ok 1⟩) ∨
      ∃ lines, debug = true ∧ env.print.outcome = .error (.digits .writing) ∧
        finishScript debug path v env = ⟨lines, .error (.digits .writing)⟩ := by
  simp only [finishScript, hv, htext]
  let before := ["\n" ++ rule, "Runtime Error in '" ++ path ++ "'", rule]
  cases debug with
  | false => exact .inl ⟨before, _, rfl⟩
  | true =>
    rcases hp : env.print with ⟨lines, f | _⟩
    · rw [hp] at henv
      obtain rfl := henv.eq_of_error
      exact .inr ⟨_, rfl, rfl, rfl⟩
    · exact .inl ⟨before, _, rfl⟩

end

section

variable {v : Value} {env : Env Empty} {lines : List String}

theorem runScript_of_finished (h : decode bytes = .ok source)
    (hrun : (runOf stack debug path source).outcome = .ok (v, env)) {code : Nat}
    (hfinish : finishScript debug path v env = ⟨lines, .ok code⟩) :
    runScript stack debug path bytes =
      printed ((runOf stack debug path source).lines ++ lines) code := by
  simp only [runScript, h, hrun, hfinish]

theorem runScript_of_unfinished (h : decode bytes = .ok source)
    (hrun : (runOf stack debug path source).outcome = .ok (v, env)) {f : Fault}
    (hfinish : finishScript debug path v env = ⟨lines, .error f⟩) :
    runScript stack debug path bytes =
      faulted ((runOf stack debug path source).lines ++ lines) f := by
  simp only [runScript, h, hrun, hfinish]

theorem runScript_of_reported (h : decode bytes = .ok source) {e : Failure}
    (hrun : (runOf stack debug path source).outcome = .error e)
    (hreport : report path e = .ok lines) :
    runScript stack debug path bytes =
      printed ((runOf stack debug path source).lines ++ lines) 1 := by
  simp only [runScript, h, hrun, hreport]

theorem runScript_of_unreported (h : decode bytes = .ok source) {e : Failure} {f : Fault}
    (hrun : (runOf stack debug path source).outcome = .error e)
    (hreport : report path e = .error f) :
    runScript stack debug path bytes = faulted (runOf stack debug path source).lines f := by
  simp only [runScript, h, hrun, hreport]

end

/-- A script that was run to an end. -/
theorem runScript_returned (hdecode : decode bytes = .ok source) {v : Value} {env : Env Empty}
    (hrun : (runOf stack debug path source).outcome = .ok (v, env)) (hreturned : v.Returned)
    (henv : env.Safe) :
    Reported stack path bytes (.run debug) (runScript stack debug path bytes) := by
  have hprint := Env.print_limited henv
  cases hv : v.isError with
  | false =>
    have hformat := (hreturned.canonical hv).format_limited
    rcases finishScript_of_value debug path (hreturned.failed.trans (congrArg _ hv)) hformat hprint
      with ⟨lines, hfinish⟩ | ⟨lines, rfl, hlong, hfinish⟩
    · rw [runScript_of_finished hdecode hrun hfinish]
      exact .succeeded hdecode (.run hrun hv)
    · rw [runScript_of_unfinished hdecode hrun hfinish]
      exact .of_escapes hdecode (.shown hrun hlong)
  | true =>
    obtain ⟨text, htext⟩ := hreturned.formatError hv
    rcases finishScript_of_error debug path (hreturned.failed.trans (congrArg _ hv)) htext hprint
      with ⟨before, after, hfinish⟩ | ⟨lines, rfl, hlong, hfinish⟩
    · rw [runScript_of_finished hdecode hrun hfinish, ← List.append_assoc, ← List.append_assoc]
      exact .failed _ after (.error hdecode hrun hv htext)
    · rw [runScript_of_unfinished hdecode hrun hfinish]
      exact .of_escapes hdecode (.shown hrun (.inr hlong))

/-- A script that could not be run to an end. -/
theorem runScript_stopped (hdecode : decode bytes = .ok source) {e : Failure}
    (hrun : (runOf stack debug path source).outcome = .error e) (he : e.Stopping) :
    Reported stack path bytes (.run debug) (runScript stack debug path bytes) := by
  rcases report_of_stopping path he with ⟨message, hreport⟩ | ⟨f, rfl, hf, hreport⟩
  · rw [runScript_of_reported hdecode hrun hreport, ← List.append_nil (_ ++ message)]
    exact .failed _ [] (.run hdecode hrun hreport)
  · rw [runScript_of_unreported hdecode hrun hreport]
    exact .of_escapes hdecode (.run hrun hf)

theorem runScript_reported (stack : Stack) (debug : Bool) (path : String) (bytes : List UInt8) :
    Reported stack path bytes (.run debug) (runScript stack debug path bytes) := by
  cases hdecode : decode bytes with
  | error f =>
    simp only [runScript, hdecode]
    exact .failed [] _ (.undecodable debug hdecode)
  | ok source =>
    have hpost := runSource_ends stack standardHost source path debug Env.safe_standard ()
    cases hrun : (runOf stack debug path source).outcome with
    | ok r =>
      rw [hrun] at hpost
      cases hpost with
      | ok h => exact runScript_returned hdecode hrun h.1 h.2
    | error e =>
      rw [hrun] at hpost
      cases hpost with
      | error h => exact runScript_stopped hdecode hrun h

/-- What is asked for with a file is done, or its failure is reported, or it meets a fault that
nobody reports. -/
theorem script_reported (stack : Stack) (options : Options) (path : String) (bytes : List UInt8) :
    Reported stack path bytes options.mode (script stack options path (.file bytes)) := by
  unfold Options.mode script
  dsimp only
  split
  · exact showTokens_reported stack path bytes
  · split
    · exact showTrees_reported stack options.debug path bytes
    · exact runScript_reported stack options.debug path bytes

/-! ## Scripts that succeed -/

/-- Only what was done ends with exit code 0. -/
theorem Reported.succeeds {mode : Mode} {o : Outcome} (h : Reported stack path bytes mode o)
    (ho : o.ending = .exit 0) :
    ∃ source, decode bytes = .ok source ∧ Succeeds stack path source mode := by
  cases h with
  | succeeded hdecode hs => exact ⟨_, hdecode, hs⟩
  | failed => cases ho
  | escaped => cases ho

/-- A script that is run without a trace and returns a value prints nothing of its own. -/
theorem runScript_of_value (h : decode bytes = .ok source) {v : Value} {env : Env Empty}
    (hrun : (runOf stack false path source).outcome = .ok (v, env)) (hv : v.isError = false) :
    runScript stack false path bytes = printed (runOf stack false path source).lines 0 := by
  have hpost := runSource_ends stack standardHost source path false Env.safe_standard ()
  rw [hrun] at hpost
  cases hpost with
  | ok hr =>
    have hfinish := finishScript_untraced path env (hr.1.failed.trans (congrArg _ hv))
    rw [runScript_of_finished h hrun hfinish, List.append_nil]

/-- Without a trace a script ends with exit code 0 exactly if its run returns a value that is no
error. -/
theorem runScript_exit_iff (h : decode bytes = .ok source) :
    (runScript stack false path bytes).ending = .exit 0 ↔
      ∃ v env, (runOf stack false path source).outcome = .ok (v, env) ∧ v.isError = false := by
  constructor
  · intro hexit
    obtain ⟨source', h', hs⟩ := (runScript_reported stack false path bytes).succeeds hexit
    cases h.symm.trans h'
    cases hs with
    | run hrun hv => exact ⟨_, _, hrun, hv⟩
  · rintro ⟨v, env, hrun, hv⟩
    rw [runScript_of_value h hrun hv]
    rfl

/-! ## The main statement -/

/-- **Failing scripts are reported.** Whatever is in a file, whatever the options ask for and
whatever the stack has room for, it can be done and ends with exit code 0; or it fails, and ends
with exit code 1 after a message that says so; or it meets a fault that nobody reports. Such a fault
is a call of a standard function with the wrong number of arguments, an integer that is too long to
be read or written, or, where trees are to be shown, the lack of stack for the reading or for the
layout of a tree. A script that is run without a trace ends with exit code 0 exactly if its run
returns a value that is no error, and then it prints what its calls of `print` print and nothing
else. -/
theorem failures_are_reported (stack : Stack) (options : Options) (path : String)
    (bytes : List UInt8) :
    Reported stack path bytes options.mode (script stack options path (.file bytes)) ∧
    ∀ source, decode bytes = .ok source → ∃ calls,
      observeSource stack standardHost false source path (.standard .empty) ((), []) =
        (runOf stack false path source, (), calls) ∧
      ((runScript stack false path bytes).ending = .exit 0 ↔
        ∃ v env, (runOf stack false path source).outcome = .ok (v, env) ∧ v.isError = false) ∧
      ((runScript stack false path bytes).ending = .exit 0 →
        runScript stack false path bytes = printed (calls.flatMap Event.printed) 0) := by
  refine ⟨script_reported stack options path bytes, fun source h => ?_⟩
  obtain ⟨calls, hcalls, hlines⟩ :=
    runSource_prints stack standardHost source path (.standard .empty) ()
  refine ⟨calls, hcalls, runScript_exit_iff h, fun hexit => ?_⟩
  obtain ⟨v, env, hrun, hv⟩ := (runScript_exit_iff h).1 hexit
  rw [runScript_of_value h hrun hv, hlines]

/-- A script `print(true);` ends with exit code 0. -/
theorem failures_are_reported_of_call :
    (runScript Stacks.standard.initial false "a.tama" "print(true);".toUTF8.toList).ending =
      .exit 0 := by
  have hdecode : decode "print(true);".toUTF8.toList = .ok "print(true);" := by decide +kernel
  have hprepare : (prepare Stacks.standard.initial false "print(true);" "a.tama").outcome =
      .ok (.source [.call "print" [.bool true]]) :=
    prepare_of_program (by decide) (by cbv : Parser.program 5 _ = .done _ _) rfl
  have hrun : (runOf Stacks.standard.initial false "a.tama" "print(true);").outcome =
      .ok (.null, .standard .empty) := by
    rw [runOf, runSource_of_ok hprepare]
    rfl
  obtain ⟨_, -, hexit, -⟩ := (failures_are_reported Stacks.standard.initial
    ⟨none, false, false, false, false⟩ "a.tama" _).2 _ hdecode
  exact hexit.2 ⟨_, _, hrun, rfl⟩

/-- A script `print(1,2);` ends at a fault that nobody reports. -/
theorem script_stopped_by_call :
    (runScript Stacks.standard.initial false "a.tama" "print(1,2);".toUTF8.toList).ending =
      .fault (.arity ⟨"tama_print", ["value"], 2⟩) := by
  have hdecode : decode "print(1,2);".toUTF8.toList = .ok "print(1,2);" := by decide +kernel
  have hprepare : (prepare Stacks.standard.initial false "print(1,2);" "a.tama").outcome =
      .ok (.source [.call "print" [.int 1, .int 2]]) :=
    prepare_of_program (by decide) (by cbv : Parser.program 5 _ = .done _ _) rfl
  have hrun : (runOf Stacks.standard.initial false "a.tama" "print(1,2);").outcome =
      .error (.fault (.arity ⟨"tama_print", ["value"], 2⟩)) := by
    rw [runOf, runSource_of_ok hprepare]
    rfl
  rw [runScript_of_unreported hdecode hrun rfl]
  rfl

end Cli
end Tama
