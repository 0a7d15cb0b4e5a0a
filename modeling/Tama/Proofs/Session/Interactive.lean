import Tama.Proofs.Session.Reporting
import Tama.Repl

/-!
# What ends an interactive session

An interactive session reads its inputs one after the other. It ends with `exit`, with an interrupt
or with its input, or at an input that meets a fault which nobody reports: `Escapes` lists these
inputs, and `Ending` their faults. To every other input it gives an answer and reads on
(`session_reads_on`): whatever failed is printed as a message, and the environment is the one that
the run of the input returned, or else the one from before (`Answered`).
-/

set_option autoImplicit false

namespace Tama.Repl

open Run Session

variable {ι σ : Type}

/-! ## Inputs -/

section

variable (host : Host ι σ) (debug : Bool) (state : State ι) (s : σ)

/-- The run of a text in the state of a session. -/
abbrev runIn (code : String) : Traced Failure (Value × Env ι) :=
  (runSource state.stack host debug code "<input>" state.env s).1

/-- What an input asks for meets a fault that nobody reports. -/
inductive Escapes : Command → Fault → Prop
  /-- A text to be shown has a literal that is too long, or there is no room on the stack for its
  reading. -/
  | unread {code : String} {f : Fault} :
      Program.readWithin state.stack.shows code "<input>" = .error (.fault f) →
      Escapes (.parse code) f
  /-- A text to be shown has a tree that is too high to be laid out on the stack. -/
  | tree {code : String} {trees : List Tree} {t : Tree} :
      Program.readWithin state.stack.shows code "<input>" = .ok trees → t ∈ trees →
      state.stack.layout ≤ t.height → Escapes (.parse code) .tooDeep
  /-- A text to be shown has a literal that is too long. -/
  | tokens {code : String} {f : Fault} : Lexer.tokenize code "<input>" = .error (.fault f) →
      Escapes (.tokens code) f
  /-- A variable of the session holds an integer that is too long. -/
  | env : state.env.print.outcome = .error (.digits .writing) → Escapes .env (.digits .writing)
  /-- A text to be run meets such a fault. -/
  | run {code : String} {f : Fault} : (runIn host debug state s code).outcome = .error (.fault f) →
      f.Unreported → Escapes (.run code) f
  /-- A text returns an integer that is too long. -/
  | result {code : String} {v : Value} {env : Env ι} :
      (runIn host debug state s code).outcome = .ok (v, env) →
      v.format = .error (.digits .writing) → Escapes (.run code) (.digits .writing)

/-- What an input asks for fails, with this to say about it. -/
inductive Fails : Command → String → Prop
  | parse {code : String} {e : ParseError} :
      Program.readWithin state.stack.shows code "<input>" = .error (.syntaxError e) →
      Fails (.parse code) ("Parse error: " ++ e.render)
  | tokens {code : String} {c : Char} {span : Span} :
      Lexer.tokenize code "<input>" = .error (.unknown c span) →
      Fails (.tokens code) ("Tokenizer error: " ++ (LexFailure.unknown c span).message)
  /-- A text cannot be run to an end. -/
  | run {code message : String} {e : Failure} :
      (runIn host debug state s code).outcome = .error e →
      report e = .ok message → Fails (.run code) message
  /-- A text returns an error. -/
  | error {code message : String} {v : Value} {env : Env ι} :
      (runIn host debug state s code).outcome = .ok (v, env) →
      v.isError = true → v.formatError = .ok (.text message) →
      Fails (.run code) ("Error: " ++ message)

/-- The answer to an input, and the state after it. -/
structure Answered (command : Command) (said : String) (next : State ι) : Prop where
  /-- Whatever failed is printed as a message. -/
  reported : ∀ message, Fails host debug state s command message →
    ∃ before, said = before ++ message ++ "\n"
  /-- A text that was run to an end leaves the environment that it returned. -/
  threaded : ∀ code v env, command = .run code →
    (runIn host debug state s code).outcome = .ok (v, env) → next.env = env
  /-- Any other input leaves the environment as it was. -/
  kept : (∀ code v env, command = .run code →
    (runIn host debug state s code).outcome ≠ .ok (v, env)) → next.env = state.env
  safe : state.env.Safe → next.env.Safe

end

variable {host : Host ι σ} {raised : Stack} {debug : Bool} {state : State ι} {s : σ}

/-- The faults that end a session: those that nobody reports, and the lack of stack for a text to be
shown. -/
inductive Ending : Command → Fault → Prop
  | unreported {command : Command} {f : Fault} : f.Unreported → Ending command f
  | tooDeep (code : String) : Ending (.parse code) .tooDeep

theorem Escapes.ending {command : Command} {f : Fault} (h : Escapes host debug state s command f) :
    Ending command f := by
  cases h with
  | @unread code _ h =>
    obtain ⟨digits, rfl⟩ | rfl := Grammar.readWithin_eq_fault h
    · exact .unreported (.digits _)
    · exact .tooDeep code
  | @tree code => exact .tooDeep code
  | tokens h =>
    obtain ⟨digits, rfl⟩ := Lexer.tokenize_eq_fault h
    exact .unreported (.digits _)
  | env => exact .unreported (.digits _)
  | run _ hf => exact .unreported hf
  | result => exact .unreported (.digits _)

/-! ## One input -/

/-- An input that runs no text leaves the state alone. -/
theorem Answered.of_shown {command : Command} {said : String}
    (h : ∀ code, command ≠ .run code)
    (hr : ∀ message, Fails host debug state s command message →
      ∃ before, said = before ++ message ++ "\n") :
    Answered host debug state s command said state where
  reported := hr
  threaded code _ _ hc := absurd hc (h code)
  kept _ := rfl
  safe := id

/-- A text that was run to an end. -/
theorem Answered.of_returned {code said : String} {v : Value} {env : Env ι} {next : State ι}
    (h : (runIn host debug state s code).outcome = .ok (v, env)) (hnext : next.env = env)
    (hr : ∀ message, Fails host debug state s (.run code) message →
      ∃ before, said = before ++ message ++ "\n") (hs : env.Safe) :
    Answered host debug state s (.run code) said next where
  reported := hr
  threaded code' _ _ hc h' := by
    cases hc
    cases h.symm.trans h'
    exact hnext
  kept hn := absurd h (hn code v env rfl)
  safe _ := hnext ▸ hs

/-- A text that could not be run to an end. -/
theorem Answered.of_failed {code said : String} {e : Failure} {next : State ι}
    (h : (runIn host debug state s code).outcome = .error e) (hnext : next.env = state.env)
    (hr : ∀ message, Fails host debug state s (.run code) message →
      ∃ before, said = before ++ message ++ "\n") :
    Answered host debug state s (.run code) said next where
  reported := hr
  threaded code' _ _ hc h' := by
    cases hc
    cases h.symm.trans h'
  kept _ := hnext
  safe h := hnext ▸ h

/-- An input ends in a fault that nobody reports, or it is answered and the session reads on. -/
inductive Handled (host : Host ι σ) (debug : Bool) (state : State ι) (s : σ) (command : Command) :
    String × Next ι → Prop
  | answered {said : String} {next : State ι} : Answered host debug state s command said next →
      Handled host debug state s command (said, goOn next)
  | escaped {said : String} {f : Fault} : Escapes host debug state s command f →
      Handled host debug state s command (said, .crashed f)

/-- Trees that can be laid out are, up to one that is too high for the stack. -/
theorem layouts_fault {trees : List Tree} (h : ∀ t ∈ trees, t.Shows) (room : Nat) :
    (layouts room trees).2 = none ∨
      (layouts room trees).2 = some .tooDeep ∧ ∃ t ∈ trees, room ≤ t.height := by
  induction trees with
  | nil => exact .inl rfl
  | cons t rest ih =>
    rcases (h t List.mem_cons_self).layoutOn room with ⟨-, text, ht⟩ | ⟨hroom, ht⟩
    · simp only [layouts, ht]
      refine (ih fun t ht => h t (List.mem_cons_of_mem _ ht)).imp_right ?_
      rintro ⟨hfault, t', ht', hroom⟩
      exact ⟨hfault, t', List.mem_cons_of_mem _ ht', hroom⟩
    · simp only [layouts, ht]
      exact .inr ⟨trivial, t, List.mem_cons_self, hroom⟩

theorem showTrees_handled (code : String) :
    Handled host debug state s (.parse code) (showTrees debug state code) := by
  have hout : (shown debug (Session.read state.stack.shows code "<input>")).outcome =
      Program.readWithin state.stack.shows code "<input>" := by
    rw [shown_outcome, read_outcome]
  unfold showTrees
  simp only [hout]
  cases hread : Program.readWithin state.stack.shows code "<input>" with
  | ok trees =>
    have hshows := Grammar.read_shows (Grammar.readWithin_eq_ok.1 hread).2
    rcases layouts_fault hshows state.stack.layout with hfault | ⟨hfault, t, ht, hroom⟩
    · simp only [hfault]
      refine .answered (.of_shown nofun fun message hf => ?_)
      cases hf with
      | parse h => cases hread.symm.trans h
    · simp only [hfault]
      exact .escaped (.tree hread ht hroom)
  | error e =>
    cases e with
    | syntaxError e =>
      refine .answered (.of_shown nofun fun message hf => ?_)
      cases hf with
      | parse h =>
        cases hread.symm.trans h
        exact ⟨_, by simp only [String.append_assoc]; rfl⟩
    | fault f => exact .escaped (.unread hread)

theorem showTokens_handled (code : String) :
    Handled host debug state s (.tokens code) (showTokens state code) := by
  unfold showTokens
  cases htokens : Lexer.tokenize code "<input>" with
  | ok tokens =>
    obtain ⟨texts, ht⟩ := mapM_ok_of (Lexer.tokenize_renders htokens)
    simp only [ht]
    refine .answered (.of_shown nofun fun message hf => ?_)
    cases hf with
    | tokens h => cases htokens.symm.trans h
  | error e =>
    cases e with
    | unknown c span =>
      refine .answered (.of_shown nofun fun message hf => ?_)
      cases hf with
      | tokens h =>
        cases htokens.symm.trans h
        exact ⟨"", by simp⟩
    | fault f => exact .escaped (.tokens htokens)

theorem showEnv_handled (henv : state.env.Safe) :
    Handled host debug state s .env (showEnv state) := by
  have hlimited := Env.print_limited henv
  unfold showEnv
  rcases hprint : state.env.print with ⟨lines, f | _⟩ <;> dsimp only
  · rw [hprint] at hlimited
    obtain rfl := hlimited.eq_of_error
    exact .escaped (.env (by rw [hprint]))
  · exact .answered (.of_shown nofun nofun)

theorem unlines_append_singleton (lines : List String) (line : String) :
    unlines (lines ++ [line]) = unlines lines ++ line ++ "\n" := by
  simp [unlines, String.append_assoc]

theorem report_of_stopping {e : Failure} (h : e.Stopping) :
    (∃ message, report e = .ok message) ∨
      ∃ f, e = .fault f ∧ f.Unreported ∧ report e = .error f := by
  cases h with
  | reportable h => cases h <;> exact .inl ⟨_, rfl⟩
  | @unreported f hf =>
    refine .inr ⟨f, rfl, hf, ?_⟩
    cases hf <;> rfl

/-- The line that shows a result, unless that is an integer that is too long. -/
theorem resultLine_cases {v : Value} (h : v.Returned) :
    (v.isError = true ∧ ∃ text, v.formatError = .ok (.text text) ∧
      resultLine v = .ok ("Error: " ++ text)) ∨
    (v.isError = false ∧ ∃ text, resultLine v = .ok text) ∨
    v.format = .error (.digits .writing) ∧ resultLine v = .error (.digits .writing) := by
  cases hv : v.isError with
  | true =>
    obtain ⟨text, ht⟩ := h.formatError hv
    refine .inl ⟨rfl, text, ht, ?_⟩
    simp only [resultLine, resultText, h.failed, hv, ht]
    rfl
  | false =>
    have hlimited := (h.canonical hv).format_limited
    rcases hformat : v.format with f | text
    · rw [hformat] at hlimited
      obtain rfl := hlimited.eq_of_error
      refine .inr (.inr ⟨rfl, ?_⟩)
      simp only [resultLine, resultText, h.failed, hv, hformat]
      rfl
    · refine .inr (.inl ⟨rfl, ?_⟩)
      simp only [resultLine, resultText, h.failed, hv, hformat]
      exact ⟨_, rfl⟩

@[simp]
theorem State.after_env (code : String) (env : Env ι) :
    (state.after raised code env).env = env := by
  unfold State.after
  split <;> rfl

theorem runCode_handled (henv : state.env.Safe) (code : String) :
    Handled host debug state s (.run code) (runCode host raised debug state code s).1 := by
  have hpost := runSource_ends state.stack host code "<input>" debug henv s
  unfold runCode
  rcases hrun : runSource state.stack host debug code "<input>" state.env s with ⟨⟨lines, o⟩, t⟩
  have hout : (runIn host debug state s code).outcome = o := by rw [runIn, hrun]
  rw [hrun] at hpost
  cases hpost with
  | @ok r h =>
    obtain ⟨v, env'⟩ := r
    rcases resultLine_cases h.1 with ⟨hv, text, htext, hline⟩ | ⟨hv, text, hline⟩ | ⟨hf, hline⟩ <;>
      simp only [hline]
    · have hnext : (state.after raised code env').env = env' := state.after_env code env'
      refine .answered (.of_returned hout hnext (fun message hfails => ?_) h.2)
      cases hfails with
      | run h' => cases hout.symm.trans h'
      | error h' _ hm =>
        cases hout.symm.trans h'
        cases htext.symm.trans hm
        exact ⟨unlines lines, unlines_append_singleton lines _⟩
    · have hnext : (state.after raised code env').env = env' := state.after_env code env'
      refine .answered (.of_returned hout hnext (fun message hfails => ?_) h.2)
      cases hfails with
      | run h' => cases hout.symm.trans h'
      | error h' hv' _ =>
        cases hout.symm.trans h'
        cases hv.symm.trans hv'
    · exact .escaped (.result hout hf)
  | @error e h =>
    rcases report_of_stopping h with ⟨message, hm⟩ | ⟨f, rfl, hf, hm⟩ <;> simp only [hm]
    · refine .answered (.of_failed hout (state.after_env code _) fun message' hfails => ?_)
      cases hfails with
      | error h' => cases hout.symm.trans h'
      | run h' hm' =>
        cases hout.symm.trans h'
        cases hm.symm.trans hm'
        exact ⟨unlines lines, unlines_append_singleton lines _⟩
    · exact .escaped (.run hout hf)

/-- Only the word `exit` asks for the end of a session. -/
theorem trim_of_exit {code : String} (h : Command.ofInput code = .exit) :
    Blank.trim code.toList = "exit".toList := by
  unfold Command.ofInput at h
  simp only at h
  split at h
  · assumption
  · repeat' split at h
    all_goals cases h

/-- What an input asks for ends the session, meets a fault that nobody reports, or is answered. -/
theorem perform_handled (host : Host ι σ) (raised : Stack) (debug : Bool) (henv : state.env.Safe)
    (s : σ) (code : String) :
    (Command.ofInput code = .exit ∧
        perform host raised debug state code s = (("", .finished), s)) ∨
      Handled host debug state s (Command.ofInput code)
        (perform host raised debug state code s).1 := by
  unfold perform
  cases Command.ofInput code with
  | exit => exact .inl ⟨rfl, rfl⟩
  | nothing => exact .inr (.answered (.of_shown nofun nofun))
  | parse rest => exact .inr (showTrees_handled rest)
  | tokens rest => exact .inr (showTokens_handled rest)
  | env => exact .inr (showEnv_handled henv)
  | help => exact .inr (.answered (.of_shown nofun nofun))
  | run code => exact .inr (runCode_handled henv code)

/-! ## Sessions -/

section

variable (host : Host ι σ) (raised : Stack) (debug : Bool)

/-- A session gets past inputs: it takes up a line of an unfinished input, or answers a complete
one, and reads on. -/
inductive Passes : State ι → σ → List Input → String → State ι → σ → Prop
  | nil (state : State ι) (s : σ) : Passes state s [] "" state s
  | unfinished {state last : State ι} {s t : σ} {line text : String} {rest : List Input} :
      isUnfinished (state.code line) = true →
      Passes { state with unfinished := some (state.code line) } s rest text last t →
      Passes state s (.line line :: rest) (state.prompt ++ text) last t
  | answered {state next last : State ι} {s s' t : σ} {line said text : String}
      {rest : List Input} : isUnfinished (state.code line) = false →
      perform host raised debug state (state.code line) s = ((said, goOn next), s') →
      Answered host debug state s (Command.ofInput (state.code line)) said next →
      Passes { next with unfinished := none } s' rest text last t →
      Passes state s (.line line :: rest) (state.prompt ++ said ++ text) last t

/-- How a session ends that is reading in a state, with what it still prints and the fault that
ends it, if one does. -/
inductive Ends (state : State ι) (s : σ) : List Input → String → Option Fault → Prop
  | endOfInput : Ends state s [] (state.prompt ++ farewell) none
  | interrupt (rest : List Input) :
      Ends state s (.interrupt :: rest) (state.prompt ++ farewell) none
  | exit {line : String} (rest : List Input) : isUnfinished (state.code line) = false →
      Blank.trim (state.code line).toList = "exit".toList →
      Ends state s (.line line :: rest) state.prompt none
  | escape {line : String} (rest : List Input) (said : String) {f : Fault} :
      isUnfinished (state.code line) = false →
      Escapes host debug state s (Command.ofInput (state.code line)) f →
      Ending (Command.ofInput (state.code line)) f →
      Ends state s (.line line :: rest) (state.prompt ++ said) (some f)

end

section

variable {state next : State ι} {t : σ} {input : Input} {rest : List Input} {said : String}

theorem transcript_of_reading
    (h : step host raised debug state input s = ((said, .reading next), t)) :
    transcript host raised debug state s (input :: rest) =
      (state.prompt ++ said ++ (transcript host raised debug next t rest).1,
        (transcript host raised debug next t rest).2) := by
  simp only [transcript, h]

theorem transcript_of_finished (h : step host raised debug state input s = ((said, .finished), t)) :
    transcript host raised debug state s (input :: rest) = (state.prompt ++ said, none) := by
  simp only [transcript, h]

theorem transcript_of_crashed {f : Fault}
    (h : step host raised debug state input s = ((said, .crashed f), t)) :
    transcript host raised debug state s (input :: rest) = (state.prompt ++ said, some f) := by
  simp only [transcript, h]

theorem step_unfinished {line : String} (h : isUnfinished (state.code line) = true) :
    step host raised debug state (.line line) s =
      (("", .reading { state with unfinished := some (state.code line) }), s) := by
  simp only [step, h, if_true]

theorem step_complete (host : Host ι σ) (raised : Stack) (debug : Bool) (s : σ) {line : String}
    (h : isUnfinished (state.code line) = false) :
    step host raised debug state (.line line) s =
      perform host raised debug state (state.code line) s := by
  simp only [step, h, Bool.false_eq_true, if_false]

end

/-- From a state with a safe environment a session passes some inputs and ends at the next one. -/
theorem transcript_run (host : Host ι σ) (raised : Stack) (debug : Bool) (inputs : List Input) :
    ∀ (state : State ι) (s : σ), state.env.Safe →
    ∃ read rest text last t more fault, inputs = read ++ rest ∧
      Passes host raised debug state s read text last t ∧ last.env.Safe ∧
      Ends host debug last t rest more fault ∧
      transcript host raised debug state s inputs = (text ++ more, fault) := by
  -- on the inputs, for every state: no answer and no unfinished input makes its environment unsafe
  induction inputs with
  | nil =>
    intro state s h
    exact ⟨[], [], "", state, s, _, _, rfl, .nil state s, h, .endOfInput, by simp [transcript]⟩
  | cons input inputs ih =>
    intro state s h
    cases input with
    | interrupt =>
      refine ⟨[], _, "", state, s, _, _, rfl, .nil state s, h, .interrupt inputs, ?_⟩
      rw [transcript_of_finished rfl, String.empty_append]
    | line line =>
      cases hline : isUnfinished (state.code line) with
      | true =>
        obtain ⟨read, rest, text, last, t, more, fault, hinputs, hpasses, hsafe, hends, hrun⟩ :=
          ih { state with unfinished := some (state.code line) } s h
        refine ⟨_, rest, _, last, t, more, fault, congrArg (Input.line line :: ·) hinputs,
          .unfinished hline hpasses, hsafe, hends, ?_⟩
        rw [transcript_of_reading (step_unfinished hline), hrun]
        simp [String.append_assoc]
      | false =>
        have hstep := step_complete host raised debug s hline
        rcases perform_handled host raised debug h s (state.code line) with
          ⟨hexit, hperform⟩ | hhandled
        · refine ⟨[], _, "", state, s, _, _, rfl, .nil state s, h,
            .exit inputs hline (trim_of_exit hexit), ?_⟩
          rw [transcript_of_finished (hstep.trans hperform)]
          simp
        · rcases hperform : perform host raised debug state (state.code line) s with ⟨answer, s'⟩
          rw [hperform] at hhandled
          cases hhandled with
          | @answered said next ha =>
            obtain ⟨read, rest, text, last, t, more, fault, hinputs, hpasses, hsafe, hends, hrun⟩ :=
              ih { next with unfinished := none } s' (ha.safe h)
            refine ⟨_, rest, _, last, t, more, fault, congrArg (Input.line line :: ·) hinputs,
              .answered hline hperform ha hpasses, hsafe, hends, ?_⟩
            rw [transcript_of_reading (hstep.trans hperform), hrun]
            simp [String.append_assoc]
          | @escaped said f he =>
            refine ⟨[], _, "", state, s, _, _, rfl, .nil state s, h,
              .escape inputs said hline he he.ending, ?_⟩
            rw [transcript_of_crashed (hstep.trans hperform), String.empty_append]

/-! ## The main statement -/

/-- **What ends an interactive session.** Whatever its inputs are, with a trace or without, and
whatever stacks it starts on and has later, a session passes some of them, and its environment stays
safe: it answers each input, prints a message for what failed, keeps the environment where no run
returned one, and reads on. Then it ends: at the end of its inputs, at an interrupt, at `exit`, or
at an input that meets a fault which nobody reports. Such a fault is a call of a standard function
with the wrong number of arguments, an integer that is too long to be read or written, or, in a text
to be shown, the lack of stack for its reading or for the layout of a tree. -/
theorem session_reads_on (host : Host ι σ) (stack raised : Stack) (debug : Bool)
    (inputs : List Input) (s : σ) :
    ∃ read rest text last t more fault, inputs = read ++ rest ∧
      Passes host raised debug (start stack) s read text last t ∧ last.env.Safe ∧
      Ends host debug last t rest more fault ∧
      transcript host raised debug (start stack) s inputs = (text ++ more, fault) :=
  transcript_run host raised debug inputs (start stack) s Env.safe_standard

/-- `print(1,2);` ends a session, although `exit` is still to come. -/
theorem session_ended_by_call :
    let host : Host Empty Unit := nofun
    transcript host Stacks.standard.raised false (start Stacks.standard.initial) ()
        [.line "print(1,2);", .line "exit"] =
      ("tama> ", some (.arity ⟨"tama_print", ["value"], 2⟩)) := by
  intro host
  let raised := Stacks.standard.raised
  let first : State Empty := start Stacks.standard.initial
  have hprepare : (prepare first.stack false "print(1,2);" "<input>").outcome =
      .ok (.source [.call "print" [.int 1, .int 2]]) :=
    prepare_of_program (by decide) (by cbv : Parser.program 5 _ = .done _ _) rfl
  have hrun : runSource first.stack host false "print(1,2);" "<input>" first.env () =
      (⟨[], .error (.fault (.arity ⟨"tama_print", ["value"], 2⟩))⟩, ()) :=
    (runSource_of_ok hprepare).trans rfl
  have hcommand : Command.ofInput "print(1,2);" = .run "print(1,2);" := by decide
  have hperform : perform host raised false first "print(1,2);" () =
      (("", .crashed (.arity ⟨"tama_print", ["value"], 2⟩)), ()) := by
    rw [perform, hcommand]
    simp only [runCode, hrun]
    rfl
  have hline : isUnfinished (first.code "print(1,2);") = false := by decide
  have hstep : step host raised false first (.line "print(1,2);") () =
      (("", .crashed (.arity ⟨"tama_print", ["value"], 2⟩)), ()) := by
    rw [step_complete host raised false () hline]
    exact hperform
  rw [transcript_of_crashed hstep]
  rfl

end Tama.Repl
