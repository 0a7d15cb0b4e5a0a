import Tama.Env.Listing
import Tama.Proofs.Env.Operations
import Tama.Proofs.Grammar.Listing
import Tama.Proofs.Session.Transparency

/-!
# What a run reports

What is shown of a run is written without a fault, but for an integer that is too long (`Limited`):
a value that a run returns (`format_limited`), and a safe environment (`print_limited`). How a run
in a safe environment ends, with a trace or without, is `runSource_ends`; of these ends, the faults
that `Fault.Unreported` lists are all that no mode of the command line reports.
-/

set_option autoImplicit false

namespace Tama

open Run

variable {ι σ : Type}

/-! ## Writing -/

/-- A text that can be written, unless an integer in it is too long. -/
def Limited {α : Type} (x : Except Fault α) : Prop :=
  Post (fun _ => True) (· = Fault.digits .writing) x

namespace Limited

variable {α β : Type}

theorem ok (a : α) : Limited (.ok a : Except Fault α) :=
  Post.ok trivial

theorem bind {x : Except Fault α} {f : α → Except Fault β} (hx : Limited x)
    (hf : ∀ a, Limited (f a)) : Limited (x.bind f) :=
  Post.bind hx fun a _ => hf a

theorem eq_of_error {f : Fault} (h : Limited (.error f : Except Fault α)) :
    f = .digits .writing := by
  cases h with
  | error h => exact h

theorem write (n : Int) : Limited (liftM (Decimal.write n) : Except Fault String) := by
  rcases Eval.write_cases n with ⟨text, h⟩ | ⟨h, -⟩ <;> rw [h]
  · exact .ok text
  · exact Post.error rfl

theorem display (name : Name) : Limited (liftM name.display : Except Fault String) := by
  cases name with
  | text s => exact .ok s
  | int n =>
    simp only [Name.display, Name.toDatum, Datum.display, Datum.literal]
    exact write n
  | decimal digits places => exact .ok _
  | bool b => exact .ok _
  | null => exact .ok _

end Limited

/-! ## Values -/

theorem Value.Canonical.format_limited {v : Value} (h : v.Canonical) : Limited v.format := by
  cases h with
  | int n => exact Limited.write n
  | bool b => exact .ok _
  | null => exact .ok _

/-- What a run in a safe environment returns: a result, or the error of a program that nests too
deeply. -/
inductive Value.Returned : Value → Prop
  | result {v : Value} : v.Result → Returned v
  | tooDeep (body : List Ast) : Returned (Eval.depthError (.source body))

theorem Value.Returned.failed {v : Value} (h : v.Returned) : v.failed = .ok v.isError := by
  cases h with
  | result h => exact h.failed
  | tooDeep => rfl

theorem Value.Returned.canonical {v : Value} (h : v.Returned) (hv : v.isError = false) :
    v.Canonical := by
  cases h with
  | result h => exact h.canonical hv
  | tooDeep => cases hv

/-- An error is always reported. -/
theorem Value.Returned.formatError {v : Value} (h : v.Returned) (hv : v.isError = true) :
    ∃ text, v.formatError = .ok (.text text) := by
  cases h with
  | result h =>
    cases h with
    | value h => rw [h.isError] at hv; cases hv
    | rejected => exact ⟨_, rfl⟩
    | undefined => exact ⟨_, rfl⟩
  | tooDeep => exact ⟨_, rfl⟩

/-! ## Environments -/

theorem Function.Safe.isRecord {name : Name} {f : Function ι} (h : Safe name f) : f.IsRecord := by
  cases h <;> simp

theorem Function.Safe.exists_defined {name : Name} {f : Function ι} (h : Safe name f)
    (hscripted : f.isScripted) : ∃ params body, f = .defined params body := by
  cases h with
  | standard b => cases hscripted
  | defined _ _ _ _ => exact ⟨_, _, rfl⟩

namespace Env

theorem printEach_limited {α : Type} {render : α → Except Fault String} {items : List α}
    (h : ∀ a ∈ items, Limited (render a)) : Limited (printEach render items).outcome := by
  induction items with
  | nil => exact .ok ()
  | cons a rest ih =>
    rw [printEach, Traced.outcome_bind]
    refine (h a List.mem_cons_self).bind fun text => ?_
    rw [Traced.outcome_bind]
    exact (Limited.ok ()).bind fun _ => ih fun a ha => h a (List.mem_cons_of_mem _ ha)

variable {env : Env ι}

/-- In a safe environment the functions that scripts have defined can be told from the others. -/
theorem definedFunctions_safe (h : env.Safe) : ∃ functions, env.definedFunctions = .ok functions ∧
    ∀ e ∈ functions, ∃ params body, e.2 = .defined params body := by
  have hrecords : ∀ e ∈ env.functions.entries, e.2.IsRecord :=
    fun e he => (h.functions e he).isRecord
  refine ⟨_, definedFunctions_eq_ok_iff.2 ⟨hrecords, rfl⟩, fun e he => ?_⟩
  obtain ⟨hin, hscripted⟩ := List.mem_filter.1 he
  exact (h.functions e hin).exists_defined hscripted

theorem functionLine_limited (name : Name) (params : List String) (body : List Ast) :
    Limited (functionLine name (.defined params body : Function ι)) := by
  refine (Limited.display name).bind fun text => ?_
  rw [Function.arguments_defined]
  show Limited ((Datum.joinItems ", " (params.map .text)).bind _)
  rw [Datum.joinItems_map_text]
  exact .ok _

/-- A safe environment can be listed, unless an integer in it is too long. -/
theorem print_limited (h : env.Safe) : Limited env.print.outcome := by
  obtain ⟨functions, hfunctions, hdefined⟩ := definedFunctions_safe h
  have hvars : Limited (printEach (fun e => variableLine e.1 e.2) env.vars.entries).outcome := by
    refine printEach_limited fun e he => (Limited.display e.1).bind fun name => ?_
    exact (h.vars e he).format_limited.bind fun text => .ok _
  have hfunctionLines :
      Limited (printEach (fun e => functionLine e.1 e.2) functions).outcome := by
    refine printEach_limited fun e he => ?_
    obtain ⟨params, body, hf⟩ := hdefined e he
    rw [hf]
    exact functionLine_limited e.1 params body
  have hlisted : Limited (do
      let functions ← (liftM env.definedFunctions : Traced Fault (List (Name × Function ι)))
      if functions.isEmpty then return ()
      else
        Traced.line "Functions:"
        printEach (fun e => functionLine e.1 e.2) functions : Traced Fault Unit).outcome := by
    rw [hfunctions, Traced.outcome_bind]
    show Limited (if functions.isEmpty then _ else _ : Traced Fault Unit).outcome
    split
    · exact .ok ()
    · rw [Traced.outcome_bind]
      exact (Limited.ok ()).bind fun _ => hfunctionLines
  rw [print, Traced.outcome_bind]
  refine (Limited.ok ()).bind fun _ => ?_
  dsimp only
  split <;> rw [Traced.outcome_bind]
  · exact (Limited.ok ()).bind fun _ => hlisted
  · exact hvars.bind fun _ => hlisted

end Env

/-! ## Runs -/

/-- The faults that no mode of the command line reports: a standard function is called with the
wrong number of arguments, or an integer is too long to be read or written. -/
inductive Fault.Unreported : Fault → Prop
  | arity {b : Builtin} {given : Nat} : given ≠ b.parameters.length →
      Unreported (.arity ⟨"tama_" ++ b.name, b.parameters, given⟩)
  | digits (limit : DigitLimit) : Unreported (.digits limit)

/-- The failures that every mode of the command line reports that runs a text. -/
inductive Failure.Reportable : Failure → Prop
  | syntaxError (e : ParseError) : Reportable (.syntaxError e)
  | semantic (e : SemanticError) : Reportable (.semantic e)
  | host (cause : HostFault) : Reportable (.fault (.host cause))
  | tooDeep : Reportable (.fault .tooDeep)

/-- What may stop a run in a safe environment. -/
inductive Failure.Stopping : Failure → Prop
  | reportable {e : Failure} : e.Reportable → Stopping e
  | unreported {f : Fault} : f.Unreported → Stopping (.fault f)

theorem Fault.Raised.stopping {f : Fault} (h : f.Raised) : (Failure.fault f).Stopping := by
  cases h with
  | wantsInteger => exact .reportable (.host _)
  | arity hg => exact .unreported (.arity hg)
  | unprintable => exact .unreported (.digits _)

namespace Session

variable (stack : Stack) (host : Host ι σ) (source filename : String) {env : Env ι}

theorem runSource_plain_ends (henv : env.Safe) (s : σ) :
    Post (fun r => r.1.Returned ∧ r.2.Safe) Failure.Stopping
      (runSource stack host false source filename env s).1.outcome := by
  refine (runSource_post stack host source filename henv s).mono (fun r h => ⟨?_, h.1⟩)
    fun e h => ?_
  · rcases h.2 with h | ⟨⟨body, h⟩, -⟩
    · exact .result h
    · rw [h]
      exact .tooDeep body
  · cases e with
    | syntaxError e => exact .reportable (.syntaxError e)
    | semantic e => exact .reportable (.semantic e)
    | fault f =>
      rcases h f rfl with ⟨-, hread | rfl⟩ | h
      · obtain ⟨digits, rfl⟩ := Grammar.read_eq_fault hread
        exact .unreported (.digits _)
      · exact .reportable .tooDeep
      · exact h.stopping

theorem runSource_traced_outcome (henv : env.Safe) (s : σ) :
    (runSource stack host true source filename env s).1.outcome =
        (runSource stack host false source filename env s).1.outcome ∨
      (runSource stack host true source filename env s).1.outcome =
        .error (.fault (.digits .writing)) := by
  obtain ⟨calls, hplain⟩ := observeSource_eq stack host false source filename env s []
  obtain ⟨calls', htraced⟩ := observeSource_eq stack host true source filename env s []
  have hfollows := observeSource_follows stack host source filename henv s []
  rw [hplain, htraced] at hfollows
  exact hfollows.alike_or_stopped.imp And.left And.left

/-- How a run in a safe environment ends, with a trace or without. -/
theorem runSource_ends (debug : Bool) (henv : env.Safe) (s : σ) :
    Post (fun r => r.1.Returned ∧ r.2.Safe) Failure.Stopping
      (runSource stack host debug source filename env s).1.outcome := by
  have hplain := runSource_plain_ends stack host source filename henv s
  cases debug with
  | false => exact hplain
  | true =>
    rcases runSource_traced_outcome stack host source filename henv s with h | h
    · rw [h]
      exact hplain
    · rw [h]
      exact .error (.unreported (.digits _))

end Session

/-! ## Lists -/

theorem mapM_ok_of {ε α β : Type} {f : α → Except ε β} {items : List α}
    (h : ∀ a ∈ items, ∃ b, f a = .ok b) : ∃ bs, items.mapM f = .ok bs := by
  induction items with
  | nil => exact ⟨[], rfl⟩
  | cons a rest ih =>
    obtain ⟨b, hb⟩ := h a List.mem_cons_self
    obtain ⟨bs, hbs⟩ := ih fun a ha => h a (List.mem_cons_of_mem _ ha)
    exact ⟨b :: bs, by rw [List.mapM_cons, hb, hbs]; rfl⟩

end Tama
