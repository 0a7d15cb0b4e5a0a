import Tama.Proofs.Analysis
import Tama.Proofs.Table
import Tama.Session

/-!
# Sessions and their invariant

A session runs source texts one after the other, each in the environment that the last one left.
What holds of the environment throughout is `Env.Safe`: variables hold values that scripts compute
with, and a function is a standard one or was analyzed. In such an environment a run can only end in
few ways: `Value.Result` are the values, and `Fault.Raised` the faults.

Main statements: binding keeps an environment safe (`Env.Safe.bindVariable` and its like), and what
is looked up in it is safe.
-/

set_option autoImplicit false

namespace Tama

variable {ι σ : Type}

/-! ## Tables -/

/-- All entries of a table have a property. -/
def Table.All {α : Type} (P : Name → α → Prop) (t : Table α) : Prop :=
  ∀ e ∈ t.entries, P e.1 e.2

namespace Table

variable {α : Type} {P : Name → α → Prop}

theorem All.empty : (empty : Table α).All P :=
  nofun

theorem All.insert {t : Table α} (h : t.All P) {key : Name} {a : α}
    (ha : ∀ k, k.canon = key.canon → P k a) : (t.insert key a).All P := by
  intro e he
  rcases mem_put he with ⟨hk, rfl⟩ | he
  · exact ha e.1 hk
  · exact h e he

theorem All.foldl_insert {bindings : List (Name × α)}
    (hb : ∀ b ∈ bindings, ∀ k, k.canon = b.1.canon → P k b.2) :
    ∀ t : Table α, t.All P → (bindings.foldl (fun t b => t.insert b.1 b.2) t).All P := by
  induction bindings with
  | nil => exact fun t h => h
  | cons b rest ih =>
    exact fun t h => ih (fun b hb' => hb b (List.mem_cons_of_mem _ hb')) _
      (h.insert (hb b List.mem_cons_self))

theorem All.ofList {bindings : List (Name × α)}
    (hb : ∀ b ∈ bindings, ∀ k, k.canon = b.1.canon → P k b.2) : (ofList bindings).All P :=
  All.foldl_insert hb _ .empty

theorem All.get? {t : Table α} (h : t.All P) {key : Name} {a : α} (ha : t.get? key = some a) :
    ∃ k, k.canon = key.canon ∧ P k a := by
  obtain ⟨k, hk, hm⟩ := mem_of_find? ha
  exact ⟨k, hk, h _ hm⟩

end Table

/-! ## Environments -/

/-- A standard function under its own name, or a function whose declared number of arguments is that
of its parameters, which are distinct, and whose body comes from the analyzer. -/
inductive Function.Safe : Name → Function ι → Prop
  | standard (b : Builtin) : Safe (.text b.name) (.standard b)
  | defined (name : Name) {params : List String} {body : List Ast} : params.Nodup →
      (defined params body : Function ι).count = .ok (.int params.length) →
      (∃ trees : List Tree, (∀ t ∈ trees, t.IsStatement) ∧
        ∃ room, (Analysis.block room trees).outcome = .ok body) →
      Safe name (.defined params body)

/-- Variables hold values that scripts compute with, and functions are standard or analyzed. -/
structure Env.Safe (env : Env ι) : Prop where
  vars : env.vars.All fun _ v => v.Canonical
  functions : env.functions.All Function.Safe

theorem Function.count_defined (params : List String) (body : List Ast) :
    (defined params body : Function ι).count = .ok (.int params.length) := by
  show Except.ok (Datum.int (params.map Datum.text).length) = _
  rw [List.length_map]

theorem Function.Safe.of_statements (name : Name) {params : List String} {body : List Ast}
    (hp : params.Nodup) (hb : ∀ s ∈ body, s.IsStatement) :
    Safe name (.defined params body : Function ι) :=
  .defined name hp (count_defined params body) (Analysis.exists_block_iff.2 hb)

namespace Env

theorem safe_standard : (standard .empty : Env ι).Safe := by
  refine ⟨.empty, .ofList fun b hb k hk => ?_⟩
  obtain ⟨builtin, -, rfl⟩ := List.mem_map.1 hb
  rw [Name.eq_text_of_canon hk]
  exact .standard builtin

namespace Safe

variable {env : Env ι}

theorem bindVariable (h : env.Safe) (name : Name) {v : Value} (hv : v.Canonical) :
    (env.bindVariable name v).Safe :=
  ⟨h.vars.insert fun _ _ => hv, h.functions⟩

theorem bindFunction (h : env.Safe) (name : Name) {params : List String} {body : List Ast}
    (hp : params.Nodup) (hb : ∀ s ∈ body, s.IsStatement) :
    (env.bindFunction name (.defined params body)).Safe :=
  ⟨h.vars, h.functions.insert fun k _ => .of_statements k hp hb⟩

theorem callScope (h : env.Safe) (params : List Name) {args : List Value}
    (ha : ∀ v ∈ args, v.Canonical) : (env.callScope params args).Safe :=
  ⟨.ofList fun b hb _ _ => ha b.2 (List.of_mem_zip hb).2, h.functions⟩

theorem lookupVariable (h : env.Safe) (name : Name) : (env.lookupVariable name).Canonical := by
  unfold Env.lookupVariable
  split
  · exact .null
  · exact .null
  · rename_i v hv
    obtain ⟨-, -, hc⟩ := h.vars.get? hv
    exact hc

theorem lookupFunction (h : env.Safe) {name : Name} {f : Function ι}
    (hf : env.lookupFunction name = some f) : ∃ k, k.canon = name.canon ∧ Function.Safe k f :=
  h.functions.get? (Option.filter_eq_some_iff.1 hf).1

end Safe
end Env

/-! ## How runs end -/

/-- What a program may return: a value that scripts compute with, the error of an addition of which
not both operands are integers, or the error of a call to a name without a function. -/
inductive Value.Result : Value → Prop
  | value {v : Value} : v.Canonical → Result v
  | rejected (message : String) {x y : Value} : x.Canonical → y.Canonical →
      ¬ (x.kind = .text "IntValue" ∧ y.kind = .text "IntValue") →
      Result (.typeError "Add" message [x.kind, y.kind])
  | undefined (name : String) :
      Result (.evaluatorError ("Undefined function: " ++ name) (.text "FunctionCall"))

/-- What may stop an evaluation, its depth aside: a standard function that wants an integer, a call
of one with the wrong number of arguments, and an integer that is too long to be printed. -/
inductive Fault.Raised : Fault → Prop
  | wantsInteger {b : Builtin} (position : Nat) (got : String) :
      b ∈ [Builtin.subtract, .less, .greater] →
      Raised (.host (.wantsInteger b.name position got))
  | arity {b : Builtin} {given : Nat} : given ≠ b.parameters.length →
      Raised (.arity ⟨"tama_" ++ b.name, b.parameters, given⟩)
  | unprintable : Raised (.digits .writing)

theorem Value.Result.canonical {v : Value} (h : v.Result) (hv : v.isError = false) :
    v.Canonical := by
  cases h with
  | value h => exact h
  | rejected message _ _ _ => cases hv
  | undefined name => cases hv

theorem Value.Result.failed {v : Value} (h : v.Result) : v.failed = .ok v.isError := by
  cases h with
  | value h => rw [h.failed, h.isError]
  | _ => rfl

/-! ## Sessions -/

namespace Session

/-- A text that is run, with the name of its file, and the stack that it is run on. -/
structure Input where
  stack : Stack
  source : String
  filename : String

/-- Runs a text without a trace, in the environment and the host's state that the last one left. A
text that cannot be run to an end leaves the environment as it was. -/
def next (host : Host ι σ) (at' : Env ι × σ) (input : Input) : Env ι × σ :=
  match runSource input.stack host false input.source input.filename at'.1 at'.2 with
  | (⟨_, .ok (_, env)⟩, s) => (env, s)
  | (⟨_, .error _⟩, s) => (at'.1, s)

/-- The environment and the host's state after several texts, from the standard functions on. -/
def after (host : Host ι σ) (inputs : List Input) (s : σ) : Env ι × σ :=
  inputs.foldl (next host) (.standard .empty, s)

end Session
end Tama
