import Tama.Proofs.Eval.Frame
import Tama.Proofs.Table

/-!
# Environments as pairs of ordered maps

The operations on an environment bind a name in one of its two tables, and an evaluation does
nothing else to it (`eval_performs`). Operations on one table pass the other one by, so a sequence
of them makes of each table what its own bindings make of it (`vars_performAll`,
`functions_performAll`). The functions that scripts have defined are read off the current entries
(`definedFunctions_eq_ok_iff`). The main statement puts this together, for any environment and any
operations (`tables_are_ordered_maps`).
-/

set_option autoImplicit false

namespace Tama

variable {ι σ : Type}

namespace Env

/-! ## Operations -/

/-- An operation on an environment. -/
inductive Operation (ι : Type) where
  | bindVariable (name : Name) (v : Value)
  | bindFunction (name : Name) (f : Function ι)

namespace Operation

/-- The environment after an operation. -/
def perform (env : Env ι) : Operation ι → Env ι
  | bindVariable name v => env.bindVariable name v
  | bindFunction name f => env.bindFunction name f

/-- What an operation binds as a variable. -/
def boundVariable? : Operation ι → Option (Name × Value)
  | bindVariable name v => some (name, v)
  | bindFunction _ _ => none

/-- What an operation binds as a function. -/
def boundFunction? : Operation ι → Option (Name × Function ι)
  | bindVariable _ _ => none
  | bindFunction name f => some (name, f)

/-- An operation binds one of certain names in its table. -/
def Within (V F : Name → Prop) : Operation ι → Prop
  | bindVariable name _ => V name
  | bindFunction name _ => F name

end Operation

/-- The environment after operations that are performed one after the other. -/
def performAll (env : Env ι) (ops : List (Operation ι)) : Env ι :=
  ops.foldl Operation.perform env

/-- The variables that operations bind, in their order. -/
def boundVariables (ops : List (Operation ι)) : List (Name × Value) :=
  ops.filterMap Operation.boundVariable?

/-- The functions that operations bind, in their order. -/
def boundFunctions (ops : List (Operation ι)) : List (Name × Function ι) :=
  ops.filterMap Operation.boundFunction?

theorem performAll_append (env : Env ι) (ops more : List (Operation ι)) :
    env.performAll (ops ++ more) = (env.performAll ops).performAll more :=
  List.foldl_append

theorem vars_performAll (env : Env ι) (ops : List (Operation ι)) :
    (env.performAll ops).vars = env.vars.insertAll (boundVariables ops) := by
  induction ops generalizing env with
  | nil => rfl
  | cons op rest ih =>
    refine (ih (op.perform env)).trans ?_
    cases op <;> rfl

theorem functions_performAll (env : Env ι) (ops : List (Operation ι)) :
    (env.performAll ops).functions = env.functions.insertAll (boundFunctions ops) := by
  induction ops generalizing env with
  | nil => rfl
  | cons op rest ih =>
    refine (ih (op.perform env)).trans ?_
    cases op <;> rfl

/-- What grows is made by operations on the names that may be bound. -/
theorem grows_iff {V F : Name → Prop} {env env' : Env ι} : Grows V F env env' ↔
    ∃ ops : List (Operation ι), (∀ op ∈ ops, op.Within V F) ∧ env' = env.performAll ops := by
  constructor
  · intro h
    induction h with
    | refl => exact ⟨[], nofun, rfl⟩
    | bindVariable v _ hx ih =>
      obtain ⟨ops, hops, rfl⟩ := ih
      refine ⟨ops ++ [.bindVariable _ v], ?_, by rw [performAll_append]; rfl⟩
      exact List.forall_mem_append.2 ⟨hops, List.forall_mem_singleton.2 hx⟩
    | bindFunction f _ hx ih =>
      obtain ⟨ops, hops, rfl⟩ := ih
      refine ⟨ops ++ [.bindFunction _ f], ?_, by rw [performAll_append]; rfl⟩
      exact List.forall_mem_append.2 ⟨hops, List.forall_mem_singleton.2 hx⟩
  · rintro ⟨ops, hops, rfl⟩
    induction ops generalizing env with
    | nil => exact .refl
    | cons op rest ih =>
      obtain ⟨hop, hrest⟩ := List.forall_mem_cons.1 hops
      have hstep : Grows V F env (op.perform env) := by
        cases op with
        | bindVariable x v => exact .bindVariable v .refl hop
        | bindFunction x f => exact .bindFunction f .refl hop
      exact hstep.trans (ih hrest)

end Env

/-! ## Evaluation -/

/-- An evaluation makes its environment by operations, on variables that its node assigns and on
functions that it defines. -/
theorem Eval.eval_performs {invoke : Invoke ι σ} {debug : Bool} {depth : Nat} {n : Ast}
    {env env' : Env ι} {s t : σ} {v : Value}
    (h : Run.Returns (eval invoke debug depth n env) s (v, env') t) :
    ∃ ops : List (Env.Operation ι), (∀ op ∈ ops, op.Within n.Assigns n.Defines) ∧
      env' = env.performAll ops :=
  Env.grows_iff.1 (eval_grows depth n env env' s t v h)

/-! ## Look-up -/

/-- Whether a value is none at all. A variable that a host has bound to such a one reads as if it
were not bound. -/
def Value.isNothing : Value → Bool
  | foreign .null => true
  | _ => false

theorem Env.lookupVariable_eq (env : Env ι) (x : Name) :
    env.lookupVariable x = ((env.vars.get? x).filter fun v => !v.isNothing).getD .null := by
  unfold lookupVariable
  cases env.vars.get? x with
  | none => rfl
  | some v =>
    cases v with
    | foreign d => cases d <;> rfl
    | _ => rfl

/-! ## Script-defined functions -/

section Filter

variable {α ε : Type} {p : α → Except ε Bool} {items : List α}

theorem filterAuxM_eq_ok {q : α → Bool} (h : ∀ a ∈ items, p a = .ok (q a)) (kept : List α) :
    items.filterAuxM p kept = .ok ((items.filter q).reverse ++ kept) := by
  induction items generalizing kept with
  | nil => rfl
  | cons a rest ih =>
    have hrest := ih (fun b hb => h b (List.mem_cons_of_mem a hb)) (cond (q a) (a :: kept) kept)
    rw [List.filterAuxM, h a List.mem_cons_self]
    refine hrest.trans ?_
    cases hq : q a <;> simp [hq]

theorem filterM_eq_ok {q : α → Bool} (h : ∀ a ∈ items, p a = .ok (q a)) :
    items.filterM p = .ok (items.filter q) := by
  rw [List.filterM, filterAuxM_eq_ok h []]
  simp [bind, Except.bind, pure, Except.pure]

/-- A filter that yields a list has tested every item. -/
theorem exists_ok_of_filterAuxM {kept all : List α} (h : items.filterAuxM p kept = .ok all) :
    ∀ a ∈ items, ∃ b, p a = .ok b := by
  induction items generalizing kept with
  | nil => exact nofun
  | cons a rest ih =>
    rw [List.filterAuxM] at h
    cases ha : p a with
    | error e =>
      rw [ha] at h
      cases h
    | ok b =>
      rw [ha] at h
      exact List.forall_mem_cons.2 ⟨⟨b, ha⟩, ih h⟩

theorem exists_ok_of_filterM {kept : List α} (h : items.filterM p = .ok kept) :
    ∀ a ∈ items, ∃ b, p a = .ok b := by
  rw [List.filterM] at h
  cases hall : items.filterAuxM p [] with
  | error e =>
    rw [hall] at h
    cases h
  | ok all => exact exists_ok_of_filterAuxM hall

end Filter

namespace Function

/-- An entry that is a record, as every function that the host or a script makes. -/
def IsRecord (f : Function ι) : Prop :=
  ∃ fields, f.record = .record fields

@[simp] theorem isRecord_standard (b : Builtin) : (standard b : Function ι).IsRecord :=
  ⟨_, rfl⟩

@[simp] theorem isRecord_defined (params : List String) (body : List Ast) :
    (defined params body : Function ι).IsRecord :=
  ⟨_, rfl⟩

/-- Whether the tag of an entry is that of a script-defined function. -/
def isScripted (f : Function ι) : Bool :=
  f.kind == .text "DefinedFunction"

theorem isDefined_of_isRecord {f : Function ι} (h : f.IsRecord) :
    f.isDefined = .ok f.isScripted := by
  obtain ⟨fields, hf⟩ := h
  rw [isDefined, isScripted, kind, hf, Datum.kind, Datum.tag?, Datum.field?, Datum.getOptional]
  cases fields.lookup "type" with
  | none => rfl
  | some d =>
    cases d with
    | text s =>
      by_cases hs : s = "DefinedFunction"
      · subst hs
        rfl
      · have hbeq : (Datum.text s == .text "DefinedFunction") = false :=
          Bool.eq_false_iff.2 fun h => hs (Datum.text.inj (Datum.beq_text.1 h))
        simp [hs, hbeq, bind, Except.bind, pure, Except.pure]
    | _ => rfl

theorem isRecord_of_isDefined {f : Function ι} {b : Bool} (h : f.isDefined = .ok b) :
    f.IsRecord := by
  unfold isDefined at h
  unfold IsRecord
  cases hf : f.record with
  | record fields => exact ⟨fields, rfl⟩
  | _ =>
    rw [hf] at h
    cases h

end Function

namespace Env

theorem definedFunctions_eq_ok_iff {env : Env ι} {listed : List (Name × Function ι)} :
    env.definedFunctions = .ok listed ↔ (∀ e ∈ env.functions.entries, e.2.IsRecord) ∧
      listed = env.functions.entries.filter fun e => e.2.isScripted := by
  constructor
  · intro h
    have hrecords : ∀ e ∈ env.functions.entries, e.2.IsRecord := by
      intro e he
      obtain ⟨b, hb⟩ := exists_ok_of_filterM h e he
      exact Function.isRecord_of_isDefined hb
    have hlisted := filterM_eq_ok fun e he => Function.isDefined_of_isRecord (hrecords e he)
    exact ⟨hrecords, Except.ok.inj (h.symm.trans hlisted)⟩
  · rintro ⟨hrecords, rfl⟩
    exact filterM_eq_ok fun e he => Function.isDefined_of_isRecord (hrecords e he)

/-! ## The main statement -/

/-- **Environments are pairs of ordered maps.** After any operations a variable reads as what it was
last bound to, or else as before, and as null where it is not bound, and so with functions, whatever
the other table holds; each table lists the names that it had, in their order, and then those that
are new, as they were first bound, each once; and the functions that scripts have defined are listed
exactly when all entries are records, and then are those whose entry says so, in that order. -/
theorem tables_are_ordered_maps (env : Env ι) (ops : List (Operation ι)) :
    (∀ x, (env.performAll ops).lookupVariable x =
      ((env.vars.current? (boundVariables ops) x).filter fun v => !v.isNothing).getD .null) ∧
    (∀ x, (env.performAll ops).lookupFunction x =
      (env.functions.current? (boundFunctions ops) x).filter fun f => !f.isNull) ∧
    (env.performAll ops).vars.names =
      env.vars.names ++ env.vars.newNames ((boundVariables ops).map (·.1)) ∧
    (env.performAll ops).functions.names =
      env.functions.names ++ env.functions.newNames ((boundFunctions ops).map (·.1)) ∧
    ((env.performAll ops).vars.names.map Name.canon).Nodup ∧
    ((env.performAll ops).functions.names.map Name.canon).Nodup ∧
    ∀ listed, (env.performAll ops).definedFunctions = .ok listed ↔
      (∀ x f, env.functions.current? (boundFunctions ops) x = some f → f.IsRecord) ∧
      listed = (env.performAll ops).functions.names.filterMap fun x =>
        ((env.functions.current? (boundFunctions ops) x).filter Function.isScripted).map
          (x, ·) := by
  have hvar : ∀ x, (env.performAll ops).vars.get? x =
      env.vars.current? (boundVariables ops) x := by
    intro x
    rw [vars_performAll, Table.get?_insertAll]
  have hfunction : ∀ x, (env.performAll ops).functions.get? x =
      env.functions.current? (boundFunctions ops) x := by
    intro x
    rw [functions_performAll, Table.get?_insertAll]
  refine ⟨fun x => ?_, fun x => ?_, ?_, ?_, Table.nodup_names _, Table.nodup_names _,
    fun listed => ?_⟩
  · rw [lookupVariable_eq, hvar]
  · rw [lookupFunction, hfunction]
  · rw [vars_performAll, Table.names_insertAll]
  · rw [functions_performAll, Table.names_insertAll]
  · rw [definedFunctions_eq_ok_iff, Table.forall_entries_iff, Table.filter_entries]
    simp only [hfunction]

/-- Names bound again, one of them in both tables, and a function of the host redefined. -/
theorem tables_are_ordered_maps_of_rebinding :
    let f : Function Empty := .defined [] []
    let host : Table (Function Empty) :=
      .ofList [("print", .standard .print), ("sub", .standard .subtract)]
    let ops : List (Operation Empty) := [.bindVariable "x" (.int 1), .bindFunction "x" f,
      .bindVariable "y" .null, .bindFunction "print" f, .bindVariable "x" (.int 3)]
    let env := (make .empty host).performAll ops
    env.lookupVariable "x" = .int 3 ∧ env.lookupFunction "x" = some f ∧
      env.vars.names = ["x", "y"] ∧ env.functions.names = ["print", "sub", "x"] ∧
      env.definedFunctions = .ok [("print", f), ("x", f)] := by
  intro f host ops env
  obtain ⟨hvariable, hfunction, hvars, hfunctions, -, -, hdefined⟩ :=
    tables_are_ordered_maps (make .empty host) ops
  have hrecords : ∀ x g, host.current? (boundFunctions ops) x = some g → g.IsRecord := by
    have hentries : (host.insertAll (boundFunctions ops)).entries =
        [(.text "print", f), (.text "sub", .standard .subtract), (.text "x", f)] := rfl
    simp only [← Table.get?_insertAll]
    rw [← Table.forall_entries_iff, hentries]
    simp [f]
  exact ⟨(hvariable "x").trans rfl, (hfunction "x").trans rfl, hvars.trans rfl,
    hfunctions.trans rfl, (hdefined _).2 ⟨hrecords, rfl⟩⟩

end Env

end Tama
