import Mathlib.Data.List.Nodup
import Tama.Proofs.Ast.Renaming
import Tama.Proofs.Eval.Noninterference

/-!
# Renamed functions and environments

Renaming a function renames its parameters and the variables of its body, and renaming a table its
keys. `Env.Renamed` relates two environments: the second has the variables of the first under new
names, and one function may be renamed in it. Every operation on environments keeps them so related,
look-ups see no difference, and at the scope of a call one renaming gives way to another.
-/

set_option autoImplicit false

namespace Tama

variable {ι : Type}

/-! ## Functions -/

/-- Renames the parameters of a function. Parameters that are no list are listed. -/
def Datum.renameParams (ρ : Renaming) (d : Datum) : Datum :=
  match d.items? with
  | some items => list (items.map (renameName ρ))
  | none => d

theorem Datum.names_renameParams (ρ : Renaming) (d : Datum) (count : Nat) :
    (d.renameParams ρ).names count = (d.names count).map (List.map (Name.rename ρ)) := by
  have hmap : ∀ data : List Datum, (data.map (renameName ρ)).mapM Datum.name =
      (data.mapM Datum.name).map (List.map (Name.rename ρ)) := by
    intro data
    induction data with
    | nil => rfl
    | cons d rest ih =>
      rw [List.map_cons, List.mapM_cons, List.mapM_cons, ih, name_renameName]
      cases d.name with
      | error f => rfl
      | ok x => cases rest.mapM Datum.name <;> rfl
  cases hitems : d.items? with
  | none =>
    rw [renameParams, hitems]
    simp only [names, items, hitems]
    rfl
  | some items =>
    rw [renameParams, hitems]
    simp only [names, Datum.items, hitems]
    show ((items.map (renameName ρ)).take count).mapM Datum.name = _
    rw [← List.map_take, hmap]
    rfl

namespace Function

/-- What becomes of a field when a function is renamed. -/
def renameField (ρ : Renaming) (key : String) (d : Datum) : Datum :=
  if key = "arguments" then d.renameParams ρ
  else if key = "statements" then d.renameItems ρ
  else d

/-- Renames the parameters of a function and the variables of its body. -/
def rename (ρ : Renaming) : Function ι → Function ι
  | standard b => standard b
  | defined params body => defined (params.map ρ.map) (body.map (Ast.rename ρ))
  | written d callback => written (d.mapFields (renameField ρ)) callback

/-- What a call sees of a function and of its renaming. -/
structure Renames (ρ : Renaming) (f g : Function ι) : Prop where
  kind : g.kind = f.kind
  target : g.target = f.target
  count : g.count = f.count
  declared : Eval.declaredText g = Eval.declaredText f
  arguments : ∃ h : Datum → Datum, g.arguments = f.arguments.map h ∧
    ∀ d n, (h d).names n = (d.names n).map (List.map (Name.rename ρ))
  body : g.body = f.body.map (List.map (Ast.rename ρ))

/-- A function is what becomes of it when nothing is renamed. -/
theorem Renames.refl (f : Function ι) : Renames .id f f := by
  refine ⟨rfl, rfl, rfl, rfl, ⟨id, ?_, fun d n => ?_⟩, ?_⟩
  · cases f.arguments <;> rfl
  · cases h : d.names n <;> simp [h, Except.map, Name.map_rename_id]
  · cases f.body <;> simp [Except.map, Ast.map_rename_id]

section

variable (ρ : Renaming) (f : Function ι)

@[simp] theorem isNull_rename : (f.rename ρ).isNull = f.isNull := by
  cases f with
  | written d callback => cases d <;> rfl
  | _ => rfl

theorem arguments_rename : (f.rename ρ).arguments = f.arguments.map (Datum.renameParams ρ) := by
  cases f with
  | standard b => rfl
  | defined params body =>
    simp [rename, Datum.renameParams, Datum.items?, Datum.renameName, Except.map, Function.comp_def]
  | written d callback => exact Datum.get_mapFields _ d "arguments"

theorem body_rename : (f.rename ρ).body = f.body.map (List.map (Ast.rename ρ)) := by
  cases f with
  | standard b => rfl
  | defined params body => rfl
  | written d callback =>
    show (do return (← (← (d.mapFields (renameField ρ)).get "statements").items).map Ast.written) =
      Except.map _ (do return (← (← d.get "statements").items).map Ast.written)
    rw [Datum.get_mapFields]
    cases d.get "statements" with
    | error e => rfl
    | ok x => exact Ast.map_written_renameItems ρ x

/-- A call sees of a renamed function what it sees of the function, renamed. -/
theorem renames_rename : Renames ρ f (f.rename ρ) := by
  have harguments : ∃ h : Datum → Datum, (f.rename ρ).arguments = f.arguments.map h ∧
      ∀ d n, (h d).names n = (d.names n).map (List.map (Name.rename ρ)) :=
    ⟨_, f.arguments_rename ρ, Datum.names_renameParams ρ⟩
  have hbody := f.body_rename ρ
  cases f with
  | standard b => exact ⟨rfl, rfl, rfl, rfl, harguments, hbody⟩
  | defined params body =>
    have hlength : (params.map ρ.map).length = params.length := by simp
    refine ⟨rfl, rfl, ?_, ?_, harguments, hbody⟩
    · simp [rename, count, record, definedRecord, Datum.get, List.lookup_cons]
    · simp [rename, Eval.declaredText]
  | written d callback =>
    have hfield : ∀ key : String, key ≠ "arguments" → key ≠ "statements" →
        renameField ρ key = id := by
      intro key ha hs
      funext d
      simp [renameField, ha, hs]
    have hcount : (d.mapFields (renameField ρ)).get "arguments_count" =
        d.get "arguments_count" := by
      rw [Datum.get_mapFields, hfield _ (by decide) (by decide)]
      cases d.get "arguments_count" <;> rfl
    have hkind : (d.mapFields (renameField ρ)).kind = d.kind := by
      rw [Datum.kind, Datum.kind, Datum.tag?, Datum.tag?, Datum.field?_mapFields,
        hfield _ (by decide) (by decide), Option.map_id_fun, id]
    have htarget : (d.mapFields (renameField ρ)).field? "function" = d.field? "function" := by
      rw [Datum.field?_mapFields, hfield _ (by decide) (by decide), Option.map_id_fun, id]
    refine ⟨hkind, ?_, hcount, ?_, harguments, hbody⟩
    · simp only [rename, target, hook, record, htarget]
    · simp only [rename, Eval.declaredText, count, record, hcount]

end

end Function

/-! ## Tables -/

namespace Table

variable {α : Type}

/-- Renames the keys of a table. -/
def rename (ρ : Renaming) (t : Table α) : Table α :=
  ⟨t.entries.map fun e => (e.1.rename ρ, e.2), by
    have hkeys : (t.entries.map fun e => (e.1.rename ρ, e.2)).map (·.1.canon) =
        (t.entries.map (·.1.canon)).map (Name.rename ρ) := by
      simp [Name.canon_rename]
    rw [hkeys]
    exact t.nodup.map fun _ _ => Name.rename_inj⟩

theorem ext_entries {t u : Table α} (h : t.entries = u.entries) : t = u := by
  cases t
  cases u
  cases h
  rfl

@[simp] theorem rename_id (t : Table α) : t.rename .id = t :=
  ext_entries (by simp [rename])

theorem get?_rename (ρ : Renaming) (t : Table α) (key : Name) :
    (t.rename ρ).get? (key.rename ρ) = t.get? key := by
  show find? (key.rename ρ) (t.entries.map fun e => (e.1.rename ρ, e.2)) = find? key t.entries
  induction t.entries with
  | nil => rfl
  | cons e rest ih =>
    obtain ⟨k, a⟩ := e
    rw [List.map_cons, find?, find?, ih]
    simp only [Name.canon_rename_eq_iff]

theorem insert_rename (ρ : Renaming) (t : Table α) (key : Name) (a : α) :
    (t.rename ρ).insert (key.rename ρ) a = (t.insert key a).rename ρ := by
  refine ext_entries ?_
  show put (key.rename ρ) a (t.entries.map fun e => (e.1.rename ρ, e.2)) =
    (put key a t.entries).map fun e => (e.1.rename ρ, e.2)
  induction t.entries with
  | nil => rfl
  | cons e rest ih =>
    obtain ⟨k, b⟩ := e
    rw [List.map_cons, put, put]
    simp only [Name.canon_rename_eq_iff]
    split
    · rfl
    · rw [ih, List.map_cons]

theorem ofList_rename (ρ : Renaming) (names : List Name) (values : List α) :
    ofList ((names.map (Name.rename ρ)).zip values) = (ofList (names.zip values)).rename ρ := by
  have hfold : ∀ (bindings : List (Name × α)) (t : Table α),
      (bindings.map fun b => (b.1.rename ρ, b.2)).foldl (fun t b => t.insert b.1 b.2) (t.rename ρ) =
        (bindings.foldl (fun t b => t.insert b.1 b.2) t).rename ρ := by
    intro bindings
    induction bindings with
    | nil => exact fun t => rfl
    | cons b rest ih =>
      intro t
      rw [List.map_cons, List.foldl_cons, List.foldl_cons, insert_rename, ih]
  have hzip : (names.map (Name.rename ρ)).zip values =
      (names.zip values).map fun b => (b.1.rename ρ, b.2) := by
    rw [List.zip_map_left]
    rfl
  rw [hzip]
  exact hfold (names.zip values) empty

section

variable {key other : Name} {a b c : α}

/-- An entry put in the place of another one leaves no trace of it. -/
theorem insert_insert_of_eq {t : Table α} (h : t.get? key = some a)
    (hk : other.canon = key.canon) : (t.insert key b).insert other c = t.insert other c := by
  refine ext_entries ?_
  show put other c (put key b t.entries) = put other c t.entries
  replace h : find? key t.entries = some a := h
  generalize t.entries = entries at h
  induction entries with
  | nil => cases h
  | cons e rest ih =>
    obtain ⟨k, d⟩ := e
    rw [find?] at h
    by_cases he : k.canon = key.canon
    · simp only [put, he, if_true, hk]
    · rw [if_neg he] at h
      simp only [put, he, if_false, hk, ih h]

/-- An entry is put in its place before or after another name is bound. -/
theorem insert_insert_of_ne {t : Table α} (h : t.get? key = some a)
    (hk : other.canon ≠ key.canon) :
    (t.insert key b).insert other c = (t.insert other c).insert key b := by
  refine ext_entries ?_
  show put other c (put key b t.entries) = put key b (put other c t.entries)
  replace h : find? key t.entries = some a := h
  generalize t.entries = entries at h
  induction entries with
  | nil => cases h
  | cons e rest ih =>
    obtain ⟨k, d⟩ := e
    rw [find?] at h
    by_cases he : k.canon = key.canon
    · simp [put, he, Ne.symm hk]
    · rw [if_neg he] at h
      by_cases ho : k.canon = other.canon
      · simp [put, ho, hk]
      · simp only [put, he, ho, if_false, ih h]

end

end Table

/-! ## Environments -/

/-- Renames the variable that was bound. -/
def Binding.rename (ρ : Renaming) : Binding → Binding
  | .variable x => .variable (x.rename ρ)
  | .function x => .function x

namespace Env

/-- Renames the variables of an environment. -/
def rename (ρ : Renaming) (env : Env ι) : Env ι :=
  ⟨env.vars.rename ρ, env.functions, env.history.map (Binding.rename ρ)⟩

/-- Exchanges an entry of the functions table, as if it had always been there. -/
def replaceFunction (env : Env ι) (x : Name) (f : Function ι) : Env ι :=
  { env with functions := env.functions.insert x f }

@[simp] theorem rename_id (env : Env ι) : env.rename .id = env := by
  have hbinding : ∀ b : Binding, b.rename .id = b := by
    intro b
    cases b <;> simp [Binding.rename]
  simp [rename, List.map_id'' hbinding]

/-- The second environment has the variables of the first one, renamed with `ρ`, and its functions,
among which `f` may be renamed with `r`. -/
inductive Renamed (x : Name) (f : Function ι) (r ρ : Renaming) (env : Env ι) : Env ι → Prop
  | same : Renamed x f r ρ env (env.rename ρ)
  | swapped : env.functions.get? x = some f →
      Renamed x f r ρ env ((env.rename ρ).replaceFunction x (f.rename r))

namespace Renamed

variable {x : Name} {f : Function ι} {r ρ : Renaming} {e₁ e₂ : Env ι}

theorem vars (h : Renamed x f r ρ e₁ e₂) : e₂.vars = e₁.vars.rename ρ := by
  cases h <;> rfl

/-- Where no variable is renamed, the function is all that can differ. -/
theorem eq_or_eq (h : Renamed x f r .id e₁ e₂) :
    e₂ = e₁ ∨ e₁.functions.get? x = some f ∧ e₂ = e₁.replaceFunction x (f.rename r) := by
  cases h with
  | same => exact .inl e₁.rename_id
  | swapped hf => exact .inr ⟨hf, congrArg (·.replaceFunction x (f.rename r)) e₁.rename_id⟩

theorem lookupVariable (h : Renamed x f r ρ e₁ e₂) (y : Name) :
    e₂.lookupVariable (y.rename ρ) = e₁.lookupVariable y := by
  rw [Env.lookupVariable, h.vars, Table.get?_rename]
  rfl

theorem lookupFunction (h : Renamed x f r ρ e₁ e₂) (y : Name) :
    e₂.lookupFunction y = e₁.lookupFunction y ∨
      e₁.lookupFunction y = some f ∧ e₂.lookupFunction y = some (f.rename r) := by
  cases h with
  | same => exact .inl rfl
  | swapped hf =>
    by_cases hy : y.canon = x.canon
    · -- an entry that counts as none does so after the renaming
      have h₁ : e₁.lookupFunction y = (some f).filter fun f => !f.isNull := by
        rw [Env.lookupFunction, Table.get?_congr _ hy, hf]
      have h₂ : ((e₁.rename ρ).replaceFunction x (f.rename r)).lookupFunction y =
          (some (f.rename r)).filter fun f => !f.isNull := by
        rw [Env.lookupFunction, replaceFunction, Table.get?_congr _ hy, Table.get?_insert_self]
      cases hnull : f.isNull with
      | true => simp [h₁, h₂, Option.filter, hnull]
      | false => simp [h₁, h₂, Option.filter, hnull]
    · refine .inl ?_
      rw [Env.lookupFunction, replaceFunction, Table.get?_insert_of_ne _ hy]
      rfl

theorem bindVariable (h : Renamed x f r ρ e₁ e₂) (y : Name) (v : Value) :
    Renamed x f r ρ (e₁.bindVariable y v) (e₂.bindVariable (y.rename ρ) v) := by
  have hrename : (e₁.rename ρ).bindVariable (y.rename ρ) v = (e₁.bindVariable y v).rename ρ := by
    simp [Env.bindVariable, rename, Table.insert_rename, Name.canon_rename, Binding.rename]
  cases h with
  | same =>
    rw [hrename]
    exact .same
  | swapped hf =>
    have hswap : ((e₁.rename ρ).replaceFunction x (f.rename r)).bindVariable (y.rename ρ) v =
        ((e₁.rename ρ).bindVariable (y.rename ρ) v).replaceFunction x (f.rename r) := rfl
    rw [hswap, hrename]
    exact .swapped hf

theorem bindFunction (h : Renamed x f r ρ e₁ e₂) (y : Name) (g : Function ι) :
    Renamed x f r ρ (e₁.bindFunction y g) (e₂.bindFunction y g) := by
  have hrename : (e₁.rename ρ).bindFunction y g = (e₁.bindFunction y g).rename ρ := rfl
  cases h with
  | same =>
    rw [hrename]
    exact .same
  | swapped hf =>
    by_cases hy : y.canon = x.canon
    · -- the function itself is redefined
      have hgone : ((e₁.rename ρ).replaceFunction x (f.rename r)).bindFunction y g =
          (e₁.rename ρ).bindFunction y g := by
        simp only [Env.bindFunction, replaceFunction]
        rw [Table.insert_insert_of_eq (t := (e₁.rename ρ).functions) hf hy]
      rw [hgone, hrename]
      exact .same
    · have hswap : ((e₁.rename ρ).replaceFunction x (f.rename r)).bindFunction y g =
          ((e₁.rename ρ).bindFunction y g).replaceFunction x (f.rename r) := by
        simp only [Env.bindFunction, replaceFunction]
        rw [Table.insert_insert_of_ne (t := (e₁.rename ρ).functions) hf hy]
      have hget : (e₁.bindFunction y g).functions.get? x = some f := by
        rw [Env.bindFunction, Table.get?_insert_of_ne _ (Ne.symm hy), hf]
      rw [hswap, hrename]
      exact .swapped hget

/-- In the scope of a call another renaming is in force. -/
theorem callScope (h : Renamed x f r ρ e₁ e₂) (ρ' : Renaming) (params : List Name)
    (args : List Value) : Renamed x f r ρ' (e₁.callScope params args)
      (e₂.callScope (params.map (Name.rename ρ')) args) := by
  have hscope : ∀ functions : Table (Function ι),
      make (.ofList ((params.map (Name.rename ρ')).zip args)) functions =
        (make (.ofList (params.zip args)) functions).rename ρ' := by
    intro functions
    rw [Table.ofList_rename]
    rfl
  cases h with
  | same =>
    have hsame : (e₁.rename ρ).callScope (params.map (Name.rename ρ')) args =
        (e₁.callScope params args).rename ρ' := hscope e₁.functions
    rw [hsame]
    exact .same
  | swapped hf =>
    have hswap : ((e₁.rename ρ).replaceFunction x (f.rename r)).callScope
          (params.map (Name.rename ρ')) args =
        ((e₁.callScope params args).rename ρ').replaceFunction x (f.rename r) :=
      hscope (e₁.functions.insert x (f.rename r))
    rw [hswap]
    exact .swapped hf

end Renamed
end Env
end Tama
