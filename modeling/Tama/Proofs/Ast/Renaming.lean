import Tama.Ast.Form

/-!
# Renaming the variables of a node

A renaming maps variable names to variable names, no two of them to one. It changes the names that a
node reads and assigns, and leaves alone what names functions and what stands in the body of a
function definition. A hand-written node is renamed as a record: field by field, each as its node
takes it. Main statement: renaming a node renames its form (`form_rename`), and that is all that an
evaluator sees of it.
-/

set_option autoImplicit false

namespace Tama

/-- A map of variable names that keeps different names apart. -/
structure Renaming where
  map : String → String
  injective : ∀ {x y : String}, map x = map y → x = y

namespace Renaming

/-- The renaming that changes nothing. -/
protected def id : Renaming :=
  ⟨fun x => x, fun h => h⟩

instance : Inhabited Renaming := ⟨.id⟩

end Renaming

/-! ## Names -/

/-- Renames a name; only texts are renamed. -/
def Name.rename (ρ : Renaming) : Name → Name
  | text s => text (ρ.map s)
  | name => name

/-- Renames the datum of a name. -/
def Datum.renameName (ρ : Renaming) : Datum → Datum
  | text s => text (ρ.map s)
  | d => d

theorem Name.reduce_rename (ρ : Renaming) (digits : Int) (places : Nat) :
    (reduce digits places).rename ρ = reduce digits places := by
  induction places generalizing digits with
  | zero => rfl
  | succ places ih =>
    rw [reduce]
    split
    · exact ih _
    · rfl

theorem Name.canon_rename (ρ : Renaming) (x : Name) : (x.rename ρ).canon = x.canon.rename ρ := by
  cases x with
  | decimal digits places => exact (reduce_rename ρ digits places).symm
  | _ => rfl

theorem Name.rename_inj {ρ : Renaming} {x y : Name} (h : x.rename ρ = y.rename ρ) : x = y := by
  cases x with
  | text s =>
    cases y with
    | text t => exact congrArg text (ρ.injective (Name.text.inj h))
    | _ => cases h
  | _ =>
    cases y with
    | text t => cases h
    | _ => exact h

/-- Renaming takes spellings of one name to spellings of one name, and only those. -/
theorem Name.canon_rename_eq_iff {ρ : Renaming} {x y : Name} :
    (x.rename ρ).canon = (y.rename ρ).canon ↔ x.canon = y.canon := by
  rw [canon_rename, canon_rename]
  exact ⟨rename_inj, fun h => h ▸ rfl⟩

@[simp] theorem Name.rename_id (x : Name) : x.rename .id = x := by
  cases x <;> rfl

theorem Name.map_rename_id (names : List Name) : names.map (rename .id) = names :=
  List.map_id'' rename_id names

@[simp] theorem Datum.renameName_id (d : Datum) : d.renameName .id = d := by
  cases d <;> rfl

theorem Datum.name_renameName (ρ : Renaming) (d : Datum) :
    (d.renameName ρ).name = d.name.map (Name.rename ρ) := by
  cases d <;> rfl

/-! ## Hand-written nodes -/

namespace Datum

/-- Changes each field of a record; other data has none. -/
def mapFields (g : String → Datum → Datum) : Datum → Datum
  | record fields => record (fields.map fun f => (f.1, g f.1 f.2))
  | d => d

theorem lookup_map_field (g : String → Datum → Datum) (fields : List (String × Datum))
    (key : String) : (fields.map fun f => (f.1, g f.1 f.2)).lookup key =
      (fields.lookup key).map (g key) := by
  induction fields with
  | nil => rfl
  | cons f rest ih =>
    rw [List.map_cons, List.lookup_cons, List.lookup_cons, ih]
    by_cases h : key = f.1
    · subst h
      simp
    · simp [beq_false_of_ne h]

theorem field?_mapFields (g : String → Datum → Datum) (d : Datum) (key : String) :
    (d.mapFields g).field? key = (d.field? key).map (g key) := by
  cases d with
  | record fields => exact lookup_map_field g fields key
  | _ => rfl

theorem get_mapFields (g : String → Datum → Datum) (d : Datum) (key : String) :
    (d.mapFields g).get key = (d.get key).map (g key) := by
  cases d with
  | record fields =>
    rw [mapFields, get, lookup_map_field, get]
    cases fields.lookup key <;> rfl
  | _ => rfl

end Datum

/-- What a field of a hand-written node is to the evaluator, as far as renaming goes. -/
inductive Ast.Role where
  | variable
  | child
  | children
  | other
  deriving DecidableEq

/-- What a field is in a node of some type. -/
def Ast.Role.of (kind : Datum) (key : String) : Ast.Role :=
  match kind, key with
  | .text "Variable", "name" | .text "Assignment", "name" => .variable
  | .text "Assignment", "expression" => .child
  | .text "Add", "left" | .text "Add", "right" => .child
  | .text "If", "condition" => .child
  | .text "If", "statements" | .text "Source", "statements" => .children
  | .text "FunctionCall", "arguments" => .children
  | _, _ => .other

namespace Datum

mutual

/-- Renames the variables of a hand-written node. -/
def renameNode (ρ : Renaming) : Datum → Datum
  | record fields => record (renameFields ρ (record fields).kind fields)
  | d => d

/-- Renames the variables of several hand-written nodes. -/
def renameNodes (ρ : Renaming) : List Datum → List Datum
  | [] => []
  | d :: rest => renameNode ρ d :: renameNodes ρ rest

/-- Renames the variables in the fields of a node of some type. -/
def renameFields (ρ : Renaming) (kind : Datum) : List (String × Datum) → List (String × Datum)
  | [] => []
  | (key, list items) :: rest =>
    (key, list (if Ast.Role.of kind key = .children then renameNodes ρ items else items)) ::
      renameFields ρ kind rest
  | (key, d) :: rest =>
    (key, match Ast.Role.of kind key with
      | .variable => renameName ρ d
      | .child => renameNode ρ d
      | .children | .other => d) :: renameFields ρ kind rest

end

/-- Renames the variables of the nodes in a list of nodes; the items of other data are texts. -/
def renameItems (ρ : Renaming) : Datum → Datum
  | list items => list (renameNodes ρ items)
  | d => d

/-- Renames the variables in a field. -/
def renameField (ρ : Renaming) : Ast.Role → Datum → Datum
  | .variable, d => renameName ρ d
  | .child, d => renameNode ρ d
  | .children, d => renameItems ρ d
  | .other, d => d

theorem renameNodes_eq_map (ρ : Renaming) (data : List Datum) :
    renameNodes ρ data = data.map (renameNode ρ) := by
  induction data with
  | nil => rfl
  | cons d rest ih => simp only [renameNodes, List.map_cons, ih]

theorem renameFields_eq_map (ρ : Renaming) (kind : Datum) (fields : List (String × Datum)) :
    renameFields ρ kind fields =
      fields.map fun f => (f.1, renameField ρ (Ast.Role.of kind f.1) f.2) := by
  induction fields with
  | nil => rfl
  | cons f rest ih =>
    obtain ⟨key, d⟩ := f
    rw [List.map_cons, ← ih]
    cases d with
    | list items =>
      rw [renameFields]
      cases Ast.Role.of kind key <;> simp [renameField, renameName, renameNode, renameItems]
    | _ =>
      rw [renameFields]
      · cases Ast.Role.of kind key <;> rfl
      · nofun

theorem renameNode_eq_mapFields (ρ : Renaming) (d : Datum) :
    renameNode ρ d = d.mapFields fun key => renameField ρ (Ast.Role.of d.kind key) := by
  cases d with
  | record fields => rw [renameNode, renameFields_eq_map, mapFields]
  | _ => rfl

/-- The type of a node is none of what is renamed. -/
theorem role_type (kind : Datum) : Ast.Role.of kind "type" = .other := by
  unfold Ast.Role.of
  split <;> simp_all

@[simp] theorem kind_renameNode (ρ : Renaming) (d : Datum) : (renameNode ρ d).kind = d.kind := by
  rw [renameNode_eq_mapFields, kind, tag?, field?_mapFields, role_type, kind, tag?]
  cases d.field? "type" <;> rfl

theorem get_renameNode (ρ : Renaming) {d kind : Datum} {key : String} {role : Ast.Role}
    (hkind : d.kind = kind) (hrole : Ast.Role.of kind key = role) :
    (renameNode ρ d).get key = (d.get key).map (renameField ρ role) := by
  rw [renameNode_eq_mapFields, get_mapFields, hkind, hrole]

theorem get_renameNode_of_other (ρ : Renaming) {d kind : Datum} {key : String}
    (hkind : d.kind = kind) (hrole : Ast.Role.of kind key = .other) :
    (renameNode ρ d).get key = d.get key := by
  rw [get_renameNode ρ hkind hrole]
  cases d.get key <;> rfl

theorem items_renameItems (ρ : Renaming) (d : Datum) :
    (renameItems ρ d).items = d.items.map (List.map (renameNode ρ)) := by
  cases d with
  | list items =>
    rw [renameItems, renameNodes_eq_map]
    rfl
  | text s => simp [renameItems, items, items?, Except.map, renameNode]
  | record fields => simp [renameItems, items, items?, Except.map, renameNode]
  | _ => rfl

mutual

@[simp] theorem renameNode_id : ∀ d : Datum, d.renameNode .id = d
  | record fields => by rw [renameNode, renameFields_id]
  | null | bool _ | int _ | decimal _ _ | text _ | list _ => rfl

theorem renameNodes_id : ∀ data : List Datum, renameNodes .id data = data
  | [] => rfl
  | d :: rest => by rw [renameNodes, renameNode_id d, renameNodes_id rest]

theorem renameFields_id (kind : Datum) : ∀ fields : List (String × Datum),
    renameFields .id kind fields = fields
  | [] => rfl
  | (key, list items) :: rest => by
    rw [renameFields, renameNodes_id items, renameFields_id kind rest, ite_self]
  | (key, record fields) :: rest => by
    rw [renameFields, renameNode_id (record fields), renameFields_id kind rest]
    · cases Ast.Role.of kind key <;> rfl
    · nofun
  | (key, null) :: rest | (key, bool _) :: rest | (key, int _) :: rest | (key, decimal _ _) :: rest
  | (key, text _) :: rest => by
    rw [renameFields, renameFields_id kind rest]
    · cases Ast.Role.of kind key <;> rfl
    · nofun

end

end Datum

/-! ## Nodes -/

namespace Ast

mutual

/-- Renames the variables of a node: the names that it reads and assigns, outside the bodies of
function definitions. -/
def rename (ρ : Renaming) : Ast → Ast
  | source body => source (renameAll ρ body)
  | int n => int n
  | bool b => bool b
  | null => null
  | var x => var (ρ.map x)
  | assignment x e => assignment (ρ.map x) (rename ρ e)
  | add l r => add (rename ρ l) (rename ρ r)
  | conditional c body => conditional (rename ρ c) (renameAll ρ body)
  | definition f params body => definition f params body
  | call f args => call f (renameAll ρ args)
  | written d => written (d.renameNode ρ)

/-- Renames the variables of several nodes. -/
def renameAll (ρ : Renaming) : List Ast → List Ast
  | [] => []
  | n :: rest => rename ρ n :: renameAll ρ rest

end

theorem renameAll_eq_map (ρ : Renaming) (nodes : List Ast) :
    renameAll ρ nodes = nodes.map (rename ρ) := by
  induction nodes with
  | nil => rfl
  | cons n rest ih => simp only [renameAll, List.map_cons, ih]

mutual

@[simp] theorem rename_id : ∀ n : Ast, n.rename .id = n
  | source body => by rw [rename, renameAll_id body]
  | assignment x e => by
    rw [rename, rename_id e]
    rfl
  | add l r => by rw [rename, rename_id l, rename_id r]
  | conditional c body => by rw [rename, rename_id c, renameAll_id body]
  | call f args => by rw [rename, renameAll_id args]
  | written d => by rw [rename, Datum.renameNode_id]
  | int _ | bool _ | null | var _ | definition _ _ _ => rfl

theorem renameAll_id : ∀ nodes : List Ast, renameAll .id nodes = nodes
  | [] => rfl
  | n :: rest => by rw [renameAll, rename_id n, renameAll_id rest]

end

theorem map_rename_id (nodes : List Ast) : nodes.map (rename .id) = nodes :=
  List.map_id'' rename_id nodes

@[simp] theorem kind_rename (ρ : Renaming) (n : Ast) : (n.rename ρ).kind = n.kind := by
  cases n with
  | written d => exact d.kind_renameNode ρ
  | _ => rfl

/-! ## Forms -/

/-- Renames what a form reads and assigns, and its children. -/
def Form.rename (ρ : Renaming) : Form → Form
  | source body => source (body.map (·.map (Ast.rename ρ)))
  | literal v => literal v
  | var x => var (x.map (Name.rename ρ))
  | assignment x e => assignment (x.map (Name.rename ρ)) (e.map (Ast.rename ρ))
  | add l r => add (l.map (Ast.rename ρ)) (r.map (Ast.rename ρ))
  | conditional c body =>
    conditional (c.map (Ast.rename ρ)) (body.map (·.map (Ast.rename ρ)))
  | definition parts => definition parts
  | call f args => call f (args.map (·.map (Ast.rename ρ)))
  | unknown => unknown

/-- The nodes in a field are renamed one by one. -/
theorem map_written_renameItems (ρ : Renaming) (d : Datum) :
    (do return (← (d.renameItems ρ).items).map written : Except Fault (List Ast)) =
      (do return (← d.items).map written : Except Fault (List Ast)).map (·.map (rename ρ)) := by
  rw [Datum.items_renameItems]
  cases h : d.items <;>
    simp [bind, Except.bind, Except.map, pure, Except.pure, Function.comp_def, rename]

section

variable (ρ : Renaming) {d kind : Datum} {field : String} (hkind : d.kind = kind)

include hkind

theorem Form.name_renameNode (hrole : Role.of kind "name" = .variable) :
    name (d.renameNode ρ) = (name d).map (Name.rename ρ) := by
  rw [name, Datum.get_renameNode ρ hkind hrole, name]
  cases d.get "name" with
  | error f => rfl
  | ok x => exact x.name_renameName ρ

theorem Form.child_renameNode (hrole : Role.of kind field = .child) :
    child (d.renameNode ρ) field = (child d field).map (Ast.rename ρ) := by
  rw [child, Datum.get_renameNode ρ hkind hrole, child]
  cases d.get field <;> rfl

theorem Form.children_renameNode (hrole : Role.of kind field = .children) :
    children (d.renameNode ρ) field = (children d field).map (·.map (Ast.rename ρ)) := by
  rw [children, Datum.get_renameNode ρ hkind hrole, children]
  cases d.get field with
  | error f => rfl
  | ok x => exact map_written_renameItems ρ x

theorem Form.payload_renameNode (type : String) (hrole : Role.of kind "value" = .other) :
    payload type (d.renameNode ρ) = payload type d := by
  rw [payload, Datum.get_renameNode_of_other ρ hkind hrole, payload]

end

theorem Form.ofDatum_renameNode (ρ : Renaming) (d : Datum) :
    ofDatum (d.renameNode ρ) = (ofDatum d).rename ρ := by
  unfold ofDatum
  rw [Datum.kind_renameNode]
  split <;> rename_i hkind
  case h_1 => exact congrArg source (children_renameNode ρ hkind rfl)
  case h_2 => exact congrArg literal (payload_renameNode ρ hkind "IntValue" rfl)
  case h_3 => exact congrArg literal (payload_renameNode ρ hkind "BoolValue" rfl)
  case h_4 => rfl
  case h_5 => exact congrArg var (name_renameNode ρ hkind rfl)
  case h_6 =>
    rw [name_renameNode ρ hkind rfl, child_renameNode ρ hkind rfl]
    rfl
  case h_7 =>
    rw [child_renameNode ρ hkind rfl, child_renameNode ρ hkind rfl]
    rfl
  case h_8 =>
    rw [child_renameNode ρ hkind rfl, children_renameNode ρ hkind rfl]
    rfl
  case h_9 =>
    have hother : ∀ key, Role.of (.text "FunctionDefinition") key = .other →
        (d.renameNode ρ).get key = d.get key :=
      fun key => Datum.get_renameNode_of_other ρ hkind
    rw [parts, hother "name" rfl, hother "arguments" rfl, hother "statements" rfl]
    rfl
  case h_10 =>
    rw [name, Datum.get_renameNode_of_other ρ hkind rfl, children_renameNode ρ hkind rfl]
    rfl
  case h_11 => rfl

/-- Renaming a node renames its form. -/
theorem form_rename (ρ : Renaming) (n : Ast) : (n.rename ρ).form = n.form.rename ρ := by
  cases n with
  | written d => exact Form.ofDatum_renameNode ρ d
  | _ => simp [rename, form, Form.rename, renameAll_eq_map, Except.map, Name.rename]

end Ast
end Tama
