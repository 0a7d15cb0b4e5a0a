import Tama.Name

/-!
# Tables

A table maps names to entries and remembers the order in which the names came. Binding a name that
is already there keeps its place and its spelling. Main statements: `get?_insert_self` and
`get?_insert_of_ne` for look-ups, `keys_insert` for the order; that no name occurs twice is part of
the type.
-/

set_option autoImplicit false

namespace Tama

/-- A table with entries in `α`. -/
structure Table (α : Type) where
  entries : List (Name × α)
  /-- Each name occurs once, in one of its spellings. -/
  nodup : (entries.map (·.1.canon)).Nodup

namespace Table

variable {α : Type}

/-- The names, in the order in which they came. -/
def keys (t : Table α) : List Name :=
  t.entries.map (·.1.canon)

/-- The entry of a name in a list of entries. -/
def find? (key : Name) : List (Name × α) → Option α
  | [] => none
  | (k, a) :: rest => if k.canon = key.canon then some a else find? key rest

/-- The entry of a name. -/
def get? (t : Table α) (key : Name) : Option α :=
  find? key t.entries

/-- The table without entries. -/
def empty : Table α :=
  ⟨[], List.nodup_nil⟩

instance : Inhabited (Table α) := ⟨empty⟩

/-- Whether a table has no entries. -/
def isEmpty (t : Table α) : Bool :=
  t.entries.isEmpty

/-! ## Insertion -/

/-- Puts an entry in the place of its name, or at the end when the name is new. -/
def put (key : Name) (a : α) : List (Name × α) → List (Name × α)
  | [] => [(key, a)]
  | (k, b) :: rest => if k.canon = key.canon then (k, a) :: rest else (k, b) :: put key a rest

theorem map_fst_put (key : Name) (a : α) (es : List (Name × α)) :
    (put key a es).map (·.1) =
      if key.canon ∈ es.map (·.1.canon) then es.map (·.1) else es.map (·.1) ++ [key] := by
  induction es with
  | nil => simp [put]
  | cons e rest ih =>
    obtain ⟨k, b⟩ := e
    by_cases h : k.canon = key.canon
    · simp [put, h]
    · simp only [put, h, if_false, List.map_cons, ih, List.mem_cons, Ne.symm h, false_or]
      split <;> simp

theorem map_put (key : Name) (a : α) (es : List (Name × α)) :
    (put key a es).map (·.1.canon) =
      if key.canon ∈ es.map (·.1.canon) then es.map (·.1.canon)
      else es.map (·.1.canon) ++ [key.canon] := by
  have h := congrArg (List.map Name.canon) (map_fst_put key a es)
  rw [apply_ite (List.map Name.canon)] at h
  simpa [Function.comp_def] using h

theorem nodup_put {key : Name} {a : α} {es : List (Name × α)}
    (h : (es.map (·.1.canon)).Nodup) : ((put key a es).map (·.1.canon)).Nodup := by
  rw [map_put]
  split
  · exact h
  · rename_i hk
    rw [List.nodup_append]
    refine ⟨h, by simp, ?_⟩
    intro x hx y hy
    rw [List.mem_singleton.1 hy]
    exact fun hxy => hk (hxy ▸ hx)

/-- Binds a name. -/
def insert (t : Table α) (key : Name) (a : α) : Table α :=
  ⟨put key a t.entries, nodup_put t.nodup⟩

/-- The table of several bindings, made one after the other. -/
def ofList (bindings : List (Name × α)) : Table α :=
  bindings.foldl (fun t b => t.insert b.1 b.2) empty

/-! ## Laws -/

theorem keys_insert (t : Table α) (key : Name) (a : α) :
    (t.insert key a).keys =
      if key.canon ∈ t.keys then t.keys else t.keys ++ [key.canon] :=
  map_put key a t.entries

theorem find?_put_self (key : Name) (a : α) (es : List (Name × α)) :
    find? key (put key a es) = some a := by
  induction es with
  | nil => simp [put, find?]
  | cons e rest ih =>
    obtain ⟨k, b⟩ := e
    by_cases h : k.canon = key.canon
    · simp [put, find?, h]
    · simp only [put, h, if_false, find?, ih]

theorem find?_put_of_ne {key other : Name} (h : other.canon ≠ key.canon) (a : α)
    (es : List (Name × α)) : find? other (put key a es) = find? other es := by
  induction es with
  | nil => simp [put, find?, Ne.symm h]
  | cons e rest ih =>
    obtain ⟨k, b⟩ := e
    by_cases hk : k.canon = key.canon
    · simp [put, find?, hk, Ne.symm h]
    · simp only [put, hk, if_false, find?, ih]

@[simp] theorem get?_insert_self (t : Table α) (key : Name) (a : α) :
    (t.insert key a).get? key = some a :=
  find?_put_self key a t.entries

theorem get?_insert_of_ne (t : Table α) {key other : Name} (h : other.canon ≠ key.canon) (a : α) :
    (t.insert key a).get? other = t.get? other :=
  find?_put_of_ne h a t.entries

@[simp] theorem get?_empty (key : Name) : (empty : Table α).get? key = none := rfl

end Table
end Tama
