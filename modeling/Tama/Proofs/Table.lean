import Mathlib.Data.List.Basic
import Tama.Table

/-!
# Tables as ordered maps

What bindings that are made one after the other (`Table.insertAll`) make of a table. A name has the
entry that it was last bound to, or else the one that it had (`get?_insertAll`). The names of the
table stay in front, in their order, and those that are new follow in the order in which they were
first bound, each once (`names_insertAll`). In a table the names and what they look up are all there
is (`filter_entries`).
-/

set_option autoImplicit false

namespace Tama

namespace Table

variable {α : Type}

/-! ## Look-up -/

theorem get?_congr (t : Table α) {x y : Name} (h : x.canon = y.canon) : t.get? x = t.get? y := by
  unfold get?
  induction t.entries with
  | nil => rfl
  | cons e rest ih => rw [find?, find?, h, ih]

theorem get?_insert (t : Table α) (key other : Name) (a : α) :
    (t.insert key a).get? other = if key.canon = other.canon then some a else t.get? other := by
  split
  · rename_i h
    rw [get?_congr _ h.symm, get?_insert_self]
  · rename_i h
    exact get?_insert_of_ne t (Ne.symm h) a

theorem mem_put {key : Name} {a : α} {es : List (Name × α)} {e : Name × α}
    (h : e ∈ put key a es) : (e.1.canon = key.canon ∧ e.2 = a) ∨ e ∈ es := by
  induction es with
  | nil =>
    cases List.mem_singleton.1 h
    exact .inl ⟨rfl, rfl⟩
  | cons first rest ih =>
    obtain ⟨k, b⟩ := first
    rw [put] at h
    split at h
    · rename_i hk
      rcases List.mem_cons.1 h with rfl | h
      · exact .inl ⟨hk, rfl⟩
      · exact .inr (List.mem_cons_of_mem _ h)
    · rcases List.mem_cons.1 h with rfl | h
      · exact .inr List.mem_cons_self
      · exact (ih h).imp_right (List.mem_cons_of_mem _)

theorem mem_of_find? {key : Name} {a : α} {es : List (Name × α)} (h : find? key es = some a) :
    ∃ k, k.canon = key.canon ∧ (k, a) ∈ es := by
  induction es with
  | nil => cases h
  | cons first rest ih =>
    obtain ⟨k, b⟩ := first
    rw [find?] at h
    split at h
    · rename_i hk
      cases h
      exact ⟨k, hk, List.mem_cons_self⟩
    · obtain ⟨k', hk', hm⟩ := ih h
      exact ⟨k', hk', List.mem_cons_of_mem _ hm⟩

theorem find?_of_mem {es : List (Name × α)} (h : (es.map (·.1.canon)).Nodup) {e : Name × α}
    (he : e ∈ es) : find? e.1 es = some e.2 := by
  induction es with
  | nil => cases he
  | cons first rest ih =>
    obtain ⟨hfirst, hrest⟩ := List.nodup_cons.1 h
    rcases List.mem_cons.1 he with rfl | he
    · simp [find?]
    · have hne : first.1.canon ≠ e.1.canon := by
        intro heq
        exact hfirst (List.mem_map.2 ⟨e, he, heq.symm⟩)
      simp [find?, hne, ih hrest he]

/-- What holds of all entries holds of all that is looked up. -/
theorem forall_entries_iff {t : Table α} {P : α → Prop} :
    (∀ e ∈ t.entries, P e.2) ↔ ∀ x a, t.get? x = some a → P a := by
  constructor
  · intro h x a ha
    obtain ⟨k, -, hmem⟩ := mem_of_find? ha
    exact h (k, a) hmem
  · exact fun h e he => h e.1 e.2 (find?_of_mem t.nodup he)

/-! ## Names -/

/-- The names of a table, each in the spelling that came first. -/
def names (t : Table α) : List Name :=
  t.entries.map (·.1)

theorem map_canon_names (t : Table α) : t.names.map Name.canon = t.keys := by
  simp [names, keys, Function.comp_def]

theorem nodup_names (t : Table α) : (t.names.map Name.canon).Nodup :=
  t.map_canon_names ▸ t.nodup

theorem names_insert (t : Table α) (key : Name) (a : α) :
    (t.insert key a).names = if key.canon ∈ t.keys then t.names else t.names ++ [key] :=
  map_fst_put key a t.entries

theorem isPrefix_names_insert (t : Table α) (key : Name) (a : α) :
    t.names <+: (t.insert key a).names := by
  rw [names_insert]
  split
  · exact List.prefix_rfl
  · exact List.prefix_append _ _

/-- The entries with a property, from the names and what they look up. -/
theorem filter_entries (t : Table α) (p : α → Bool) :
    t.entries.filter (fun e => p e.2) =
      t.names.filterMap fun x => ((t.get? x).filter p).map (x, ·) := by
  rw [names, List.filterMap_map, ← List.filterMap_eq_filter]
  refine List.filterMap_congr fun e he => ?_
  have hget : t.get? e.1 = some e.2 := find?_of_mem t.nodup he
  cases hp : p e.2 <;> simp [hget, hp, Option.filter]

/-! ## Several bindings -/

/-- The table after bindings that are made one after the other. -/
def insertAll (t : Table α) (bindings : List (Name × α)) : Table α :=
  bindings.foldl (fun t b => t.insert b.1 b.2) t

/-- What bindings last bind a name to. -/
def lastBound? (x : Name) (bindings : List (Name × α)) : Option α :=
  (bindings.findRev? fun b => b.1.canon == x.canon).map (·.2)

/-- The entry that bindings leave a name with: the one that it was last bound to, or else the one
that it had. -/
def current? (t : Table α) (bindings : List (Name × α)) (x : Name) : Option α :=
  (lastBound? x bindings).or (t.get? x)

/-- Of some names those that a table does not have, each where it stands first. -/
def newNames (t : Table α) (names : List Name) : List Name :=
  (names.filter fun x => x.canon ∉ t.keys).eraseDupsBy fun x y => x.canon == y.canon

theorem lastBound?_cons (x : Name) (b : Name × α) (rest : List (Name × α)) :
    lastBound? x (b :: rest) =
      (lastBound? x rest).or (if b.1.canon = x.canon then some b.2 else none) := by
  simp only [lastBound?, List.findRev?]
  cases rest.findRev? fun b => b.1.canon == x.canon with
  | some c => rfl
  | none => by_cases h : b.1.canon = x.canon <;> simp [h]

theorem lastBound?_eq_none {x : Name} {bindings : List (Name × α)}
    (h : ∀ b ∈ bindings, b.1.canon ≠ x.canon) : lastBound? x bindings = none := by
  simpa [lastBound?, List.findRev?_eq_find?_reverse] using fun k a hb => h (k, a) hb

theorem newNames_cons (t : Table α) (x : Name) (a : α) (rest : List Name) :
    t.newNames (x :: rest) =
      if x.canon ∈ t.keys then t.newNames rest else x :: (t.insert x a).newNames rest := by
  by_cases h : x.canon ∈ t.keys
  · simp [newNames, h]
  · -- what is new behind `x` is what neither the table has nor `x` is
    have hrest : ((rest.filter fun y => y.canon ∉ t.keys).filter
          fun y => (y.canon == x.canon) = false) =
        rest.filter fun y => y.canon ∉ (t.insert x a).keys := by
      rw [List.filter_filter]
      refine List.filter_congr fun y _ => ?_
      simp [keys_insert, h, Bool.and_comm]
    rw [newNames, List.filter_cons_of_pos (by simpa using h), List.eraseDupsBy_cons, hrest,
      if_neg h, newNames]

/-- The last binding of a name counts, whatever is bound in between. -/
theorem get?_insertAll (t : Table α) (bindings : List (Name × α)) (x : Name) :
    (t.insertAll bindings).get? x = t.current? bindings x := by
  induction bindings generalizing t with
  | nil => rfl
  | cons b rest ih =>
    have hstep : ((t.insert b.1 b.2).insertAll rest).get? x =
        (lastBound? x rest).or ((t.insert b.1 b.2).get? x) := ih _
    rw [current?, lastBound?_cons, Option.or_assoc]
    refine hstep.trans (congrArg _ ?_)
    rw [get?_insert]
    split <;> rfl

/-- The old names stay where they are, and the new ones stand behind them as they came. -/
theorem names_insertAll (t : Table α) (bindings : List (Name × α)) :
    (t.insertAll bindings).names = t.names ++ t.newNames (bindings.map (·.1)) := by
  induction bindings generalizing t with
  | nil => simp [insertAll, newNames]
  | cons b rest ih =>
    have hstep : ((t.insert b.1 b.2).insertAll rest).names =
        (t.insert b.1 b.2).names ++ (t.insert b.1 b.2).newNames (rest.map (·.1)) := ih _
    refine hstep.trans ?_
    rw [List.map_cons, newNames_cons t b.1 b.2, names_insert]
    by_cases h : b.1.canon ∈ t.keys
    · simp [h, newNames, keys_insert]
    · simp [h]

theorem get?_ofList (bindings : List (Name × α)) (x : Name) :
    (ofList bindings).get? x = lastBound? x bindings := by
  have h := get?_insertAll empty bindings x
  rwa [current?, get?_empty, Option.or_none] at h

end Table
end Tama
