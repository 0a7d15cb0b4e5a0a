import Tama.Ast.Form

/-!
# What occurs in a node

The body of a function definition is not evaluated with the node that it stands in, so there are two
notions of a part: `Within` leaves out what stands in such bodies, `Occurs` does not. From them come
the names that a node reads, assigns, defines and calls. All of this looks at nodes as the evaluator
does, by their form; so a hand-written node counts too, and the record of a node has the parts of
the node (`Part.of_asRecord`).
-/

set_option autoImplicit false

namespace Tama.Ast

/-! ## Parts -/

/-- The nodes right inside a node that are evaluated with it. -/
def Form.inner : Form → List Ast
  | source body => body.toOption.getD []
  | assignment _ expression => expression.toOption.toList
  | add left right => left.toOption.toList ++ right.toOption.toList
  | conditional condition body => condition.toOption.toList ++ body.toOption.getD []
  | call _ args => args.toOption.getD []
  | literal _ | var _ | definition _ | unknown => []

/-- The body of a definition. -/
def Form.deferred : Form → List Ast
  | definition parts => (parts.toOption.map (·.body)).getD []
  | _ => []

/-- All nodes right inside a node. -/
def Form.all (form : Form) : List Ast :=
  form.inner ++ form.deferred

/-- A node can be reached from another one by going to a child any number of times. -/
inductive Part (children : Form → List Ast) (m : Ast) : Ast → Prop
  | self : Part children m m
  | child {n c : Ast} : c ∈ children n.form → Part children m c → Part children m n

/-- A node is part of another one, outside the bodies of definitions. -/
abbrev Within : Ast → Ast → Prop :=
  Part Form.inner

/-- A node is part of another one. -/
abbrev Occurs : Ast → Ast → Prop :=
  Part Form.all

/-! ## Names -/

/-- A variable is read in a node, outside the bodies of definitions. -/
def Reads (n : Ast) (x : Name) : Prop :=
  ∃ m, Within m n ∧ m.form = .var (.ok x)

/-- A variable is assigned in a node, outside the bodies of definitions. -/
def Assigns (n : Ast) (x : Name) : Prop :=
  ∃ m e, Within m n ∧ m.form = .assignment (.ok x) e

/-- A function is defined in a node, outside the bodies of other definitions. -/
def Defines (n : Ast) (x : Name) : Prop :=
  ∃ m d, Within m n ∧ m.form = .definition (.ok d) ∧ d.name.name = .ok x

/-- A function is called in a node, in the body of a definition or elsewhere. -/
def Calls (n : Ast) (x : Name) : Prop :=
  ∃ m args, Occurs m n ∧ m.form = .call (.ok x) args

section
variable {n c : Ast} {x : Name}

theorem Reads.inner (hc : c ∈ n.form.inner) (h : c.Reads x) : n.Reads x := by
  obtain ⟨m, hm, hf⟩ := h
  exact ⟨m, .child hc hm, hf⟩

theorem Assigns.inner (hc : c ∈ n.form.inner) (h : c.Assigns x) : n.Assigns x := by
  obtain ⟨m, e, hm, hf⟩ := h
  exact ⟨m, e, .child hc hm, hf⟩

theorem Defines.inner (hc : c ∈ n.form.inner) (h : c.Defines x) : n.Defines x := by
  obtain ⟨m, d, hm, hf⟩ := h
  exact ⟨m, d, .child hc hm, hf⟩

theorem Calls.inner (hc : c ∈ n.form.inner) (h : c.Calls x) : n.Calls x := by
  obtain ⟨m, args, hm, hf⟩ := h
  exact ⟨m, args, .child (List.mem_append_left _ hc) hm, hf⟩

theorem Calls.deferred (hc : c ∈ n.form.deferred) (h : c.Calls x) : n.Calls x := by
  obtain ⟨m, args, hm, hf⟩ := h
  exact ⟨m, args, .child (List.mem_append_right _ hc) hm, hf⟩

theorem reads_iff :
    n.Reads x ↔ n.form = .var (.ok x) ∨ ∃ c ∈ n.form.inner, c.Reads x := by
  constructor
  · rintro ⟨m, hm, hf⟩
    cases hm with
    | self => exact .inl hf
    | child hc hm => exact .inr ⟨_, hc, m, hm, hf⟩
  · rintro (hf | ⟨c, hc, h⟩)
    · exact ⟨n, .self, hf⟩
    · exact h.inner hc

theorem calls_iff :
    n.Calls x ↔ (∃ args, n.form = .call (.ok x) args) ∨ ∃ c ∈ n.form.all, c.Calls x := by
  constructor
  · rintro ⟨m, args, hm, hf⟩
    cases hm with
    | self => exact .inl ⟨args, hf⟩
    | child hc hm => exact .inr ⟨_, hc, m, args, hm, hf⟩
  · rintro (⟨args, hf⟩ | ⟨c, hc, m, args, hm, hf⟩)
    · exact ⟨n, args, .self, hf⟩
    · exact ⟨m, args, .child hc hm, hf⟩

end

section
variable {f y : String} {params : List String} {args body : List Ast} {x : Name}

@[simp] theorem reads_var : (var y).Reads x ↔ x = y := by
  rw [reads_iff]
  simp [form, Form.inner, eq_comm]

@[simp] theorem reads_call : (call f args).Reads x ↔ ∃ a ∈ args, a.Reads x := by
  rw [reads_iff]
  simp [form, Form.inner, Except.toOption]

@[simp] theorem calls_var : ¬ (var y).Calls x := by
  rw [calls_iff]
  simp [form, Form.all, Form.inner, Form.deferred]

@[simp] theorem calls_call : (call f args).Calls x ↔ x = f ∨ ∃ a ∈ args, a.Calls x := by
  rw [calls_iff]
  simp [form, Form.all, Form.inner, Form.deferred, Except.toOption, eq_comm]

@[simp] theorem calls_definition :
    (definition f params body).Calls x ↔ ∃ c ∈ body, c.Calls x := by
  rw [calls_iff]
  simp [form, Form.all, Form.inner, Form.deferred, Except.toOption]

end

/-! ## Records -/

theorem Form.inner_ofRecords (form : Form) : form.ofRecords.inner = form.inner.map asRecord := by
  cases form with
  | source body => cases body <;> rfl
  | assignment name e => cases e <;> rfl
  | add l r => cases l <;> cases r <;> rfl
  | conditional c body => cases c <;> cases body <;> rfl
  | call name args => cases args <;> rfl
  | _ => rfl

theorem Form.all_ofRecords (form : Form) : form.ofRecords.all = form.all.map asRecord := by
  have hd : form.ofRecords.deferred = form.deferred.map asRecord := by
    cases form with
    | definition parts => cases parts <;> rfl
    | _ => rfl
  rw [all, all, Form.inner_ofRecords, hd, List.map_append]

/-- The record of a hand-written node is the node itself. -/
theorem asRecord_cases (n : Ast) : n.asRecord = n ∨ n.asRecord.form = n.form.ofRecords := by
  cases n with
  | written d => exact .inl rfl
  | _ => exact .inr (form_asRecord nofun)

/-- What is part of a record is part of its node, as it is or as a record. -/
theorem Part.of_asRecord {children : Form → List Ast}
    (hc : ∀ form : Form, children form.ofRecords = (children form).map asRecord) {m r : Ast}
    (h : Part children m r) : ∀ n : Ast, r = n ∨ r = n.asRecord →
    ∃ k, Part children k n ∧ (m = k ∨ m = k.asRecord) := by
  induction h with
  | self => exact fun n hn => ⟨n, .self, hn⟩
  | @child r c hmem hm ih =>
    rintro n (rfl | rfl)
    · exact ⟨m, .child hmem hm, .inl rfl⟩
    · rcases n.asRecord_cases with he | he
      · rw [he] at hmem
        exact ⟨m, .child hmem hm, .inl rfl⟩
      · rw [he, hc] at hmem
        obtain ⟨k, hk, rfl⟩ := List.mem_map.1 hmem
        obtain ⟨l, hl, hlm⟩ := ih k (.inr rfl)
        exact ⟨l, .child hk hl, hlm⟩

/-- The record of a node calls nothing that the node does not call. -/
theorem Calls.of_asRecord {n : Ast} {x : Name} (h : n.asRecord.Calls x) : n.Calls x := by
  obtain ⟨m, args, hm, hf⟩ := h
  obtain ⟨k, hk, rfl | rfl⟩ := hm.of_asRecord Form.all_ofRecords n (.inr rfl)
  · exact ⟨m, args, hk, hf⟩
  · rcases k.asRecord_cases with he | he
    · exact ⟨k, args, hk, he ▸ hf⟩
    · rw [he] at hf
      cases hform : k.form with
      | call name args' =>
        rw [hform] at hf
        cases hf
        exact ⟨k, args', hk, hform⟩
      | _ =>
        rw [hform] at hf
        cases hf

/-! ## Nodes that bind nothing -/

/-- A node assigns nothing and defines nothing, outside the bodies of definitions. -/
def Quiet (n : Ast) : Prop :=
  ∀ m, Within m n → (∀ x e, m.form ≠ .assignment x e) ∧ ∀ d, m.form ≠ .definition d

namespace Quiet

variable {n : Ast}

theorem of_inner (ha : ∀ x e, n.form ≠ .assignment x e) (hd : ∀ d, n.form ≠ .definition d)
    (h : ∀ c ∈ n.form.inner, c.Quiet) : n.Quiet := by
  intro m hm
  cases hm with
  | self => exact ⟨ha, hd⟩
  | child hc hm => exact h _ hc m hm

theorem of_literal {v : Except Fault Value} (h : n.form = .literal v) : n.Quiet :=
  .of_inner (by simp [h]) (by simp [h]) (by simp [h, Form.inner])

theorem of_var {x : Except Fault Name} (h : n.form = .var x) : n.Quiet :=
  .of_inner (by simp [h]) (by simp [h]) (by simp [h, Form.inner])

theorem of_add {l r : Ast} (h : n.form = .add (.ok l) (.ok r)) (hl : l.Quiet) (hr : r.Quiet) :
    n.Quiet :=
  .of_inner (by simp [h]) (by simp [h]) (by simp [h, Form.inner, Except.toOption, hl, hr])

theorem of_call {x : Except Fault Name} {args : List Ast} (h : n.form = .call x (.ok args))
    (ha : ∀ a ∈ args, a.Quiet) : n.Quiet :=
  .of_inner (by simp [h]) (by simp [h]) (by simpa [h, Form.inner, Except.toOption] using ha)

theorem not_assigns (h : n.Quiet) (x : Name) : ¬ n.Assigns x := by
  rintro ⟨m, e, hm, hf⟩
  exact (h m hm).1 _ _ hf

theorem not_defines (h : n.Quiet) (x : Name) : ¬ n.Defines x := by
  rintro ⟨m, d, hm, hf, -⟩
  exact (h m hm).2 _ hf

theorem asRecord (h : n.Quiet) : n.asRecord.Quiet := by
  intro m hm
  obtain ⟨k, hk, rfl | rfl⟩ := hm.of_asRecord Form.inner_ofRecords n (.inr rfl)
  · exact h m hk
  · obtain ⟨ha, hd⟩ := h k hk
    rcases k.asRecord_cases with he | he
    · rw [he]
      exact ⟨ha, hd⟩
    · rw [he]
      cases hform : k.form with
      | assignment x e => exact absurd hform (ha x e)
      | definition d => exact absurd hform (hd d)
      | _ => refine ⟨fun x e hf => ?_, fun d hf => ?_⟩ <;> cases hf

end Quiet

end Tama.Ast
