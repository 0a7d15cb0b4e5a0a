import Mathlib.Algebra.Ring.Int.Defs
import Mathlib.Data.List.Forall2
import Tama.Proofs.Run
import Tama.Value

/-!
# Addition is associative

Two values have a sum where adding them yields no error; then both of them and the sum are integer
values. What an integer value holds need not be an integer when a host wrote it by hand: texts and
lists can be added too, and truth values count as integers. Whichever of these they hold, sums may
be regrouped (`plus?_assoc`), so the sum of several values is that of the sums of two parts of them
(`total?_append`). Decimal fractions are left out, as in `Operator.apply`: they have no sum here,
and a sum of rounded fractions could not be regrouped.
-/

set_option autoImplicit false

namespace Tama

/-! ## Addends -/

/-- What an integer value may hold that can be added. -/
inductive Addend where
  | number (k : Int)
  | text (s : String)
  | list (items : List Datum)

namespace Addend

/-- The sum of two addends of one kind. -/
def plus : Addend → Addend → Option Addend
  | number k, number l => some (number (k + l))
  | text s, text t => some (text (s ++ t))
  | list xs, list ys => some (list (xs ++ ys))
  | _, _ => none

/-- An addend as data. -/
def datum : Addend → Datum
  | number k => .int k
  | text s => .text s
  | list items => .list items

/-- The integer value that holds an addend. -/
def value (a : Addend) : Value :=
  .holding "IntValue" a.datum

theorem plus_assoc (a b c : Addend) : (a.plus b).bind (plus · c) = (b.plus c).bind a.plus := by
  cases a <;> cases b <;> cases c <;>
    simp [plus, Int.add_assoc, String.append_assoc, List.append_assoc]

end Addend

/-- The addend that a datum is; a truth value is 0 or 1. -/
def Datum.addend? : Datum → Option Addend
  | .int k => some (.number k)
  | .bool b => some (.number (if b then 1 else 0))
  | .text s => some (.text s)
  | .list items => some (.list items)
  | _ => none

theorem Operator.apply_add (x y : Datum) : (add.apply x y).toOption =
    x.addend?.bind fun a => y.addend?.bind fun b => (a.plus b).map Addend.datum := by
  cases x <;> cases y <;> rfl

namespace Value

/-! ## The sum of two values -/

/-- The sum of two values, where they have one. -/
def plus? (x y : Value) : Option Value :=
  (add x y).toOption.filter (!·.isError)

theorem plus?_eq_some {x y v : Value} :
    plus? x y = some v ↔ add x y = .ok v ∧ v.isError = false := by
  unfold plus?
  cases add x y with
  | error e => exact ⟨nofun, nofun⟩
  | ok w =>
    simp only [Except.toOption, Option.filter_eq_some_iff, Option.some.injEq, Except.ok.injEq,
      Bool.not_eq_true']

/-- What an integer value holds, where it can be added. -/
def addend? (v : Value) : Option Addend :=
  if v.kind == .text "IntValue" then v.payload.toOption.bind Datum.addend? else none

theorem addend?_value (a : Addend) : a.value.addend? = some a := by
  cases a <;> rfl

theorem kind_value (a : Addend) : a.value.kind = .text "IntValue" := by
  cases a <;> rfl

theorem failed_value (a : Addend) : a.value.failed = .ok false := by
  cases a <;> rfl

theorem kind_of_addend? {v : Value} {a : Addend} (h : v.addend? = some a) :
    v.kind = .text "IntValue" := by
  unfold addend? at h
  split at h
  · rename_i hkind
    exact Datum.beq_text.1 hkind
  · cases h

theorem addend?_of_payload {v : Value} {k : Int} (hkind : v.kind = .text "IntValue")
    (hpayload : v.payload = .ok (.int k)) : v.addend? = some (.number k) := by
  rw [addend?, if_pos (Datum.beq_text.2 hkind), hpayload]
  rfl

theorem isError_typeErrorOf (operation message : Datum) (types : List Datum) :
    (typeErrorOf operation message types).isError = true := by
  cases operation <;> cases message <;> rfl

/-- A refusal is an error. -/
theorem rejected_post (operation : Datum) (operands : List Value) (message : Option Datum) :
    Run.Post (·.isError = true) (fun _ => True) (rejected operation operands message) := by
  refine .bind_left fun types => ?_
  cases message with
  | some words => exact .ok (isError_typeErrorOf operation words types)
  | none =>
    refine .bind_left fun name => .bind_left fun names => ?_
    exact .ok (isError_typeErrorOf operation _ types)

theorem isError_holding (d : Datum) : (holding "IntValue" d).isError = false := by
  cases d <;> rfl

theorem add_of_kinds {x y : Value} (hx : x.kind = .text "IntValue")
    (hy : y.kind = .text "IntValue") :
    add x y = do return holding "IntValue" (← Operator.add.apply (← x.payload) (← y.payload)) := by
  unfold add integerOperation
  split
  · rfl
  · rw [if_pos]
    simp only [allOfType, List.all_cons, hx, hy]
    rfl

theorem add_of_not_kinds {x y : Value}
    (h : ¬ (x.kind = .text "IntValue" ∧ y.kind = .text "IntValue")) :
    Run.Post (·.isError = true) (fun _ => True) (add x y) := by
  unfold add integerOperation
  split
  · exact absurd ⟨rfl, rfl⟩ h
  · rw [if_neg]
    · refine .bind_left fun a => .bind_left fun b => .bind_left fun c => ?_
      exact rejected_post _ _ _
    · simpa [allOfType, Datum.beq_text] using h

theorem plus?_of_kinds {x y : Value} (hx : x.kind = .text "IntValue")
    (hy : y.kind = .text "IntValue") : plus? x y =
      x.payload.toOption.bind fun p => y.payload.toOption.bind fun q =>
        (Operator.add.apply p q).toOption.map (holding "IntValue") := by
  rw [plus?, add_of_kinds hx hy]
  cases x.payload with
  | error e => rfl
  | ok p =>
    cases y.payload with
    | error e => rfl
    | ok q =>
      cases happly : Operator.add.apply p q with
      | error e => simp [bind, Except.bind, happly, Except.toOption]
      | ok d =>
        simp [bind, Except.bind, pure, Except.pure, happly, Except.toOption, isError_holding]

theorem plus?_of_not_kinds {x y : Value}
    (h : ¬ (x.kind = .text "IntValue" ∧ y.kind = .text "IntValue")) : plus? x y = none := by
  have hpost := add_of_not_kinds h
  unfold plus?
  cases hadd : add x y with
  | error e => rfl
  | ok v =>
    rw [hadd] at hpost
    cases hpost with
    | ok he => simp [Except.toOption, he]

/-- Only integer values have a sum, and it is that of what they hold. -/
theorem plus?_eq (x y : Value) : plus? x y =
    x.addend?.bind fun a => y.addend?.bind fun b => (a.plus b).map Addend.value := by
  by_cases h : x.kind = .text "IntValue" ∧ y.kind = .text "IntValue"
  · obtain ⟨hx, hy⟩ := h
    rw [plus?_of_kinds hx hy, addend?, addend?, if_pos (Datum.beq_text.2 hx),
      if_pos (Datum.beq_text.2 hy)]
    cases x.payload.toOption with
    | none => rfl
    | some p =>
      cases y.payload.toOption with
      | none => exact (Option.bind_fun_none p.addend?).symm
      | some q =>
        simp only [Option.bind_some, Operator.apply_add, Option.map_bind, Function.comp_def,
          Option.map_map]
        rfl
  · rw [plus?_of_not_kinds h]
    cases hx : x.addend? with
    | none => rfl
    | some a =>
      cases hy : y.addend? with
      | none => rfl
      | some b => exact absurd ⟨kind_of_addend? hx, kind_of_addend? hy⟩ h

theorem plus?_kinds {x y v : Value} (h : plus? x y = some v) :
    x.kind = .text "IntValue" ∧ y.kind = .text "IntValue" ∧ v.kind = .text "IntValue" ∧
      v.failed = .ok false := by
  rw [plus?_eq] at h
  obtain ⟨a, hx, h⟩ := Option.bind_eq_some_iff.1 h
  obtain ⟨b, hy, h⟩ := Option.bind_eq_some_iff.1 h
  obtain ⟨c, -, rfl⟩ := Option.map_eq_some_iff.1 h
  exact ⟨kind_of_addend? hx, kind_of_addend? hy, kind_value c, failed_value c⟩

/-- Sums may be regrouped. -/
theorem plus?_assoc (x y z : Value) :
    (plus? x y).bind (plus? · z) = (plus? y z).bind (plus? x) := by
  have hright : plus? x = fun w => x.addend?.bind fun a => w.addend?.bind fun b =>
      (a.plus b).map Addend.value := funext (plus?_eq x)
  simp only [plus?_eq y z, plus?_eq x y, plus?_eq _ z, hright]
  cases x.addend? with
  | none => simp
  | some a =>
    cases y.addend? with
    | none => simp
    | some b =>
      cases z.addend? with
      | none => simp
      | some c =>
        simp only [Option.bind_some, Option.bind_map, Function.comp_def, addend?_value]
        simpa only [Option.map_bind, Function.comp_def] using
          congrArg (Option.map Addend.value) (Addend.plus_assoc a b c)

/-! ## The sum of several values -/

/-- The sum of several values, added up from left to right, where they have one. -/
def total? : List Value → Option Value
  | [] => none
  | first :: rest => rest.foldlM plus? first

theorem foldlM_plus? (v w : Value) (rest : List Value) :
    (plus? v w).bind (rest.foldlM plus? ·) = (rest.foldlM plus? w).bind (plus? v) := by
  induction rest generalizing v w with
  | nil => simp
  | cons x rest ih =>
    calc (plus? v w).bind ((x :: rest).foldlM plus? ·)
        = ((plus? v w).bind (plus? · x)).bind (rest.foldlM plus? ·) := (Option.bind_assoc ..).symm
      _ = ((plus? w x).bind (plus? v)).bind (rest.foldlM plus? ·) := by rw [plus?_assoc]
      _ = (plus? w x).bind fun u => (plus? v u).bind (rest.foldlM plus? ·) := Option.bind_assoc ..
      _ = (plus? w x).bind fun u => (rest.foldlM plus? u).bind (plus? v) := by simp only [ih]
      _ = ((x :: rest).foldlM plus? w).bind (plus? v) := (Option.bind_assoc ..).symm

/-- The sum of several values is that of the sums of two parts of them. -/
theorem total?_append {vs ws : List Value} (hvs : vs ≠ []) (hws : ws ≠ []) :
    total? (vs ++ ws) = (total? vs).bind fun v => (total? ws).bind (plus? v) := by
  obtain ⟨v, vs, rfl⟩ := List.exists_cons_of_ne_nil hvs
  obtain ⟨w, ws, rfl⟩ := List.exists_cons_of_ne_nil hws
  simp [total?, List.foldlM_append, List.foldlM_cons, foldlM_plus?]

theorem foldlM_plus?_kinds {first v : Value} {rest : List Value} (hrest : rest ≠ [])
    (h : rest.foldlM plus? first = some v) :
    (∀ w ∈ first :: rest, w.kind = .text "IntValue") ∧ v.kind = .text "IntValue" := by
  induction rest generalizing first with
  | nil => exact absurd rfl hrest
  | cons w rest ih =>
    rw [List.foldlM_cons] at h
    obtain ⟨u, hu, h⟩ := Option.bind_eq_some_iff.1 h
    obtain ⟨hfirst, hw, hkind, -⟩ := plus?_kinds hu
    cases rest with
    | nil =>
      cases h
      exact ⟨by simp [hfirst, hw], hkind⟩
    | cons x rest =>
      obtain ⟨hrest, hv⟩ := ih (List.cons_ne_nil x rest) h
      have htail : ∀ z ∈ x :: rest, z.kind = .text "IntValue" :=
        fun z hz => hrest z (List.mem_cons_of_mem u hz)
      exact ⟨List.forall_mem_cons.2 ⟨hfirst, List.forall_mem_cons.2 ⟨hw, htail⟩⟩, hv⟩

/-- Where two values or more have a sum, they are integer values, and so is the sum. -/
theorem total?_kinds {vs : List Value} {v : Value} (hvs : 2 ≤ vs.length) (h : total? vs = some v) :
    (∀ w ∈ vs, w.kind = .text "IntValue") ∧ v.kind = .text "IntValue" := by
  match vs, hvs with
  | first :: second :: rest, _ => exact foldlM_plus?_kinds (List.cons_ne_nil second rest) h

theorem plus?_numbers {v w : Value} {k l : Int} (hv : v.addend? = some (.number k))
    (hw : w.addend? = some (.number l)) : plus? v w = some (.int (k + l)) := by
  rw [plus?_eq, hv, hw]
  rfl

theorem foldlM_plus?_numbers {vs : List Value} {ks : List Int}
    (h : List.Forall₂ (fun v k => v.addend? = some (.number k)) vs ks) (k : Int) :
    vs.foldlM plus? (.int k) = some (.int (k + ks.sum)) := by
  induction h generalizing k with
  | nil => simp
  | @cons v l vs ks hv _ ih =>
    have hint : (int k).addend? = some (.number k) := rfl
    rw [List.foldlM_cons, plus?_numbers hint hv, List.sum_cons, ← Int.add_assoc]
    exact ih (k + l)

/-- The sum of values that hold integers is the sum of the integers. -/
theorem eq_int_of_total? {vs : List Value} {ks : List Int} {v : Value} (hvs : 2 ≤ vs.length)
    (h : List.Forall₂ (fun (w : Value) (k : Int) => w.payload = .ok (.int k)) vs ks)
    (hv : total? vs = some v) : v = .int ks.sum := by
  have hnumbers : List.Forall₂ (fun v k => v.addend? = some (.number k)) vs ks := by
    refine ((List.forall₂_and_left vs ks).2 ⟨(total?_kinds hvs hv).1, h⟩).imp ?_
    rintro w k ⟨hkind, hpayload⟩
    exact addend?_of_payload hkind hpayload
  match hnumbers, hvs with
  | .cons (b := k) hfirst (.cons (b := l) hsecond hrest), _ =>
    rw [total?, List.foldlM_cons, plus?_numbers hfirst hsecond] at hv
    have hsum := foldlM_plus?_numbers hrest (k + l)
    cases hv.symm.trans hsum
    rw [List.sum_cons, List.sum_cons, Int.add_assoc]

end Value
end Tama
