import Tama.Proofs.Session

/-!
# Calls of standard functions

What a safe script passes to a standard function is native data, and what it gets back is too; so
such a call returns a value that scripts compute with, or it is stopped by one of the faults that
`Fault.Raised` lists.
-/

set_option autoImplicit false

namespace Tama

open Run

variable {ι σ : Type}

/-! ## Native data -/

/-- The data that crosses between scripts and the host. -/
inductive Datum.Native : Datum → Prop
  | null : Native .null
  | bool (b : Bool) : Native (.bool b)
  | int (n : Int) : Native (.int n)

theorem Value.Canonical.toHost {v : Value} (h : v.Canonical) :
    Post Datum.Native Fault.Raised v.toHost := by
  cases h with
  | int n => exact .ok (.int n)
  | bool b => exact .ok (.bool b)
  | null => exact .ok .null

theorem Datum.Native.ofHost {d : Datum} (h : d.Native) :
    Post Value.Canonical Fault.Raised (Value.ofHost d) := by
  cases h with
  | int n => exact .ok (.int n)
  | bool b => exact .ok (.bool b)
  | null => exact .ok .null

namespace Builtin

theorem write_post (n : Int) :
    Post (fun _ => True) Fault.Raised (liftM (Decimal.write n) : Except Fault String) := by
  unfold Decimal.write
  split
  · exact .ok trivial
  · exact .error .unprintable

/-- Native data is printed, unless it is an integer that is too long. -/
theorem format_post {d : Datum} (h : d.Native) :
    Post (fun _ => True) Fault.Raised (format d) := by
  cases h with
  | null => exact .ok trivial
  | bool b => exact .ok trivial
  | int n =>
    simp only [format, Datum.display, Datum.literal]
    exact write_post n

theorem integers_post {b : Builtin} (hb : b ∈ [subtract, less, greater]) {x y : Datum}
    (hx : x.Native) (hy : y.Native) : Post (fun _ => True) Fault.Raised (b.integers x y) := by
  cases hx <;> cases hy <;> first | exact .ok trivial | exact .error (.wantsInteger _ _ hb)

theorem call_post (b : Builtin) {args : List Datum} (h : ∀ d ∈ args, d.Native) :
    Post Datum.Native Fault.Raised (b.call args).outcome := by
  unfold call
  split
  · rename_i x
    have hx := h x (by simp)
    rw [Traced.outcome_bind]
    refine (format_post hx).bind fun text _ => ?_
    exact .ok .null
  · rename_i x y
    rw [Traced.outcome_bind]
    exact (integers_post (by simp) (h x (by simp)) (h y (by simp))).bind fun r _ => .ok (.int _)
  · rename_i x y
    rw [Traced.outcome_bind]
    exact (integers_post (by simp) (h x (by simp)) (h y (by simp))).bind fun r _ => .ok (.bool _)
  · rename_i x y
    rw [Traced.outcome_bind]
    exact (integers_post (by simp) (h x (by simp)) (h y (by simp))).bind fun r _ => .ok (.bool _)
  · exact .ok (.bool _)
  · exact .ok (.bool _)
  · rename_i x y
    refine .ok ?_
    split
    · exact h y (by simp)
    · exact h x (by simp)
  · rename_i x y
    refine .ok ?_
    split
    · exact h x (by simp)
    · exact h y (by simp)
  · exact .ok (.bool _)
  · refine .error (.arity fun hl => ?_)
    cases b with
    | print | negation =>
      obtain ⟨x, rfl⟩ := List.length_eq_one_iff.1 hl
      simp at *
    | _ =>
      obtain ⟨x, y, rfl⟩ : ∃ x y, args = [x, y] := by
        rcases args with _ | ⟨x, _ | ⟨y, _ | ⟨z, rest⟩⟩⟩ <;> simp [parameters] at hl ⊢
      simp at *

end Builtin

/-! ## Calls -/

namespace Eval

theorem trace_ensures {E : Fault → Prop} (text : Except Fault String) :
    Ensures (fun _ => True) E (trace false text : Run σ Fault Unit) :=
  .pure trivial

theorem toHost_ensures {args : List Value} (h : ∀ v ∈ args, v.Canonical) :
    Ensures (fun native : List Datum => ∀ d ∈ native, d.Native) Fault.Raised
      (args.mapM fun v => (liftM v.toHost : Run σ Fault Datum)) := by
  induction args with
  | nil => exact .pure nofun
  | cons v rest ih =>
    rw [List.mapM_cons]
    refine (Ensures.lift (h v List.mem_cons_self).toHost).bind fun d hd => ?_
    refine (ih fun v hv => h v (List.mem_cons_of_mem _ hv)).bind fun ds hds => ?_
    exact .pure (by simpa using ⟨hd, hds⟩)

/-- A call of a standard function returns a value that scripts compute with. -/
theorem callEmbedded_ensures (host : Host ι σ) (name : Name) (b : Builtin) {args : List Value}
    (h : ∀ v ∈ args, v.Canonical) :
    Ensures Value.Canonical Fault.Raised
      (callEmbedded (Callback.call host) false name (.standard b) args) := by
  refine (toHost_ensures h).bind fun native hnative => ?_
  refine (trace_ensures _).bind fun _ _ => .lift_bind rfl ?_
  refine (Ensures.liftTraced (b.call_post hnative)).bind fun result hresult => ?_
  exact .lift hresult.ofHost

end Eval
end Tama
