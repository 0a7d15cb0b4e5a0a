/-!
# Computations that print

A `Traced` computation prints lines and ends in a result or an error; a `Run` also threads a state.
Lines that were printed before an error stay printed. Main statements: both are lawful monads, and
what a run has printed before never matters, because a computation only ever returns the lines of
its own.
-/

set_option autoImplicit false

namespace Tama

/-! ## Traced -/

/-- The lines that a computation printed and how it ended. -/
structure Traced (ε α : Type) where
  lines : List String
  outcome : Except ε α

namespace Traced

variable {ε α β : Type}

/-- Ends in an error. -/
def fail (e : ε) : Traced ε α :=
  ⟨[], .error e⟩

/-- Prints one line. -/
def line (s : String) : Traced ε Unit :=
  ⟨[s], .ok ()⟩

/-- Continues after a result, with the lines so far in front. -/
def bind (x : Traced ε α) (f : α → Traced ε β) : Traced ε β :=
  match x.outcome with
  | .ok a => ⟨x.lines ++ (f a).lines, (f a).outcome⟩
  | .error e => ⟨x.lines, .error e⟩

instance : Monad (Traced ε) where
  pure a := ⟨[], .ok a⟩
  bind := bind

instance : MonadLift (Except ε) (Traced ε) := ⟨fun x => ⟨[], x⟩⟩

/-- Restates the error of a computation. -/
def mapError {ε' : Type} (f : ε → ε') (x : Traced ε α) : Traced ε' α :=
  ⟨x.lines, x.outcome.mapError f⟩

@[simp] theorem pure_def (a : α) : (pure a : Traced ε α) = ⟨[], .ok a⟩ := rfl

@[simp] theorem bind_ok (ls : List String) (a : α) (f : α → Traced ε β) :
    (⟨ls, .ok a⟩ : Traced ε α) >>= f = ⟨ls ++ (f a).lines, (f a).outcome⟩ := rfl

@[simp] theorem bind_error (ls : List String) (e : ε) (f : α → Traced ε β) :
    (⟨ls, .error e⟩ : Traced ε α) >>= f = ⟨ls, .error e⟩ := rfl

theorem bind_assoc {γ : Type} (x : Traced ε α) (f : α → Traced ε β) (g : β → Traced ε γ) :
    x >>= f >>= g = x >>= fun a => f a >>= g := by
  obtain ⟨ls, o⟩ := x
  cases o with
  | error e => rfl
  | ok a =>
    simp only [bind_ok]
    obtain ⟨ls', o'⟩ := f a
    cases o' <;> simp

theorem bind_pure (x : Traced ε α) : (x >>= fun a => pure a) = x := by
  obtain ⟨ls, o⟩ := x
  cases o <;> simp

instance : LawfulMonad (Traced ε) :=
  LawfulMonad.mk' _ bind_pure (fun _ _ => rfl) bind_assoc

end Traced

/-! ## Run -/

/-- A computation that prints, may fail, and threads a state through both. -/
def Run (σ ε α : Type) : Type :=
  σ → Traced ε α × σ

namespace Run

variable {σ ε α β : Type}

/-- Continues after a result, in the state and with the lines so far. -/
def bind (x : Run σ ε α) (f : α → Run σ ε β) : Run σ ε β := fun s =>
  match x s with
  | (⟨ls, .ok a⟩, t) =>
    let (r, u) := f a t
    (⟨ls ++ r.lines, r.outcome⟩, u)
  | (⟨ls, .error e⟩, t) => (⟨ls, .error e⟩, t)

instance : Monad (Run σ ε) where
  pure a := fun s => (⟨[], .ok a⟩, s)
  bind := bind

/-- Ends in an error. -/
def fail (e : ε) : Run σ ε α := fun s =>
  (⟨[], .error e⟩, s)

/-- Prints one line. -/
def line (text : String) : Run σ ε Unit := fun s =>
  (⟨[text], .ok ()⟩, s)

instance : MonadLift (Except ε) (Run σ ε) := ⟨fun x s => (⟨[], x⟩, s)⟩

instance : MonadLift (Traced ε) (Run σ ε) := ⟨fun x s => (x, s)⟩

/-- Restates the error of a run. -/
def mapError {ε' : Type} (f : ε → ε') (x : Run σ ε α) : Run σ ε' α := fun s =>
  let (r, t) := x s
  (r.mapError f, t)

@[simp] theorem pure_apply (a : α) (s : σ) : (pure a : Run σ ε α) s = (⟨[], .ok a⟩, s) := rfl

theorem bind_apply (x : Run σ ε α) (f : α → Run σ ε β) (s : σ) :
    (x >>= f) s =
      match x s with
      | (⟨ls, .ok a⟩, t) => (⟨ls ++ (f a t).1.lines, (f a t).1.outcome⟩, (f a t).2)
      | (⟨ls, .error e⟩, t) => (⟨ls, .error e⟩, t) := rfl

theorem bind_apply_ok {x : Run σ ε α} {s t : σ} {ls : List String} {a : α}
    (h : x s = (⟨ls, .ok a⟩, t)) (f : α → Run σ ε β) :
    (x >>= f) s = (⟨ls ++ (f a t).1.lines, (f a t).1.outcome⟩, (f a t).2) := by
  rw [bind_apply, h]

theorem bind_apply_error {x : Run σ ε α} {s t : σ} {ls : List String} {e : ε}
    (h : x s = (⟨ls, .error e⟩, t)) (f : α → Run σ ε β) :
    (x >>= f) s = (⟨ls, .error e⟩, t) := by
  rw [bind_apply, h]

theorem bind_pure (x : Run σ ε α) : (x >>= fun a => pure a) = x := by
  funext s
  rw [bind_apply]
  obtain ⟨⟨ls, o⟩, t⟩ := x s
  cases o <;> simp

theorem bind_assoc {γ : Type} (x : Run σ ε α) (f : α → Run σ ε β) (g : β → Run σ ε γ) :
    x >>= f >>= g = x >>= fun a => f a >>= g := by
  funext s
  rw [bind_apply, bind_apply, bind_apply]
  match x s with
  | (⟨ls, .error e⟩, t) => rfl
  | (⟨ls, .ok a⟩, t) =>
    simp only [bind_apply]
    obtain ⟨⟨ls', o'⟩, t'⟩ := f a t
    cases o' <;> simp

instance : LawfulMonad (Run σ ε) :=
  LawfulMonad.mk' _ bind_pure (fun _ _ => rfl) bind_assoc

end Run
end Tama
