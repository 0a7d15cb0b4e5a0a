import Tama.Run

/-!
# What runs return

`Returns x s a t`: from the state `s` the run `x` ends in the result `a` and the state `t`, whatever
it prints. A run with several parts returns exactly what its parts do one after the other, so a
proof takes a run apart with `Returns.of_bind` and puts it together with `Returns.bind`.

`Ensures P E x`: from any state the run `x` ends in a result with `P` or in an error with `E`. This
is for what holds of every part of a run and needs no word about states.

`Mirrors R x y`: from any state the two runs print the same, end in the same state, and end in the
same error or in results with `R`.
-/

set_option autoImplicit false

namespace Tama

theorem Traced.outcome_bind {ε α β : Type} (x : Traced ε α) (f : α → Traced ε β) :
    (x >>= f).outcome = x.outcome.bind fun a => (f a).outcome := by
  obtain ⟨lines, o⟩ := x
  cases o <;> rfl

theorem Traced.of_bind_ok {ε α β : Type} {x : Traced ε α} {f : α → Traced ε β} {b : β}
    (h : (x >>= f).outcome = .ok b) : ∃ a, x.outcome = .ok a ∧ (f a).outcome = .ok b := by
  rw [Traced.outcome_bind] at h
  cases hx : x.outcome with
  | error e =>
    rw [hx] at h
    cases h
  | ok a =>
    rw [hx] at h
    exact ⟨a, rfl, h⟩

namespace Run

variable {σ ε α β : Type}

/-- A run ends in a result and a state. -/
def Returns (x : Run σ ε α) (s : σ) (a : α) (t : σ) : Prop :=
  ∃ lines, x s = (⟨lines, .ok a⟩, t)

theorem Returns.pure (a : α) (s : σ) : Returns (pure a : Run σ ε α) s a s :=
  ⟨[], rfl⟩

theorem Returns.of_pure {a b : α} {s t : σ} (h : Returns (Pure.pure a : Run σ ε α) s b t) :
    b = a ∧ t = s := by
  obtain ⟨lines, h⟩ := h
  cases h
  exact ⟨rfl, rfl⟩

/-- A lifted computation that yields a result is none to wait for. -/
theorem lift_bind {x : Except ε α} {a : α} (h : x = .ok a) (f : α → Run σ ε β) :
    ((liftM x : Run σ ε α) >>= f) = f a := by
  rw [h]
  rfl

/-- What a lifted computation prints stands in front. -/
theorem liftTraced_bind_ok {x : Traced ε α} {a : α} (h : x.outcome = .ok a) (f : α → Run σ ε β)
    (s : σ) : ((liftM x : Run σ ε α) >>= f) s =
      (⟨x.lines ++ (f a s).1.lines, (f a s).1.outcome⟩, (f a s).2) := by
  obtain ⟨lines, o⟩ := x
  cases h
  rfl

theorem liftTraced_bind_error {x : Traced ε α} {e : ε} (h : x.outcome = .error e)
    (f : α → Run σ ε β) (s : σ) :
    ((liftM x : Run σ ε α) >>= f) s = (⟨x.lines, .error e⟩, s) := by
  obtain ⟨lines, o⟩ := x
  cases h
  rfl

theorem Returns.not_fail {e : ε} {a : α} {s t : σ} : ¬ Returns (fail e : Run σ ε α) s a t := by
  rintro ⟨lines, h⟩
  cases h

theorem Returns.bind {x : Run σ ε α} {f : α → Run σ ε β} {s mid t : σ} {a : α} {b : β}
    (hx : Returns x s a mid) (hf : Returns (f a) mid b t) : Returns (x >>= f) s b t := by
  obtain ⟨lines, hx⟩ := hx
  obtain ⟨more, hf⟩ := hf
  exact ⟨lines ++ more, by rw [bind_apply_ok hx, hf]⟩

/-- A run with two parts prints the lines of both, one behind the other. -/
theorem of_bind_eq_ok {x : Run σ ε α} {f : α → Run σ ε β} {s t : σ} {lines : List String} {b : β}
    (h : (x >>= f) s = (⟨lines, .ok b⟩, t)) :
    ∃ first a mid more, x s = (⟨first, .ok a⟩, mid) ∧ f a mid = (⟨more, .ok b⟩, t) ∧
      lines = first ++ more := by
  rcases hx : x s with ⟨⟨first, o⟩, mid⟩
  cases o with
  | error e =>
    rw [bind_apply_error hx] at h
    cases h
  | ok a =>
    rw [bind_apply_ok hx] at h
    rcases hf : f a mid with ⟨⟨more, o⟩, u⟩
    rw [hf] at h
    cases h
    exact ⟨first, a, mid, more, rfl, hf, rfl⟩

theorem Returns.of_bind {x : Run σ ε α} {f : α → Run σ ε β} {s t : σ} {b : β}
    (h : Returns (x >>= f) s b t) : ∃ a mid, Returns x s a mid ∧ Returns (f a) mid b t := by
  obtain ⟨lines, h⟩ := h
  obtain ⟨first, a, mid, more, hx, hf, -⟩ := of_bind_eq_ok h
  exact ⟨a, mid, ⟨first, hx⟩, more, hf⟩

/-- What a lifted computation yields is known to the rest of the run. -/
theorem of_lift_bind_eq_ok {x : Except ε α} {f : α → Run σ ε β} {s t : σ} {lines : List String}
    {b : β} (h : ((liftM x : Run σ ε α) >>= f) s = (⟨lines, .ok b⟩, t)) :
    ∃ a, x = .ok a ∧ f a s = (⟨lines, .ok b⟩, t) := by
  cases x with
  | error e => cases h
  | ok a => exact ⟨a, rfl, h⟩

theorem Returns.of_lift_bind {x : Except ε α} {f : α → Run σ ε β} {s t : σ} {b : β}
    (h : Returns ((liftM x : Run σ ε α) >>= f) s b t) :
    ∃ a, x = .ok a ∧ Returns (f a) s b t := by
  obtain ⟨lines, h⟩ := h
  obtain ⟨a, ha, h⟩ := of_lift_bind_eq_ok h
  exact ⟨a, ha, lines, h⟩

theorem Returns.unique {x : Run σ ε α} {s t u : σ} {a b : α} (h : Returns x s a t)
    (h' : Returns x s b u) : a = b ∧ t = u := by
  obtain ⟨lines, h⟩ := h
  obtain ⟨others, h'⟩ := h'
  rw [h] at h'
  cases h'
  exact ⟨rfl, rfl⟩

theorem mapError_apply {ε' : Type} {x : Run σ ε α} {s t : σ} {r : Traced ε α}
    (h : x s = (r, t)) (f : ε → ε') : x.mapError f s = (r.mapError f, t) := by
  unfold mapError
  rw [h]

/-- A run ends as what comes after its first part does. -/
theorem Returns.outcome_bind {x : Run σ ε α} {s mid : σ} {a : α} (hx : Returns x s a mid)
    (f : α → Run σ ε β) : ((x >>= f) s).1.outcome = (f a mid).1.outcome := by
  obtain ⟨lines, hx⟩ := hx
  rw [bind_apply_ok hx]

/-- Runs go on alike from a point on from which their continuations do. -/
theorem Returns.bind_congr {x : Run σ ε α} {f g : α → Run σ ε β} {s mid : σ} {a : α}
    (hx : Returns x s a mid) (h : f a mid = g a mid) : (x >>= f) s = (x >>= g) s := by
  obtain ⟨lines, hx⟩ := hx
  rw [bind_apply_ok hx, bind_apply_ok hx, h]

/-! ## Postconditions -/

/-- An outcome is a result with `P` or an error with `E`. -/
inductive Post (P : α → Prop) (E : ε → Prop) : Except ε α → Prop
  | ok {a : α} : P a → Post P E (.ok a)
  | error {e : ε} : E e → Post P E (.error e)

/-- A run ends in a result with `P` or in an error with `E`. -/
def Ensures (P : α → Prop) (E : ε → Prop) (x : Run σ ε α) : Prop :=
  ∀ s, Post P E (x s).1.outcome

variable {P : α → Prop} {Q : β → Prop} {E : ε → Prop}

theorem Post.mono {P' : α → Prop} {E' : ε → Prop} {x : Except ε α} (h : Post P E x)
    (hP : ∀ a, P a → P' a) (hE : ∀ e, E e → E' e) : Post P' E' x := by
  cases h with
  | ok h => exact .ok (hP _ h)
  | error h => exact .error (hE _ h)

theorem Post.mapError {ε' : Type} {E' : ε' → Prop} {x : Except ε α} (h : Post P E x)
    {f : ε → ε'} (hE : ∀ e, E e → E' (f e)) : Post P E' (x.mapError f) := by
  cases h with
  | ok h => exact .ok h
  | error h => exact .error (hE _ h)

theorem Post.bind {x : Except ε α} {f : α → Except ε β} (hx : Post P E x)
    (hf : ∀ a, P a → Post Q E (f a)) : Post Q E (x.bind f) := by
  cases hx with
  | ok h => exact hf _ h
  | error h => exact .error h

/-- Where errors do not matter, only what comes last does. -/
theorem Post.bind_left {x : Except ε α} {f : α → Except ε β}
    (hf : ∀ a, Post Q (fun _ => True) (f a)) : Post Q (fun _ => True) (x.bind f) := by
  cases x with
  | ok a => exact hf a
  | error e => exact .error True.intro

theorem Ensures.pure {a : α} (h : P a) : Ensures P E (pure a : Run σ ε α) :=
  fun _ => .ok h

theorem Ensures.fail {e : ε} (h : E e) : Ensures P E (fail e : Run σ ε α) :=
  fun _ => .error h

theorem Ensures.lift {x : Except ε α} (h : Post P E x) : Ensures P E (liftM x : Run σ ε α) :=
  fun _ => h

theorem Ensures.liftTraced {x : Traced ε α} (h : Post P E x.outcome) :
    Ensures P E (liftM x : Run σ ε α) :=
  fun _ => h

theorem Ensures.mono {P' : α → Prop} {E' : ε → Prop} {x : Run σ ε α} (h : Ensures P E x)
    (hP : ∀ a, P a → P' a) (hE : ∀ e, E e → E' e) : Ensures P' E' x :=
  fun s => (h s).mono hP hE

/-- Nothing is ensured of any run. -/
theorem Ensures.any (x : Run σ ε α) : Ensures (fun _ => True) (fun _ => True) x := by
  intro s
  cases (x s).1.outcome with
  | ok a => exact .ok trivial
  | error e => exact .error trivial

theorem Ensures.bind {x : Run σ ε α} {f : α → Run σ ε β} (hx : Ensures P E x)
    (hf : ∀ a, P a → Ensures Q E (f a)) : Ensures Q E (x >>= f) := by
  intro s
  have hpost := hx s
  rcases hs : x s with ⟨⟨lines, o⟩, t⟩
  rw [hs] at hpost
  cases hpost with
  | ok h =>
    rw [bind_apply_ok hs]
    exact hf _ h t
  | error h =>
    rw [bind_apply_error hs]
    exact .error h

/-- Going on with what a lifted computation is known to yield. -/
theorem Ensures.lift_bind {x : Except ε α} {a : α} {f : α → Run σ ε β} (hx : x = .ok a)
    (hf : Ensures Q E (f a)) : Ensures Q E ((liftM x : Run σ ε α) >>= f) := by
  rw [Run.lift_bind hx]
  exact hf

/-! ## Two runs -/

/-- Two outcomes are the same error, or results with `R`. -/
inductive Alike {γ : Type} (R : α → γ → Prop) : Except ε α → Except ε γ → Prop
  | ok {a : α} {c : γ} : R a c → Alike R (.ok a) (.ok c)
  | error (e : ε) : Alike R (.error e) (.error e)

/-- Two runs go alike, with results in `R`. -/
def Mirrors {γ : Type} (R : α → γ → Prop) (x : Run σ ε α) (y : Run σ ε γ) : Prop :=
  ∀ s, (x s).1.lines = (y s).1.lines ∧ Alike R (x s).1.outcome (y s).1.outcome ∧
    (x s).2 = (y s).2

section

variable {γ δ : Type} {R : α → γ → Prop} {S : β → δ → Prop}

theorem Alike.mono {R' : α → γ → Prop} {x : Except ε α} {y : Except ε γ} (h : Alike R x y)
    (hR : ∀ a c, R a c → R' a c) : Alike R' x y := by
  cases h with
  | ok h => exact .ok (hR _ _ h)
  | error e => exact .error e

theorem Mirrors.refl (x : Run σ ε α) : Mirrors Eq x x := by
  intro s
  refine ⟨rfl, ?_, rfl⟩
  cases (x s).1.outcome with
  | ok a => exact .ok rfl
  | error e => exact .error e

theorem Mirrors.fail (e : ε) : Mirrors R (fail e : Run σ ε α) (fail e) :=
  fun _ => ⟨rfl, .error e, rfl⟩

theorem Mirrors.pure {a : α} {c : γ} (h : R a c) :
    Mirrors R (pure a : Run σ ε α) (pure c : Run σ ε γ) :=
  fun _ => ⟨rfl, .ok h, rfl⟩

theorem Mirrors.mono {R' : α → γ → Prop} {x : Run σ ε α} {y : Run σ ε γ} (h : Mirrors R x y)
    (hR : ∀ a c, R a c → R' a c) : Mirrors R' x y := by
  intro s
  obtain ⟨hlines, hout, hstate⟩ := h s
  exact ⟨hlines, hout.mono hR, hstate⟩

theorem Mirrors.bind {x : Run σ ε α} {y : Run σ ε γ} {f : α → Run σ ε β} {g : γ → Run σ ε δ}
    (hx : Mirrors R x y) (hf : ∀ a c, R a c → Mirrors S (f a) (g c)) :
    Mirrors S (x >>= f) (y >>= g) := by
  intro s
  obtain ⟨hlines, hout, hstate⟩ := hx s
  rcases hxs : x s with ⟨⟨lines, o⟩, t⟩
  rcases hys : y s with ⟨⟨lines', o'⟩, t'⟩
  rw [hxs, hys] at hlines hout hstate
  cases hlines
  cases hstate
  cases hout with
  | @ok a c h =>
    obtain ⟨hlines, hout, hstate⟩ := hf a c h t
    rw [bind_apply_ok hxs, bind_apply_ok hys]
    exact ⟨congrArg (lines ++ ·) hlines, hout, hstate⟩
  | error e =>
    rw [bind_apply_error hxs, bind_apply_error hys]
    exact ⟨rfl, .error e, rfl⟩

/-- Two runs that begin with the same run. -/
theorem Mirrors.bind_left (x : Run σ ε α) {f : α → Run σ ε β} {g : α → Run σ ε δ}
    (hf : ∀ a, Mirrors S (f a) (g a)) : Mirrors S (x >>= f) (x >>= g) := by
  refine (Mirrors.refl x).bind fun a c h => ?_
  cases h
  exact hf a

/-- Two runs that begin with the same lifted computation, with what it yields known. -/
theorem Mirrors.lift_bind (x : Except ε α) {f : α → Run σ ε β} {g : α → Run σ ε δ}
    (hf : ∀ a, x = .ok a → Mirrors S (f a) (g a)) :
    Mirrors S ((liftM x : Run σ ε α) >>= f) ((liftM x : Run σ ε α) >>= g) := by
  cases x with
  | ok a => exact hf a rfl
  | error e => exact fun _ => ⟨rfl, .error e, rfl⟩

/-- Two runs that begin with lifted computations, the second of which yields an image of what the
first one yields. -/
theorem Mirrors.lift_map_bind (x : Except ε α) (h : α → γ) {f : α → Run σ ε β} {g : γ → Run σ ε δ}
    (hf : ∀ a, x = .ok a → Mirrors S (f a) (g (h a))) :
    Mirrors S ((liftM x : Run σ ε α) >>= f) ((liftM (x.map h) : Run σ ε γ) >>= g) := by
  cases x with
  | ok a => exact hf a rfl
  | error e => exact fun _ => ⟨rfl, .error e, rfl⟩

end

end Run
end Tama
