import Tama.Eval

/-!
# Observed evaluation

The evaluator again, with a log of what it does: which callbacks it calls, and what each evaluation
nested in it returns. The log is part of the state of the run, and `observe` differs from `eval`
only in the step for nested nodes and in how callbacks are called, both of which `node` takes as
parameters; so the log cannot miss a nested evaluation.

`Watches` relates a run to its observation: the two end alike, and what the observation adds to the
log is in order. It is what one proves of each function of the evaluator (`Watches.bind` for their
parts); `Hands` is its form for a run that has only an error to pass on.
-/

set_option autoImplicit false

namespace Tama.Eval

variable {ι σ : Type}

/-! ## Events -/

/-- What an evaluation does that others can see, or that goes on inside it. -/
inductive Event (ι : Type) where
  /-- A callback is called on native data. -/
  | called (callback : Callback ι) (args : List Datum)
  /-- An evaluation of a nested node returns a value. -/
  | returned (v : Value)

/-- Adds an event to the log. -/
def record (event : Event ι) : Run (σ × List (Event ι)) Fault Unit := fun (s, log) =>
  (⟨[], .ok ()⟩, (s, log ++ [event]))

/-- A run that leaves the log alone. -/
def unlogged {α : Type} (x : Run σ Fault α) : Run (σ × List (Event ι)) Fault α := fun (s, log) =>
  ((x s).1, ((x s).2, log))

/-- Calls callbacks and logs the calls. -/
def logCalls (invoke : Invoke ι σ) : Invoke ι (σ × List (Event ι)) := fun callback args => do
  record (.called callback args)
  unlogged (invoke callback args)

/-- Evaluates a node and logs what it returns. -/
def logReturn (step : Step ι (σ × List (Event ι))) : Step ι (σ × List (Event ι)) :=
  fun node env => do
    let r ← step node env
    record (.returned r.1)
    pure r

/-- Evaluates a node and logs every call of a callback and every value that an evaluation nested in
it returns, at any depth. -/
def observe (invoke : Invoke ι σ) (debug : Bool) : Nat → Step ι (σ × List (Event ι))
  | 0 => fun _ _ => Run.fail .tooDeep
  | depth + 1 => node (logCalls invoke) debug (logReturn (observe invoke debug depth))

/-! ## Logs -/

/-- No evaluation returned an error. -/
def Clean (events : List (Event ι)) : Prop :=
  ∀ v, .returned v ∈ events → v.isError = false

/-- Some evaluation returned an error, none did before, and from there on nothing else happens but
that evaluations return that error. -/
def Stopped (e : Value) (events : List (Event ι)) : Prop :=
  ∃ earlier later, events = earlier ++ .returned e :: later ∧ Clean earlier ∧
    e.isError = true ∧ ∀ event ∈ later, event = .returned e

theorem Clean.nil : Clean ([] : List (Event ι)) := by
  intro v h
  cases h

theorem Clean.called (callback : Callback ι) (args : List Datum) :
    Clean [.called callback args] := by
  intro v h
  simp at h

theorem Clean.append {events more : List (Event ι)} (h : Clean events) (h' : Clean more) :
    Clean (events ++ more) := by
  intro v hv
  exact (List.mem_append.1 hv).elim (h v) (h' v)

theorem Clean.append_stopped {events more : List (Event ι)} {e : Value} (h : Clean events)
    (h' : Stopped e more) : Stopped e (events ++ more) := by
  obtain ⟨earlier, later, rfl, hc, rest⟩ := h'
  exact ⟨events ++ earlier, later, by simp, h.append hc, rest⟩

/-- The error that stopped the log may come back once more, as the result of a node around it. -/
theorem Stopped.returned {events : List (Event ι)} {e : Value} (h : Stopped e events) :
    Stopped e (events ++ [.returned e]) := by
  obtain ⟨earlier, later, rfl, hc, he, hl⟩ := h
  refine ⟨earlier, later ++ [.returned e], by simp, hc, he, fun event hm => ?_⟩
  rcases List.mem_append.1 hm with hm | hm
  · exact hl event hm
  · exact List.mem_singleton.1 hm

theorem Clean.returned_ok {events : List (Event ι)} {v : Value} (h : Clean events)
    (hv : v.isError = false) : Clean (events ++ [.returned v]) := by
  refine h.append fun w hw => ?_
  cases List.mem_singleton.1 hw
  exact hv

theorem Clean.returned_error {events : List (Event ι)} {v : Value} (h : Clean events)
    (hv : v.isError = true) : Stopped v (events ++ [.returned v]) :=
  ⟨events, [], rfl, h, hv, by simp⟩

/-- In a stopped log the first error is the only one, wherever one looks. -/
theorem Stopped.split {events earlier later : List (Event ι)} {e v : Value}
    (h : Stopped e events) (hs : events = earlier ++ .returned v :: later)
    (hv : v.isError = true) : v = e ∧ ∀ event ∈ later, event = .returned e := by
  obtain ⟨before, after, rfl, hc, he, ha⟩ := h
  rcases List.append_eq_append_iff.1 hs with ⟨mid, rfl, hm⟩ | ⟨mid, rfl, hm⟩
  · cases mid with
    | nil =>
      cases hm
      exact ⟨rfl, ha⟩
    | cons first mid =>
      cases hm
      have hmem : ∀ event ∈ Event.returned v :: later, event = .returned e :=
        fun event hev => ha event (List.mem_append_right mid hev)
      cases hmem _ List.mem_cons_self
      exact ⟨rfl, fun event hev => hmem event (List.mem_cons_of_mem _ hev)⟩
  · cases mid with
    | nil =>
      cases hm
      exact ⟨rfl, ha⟩
    | cons first mid =>
      cases hm
      have := hc v (by simp)
      rw [hv] at this
      cases this

/-! ## Runs and their observations -/

section

variable {α β : Type} (debug : Bool)

/-- A run ends in an error of the script, `errorOf` being how its result tells. The trace of the
error may have failed instead. -/
def EndsIn (errorOf : α → Option Value) (e : Value) : Except Fault α → Prop
  | .ok a => errorOf a = some e
  | .error _ => debug = true

/-- An observation ends as the run does. What it adds to the log has no error in it, or an error
that stopped everything and that the run ends in. -/
def Watches (errorOf : α → Option Value) (x : Run σ Fault α)
    (y : Run (σ × List (Event ι)) Fault α) : Prop :=
  ∀ s log, ∃ events, y (s, log) = ((x s).1, ((x s).2, log ++ events)) ∧
    (Clean events ∨ ∃ e, Stopped e events ∧ EndsIn debug errorOf e (x s).1.outcome)

/-- An observation ends as the run does, in an error, and adds nothing to the log. -/
def Hands (errorOf : α → Option Value) (e : Value) (x : Run σ Fault α)
    (y : Run (σ × List (Event ι)) Fault α) : Prop :=
  ∀ s log, y (s, log) = ((x s).1, ((x s).2, log)) ∧ EndsIn debug errorOf e (x s).1.outcome

/-- What results tell of errors when they are none that could hold one. -/
abbrev noError : α → Option Value := fun _ => none

variable {debug} {errorOf : α → Option Value} {errorOf' : β → Option Value}

/-- An observation that adds nothing to the log. -/
theorem Watches.of_silent {x : Run σ Fault α} {y : Run (σ × List (Event ι)) Fault α}
    (h : ∀ s log, y (s, log) = ((x s).1, ((x s).2, log))) : Watches debug errorOf x y :=
  fun s log => ⟨[], by rw [h, List.append_nil], .inl .nil⟩

theorem Watches.pure (a : α) :
    Watches debug errorOf (pure a : Run σ Fault α) (pure a : Run (σ × List (Event ι)) Fault α) :=
  .of_silent fun _ _ => rfl

theorem Watches.lift (x : Except Fault α) :
    Watches debug errorOf (liftM x : Run σ Fault α)
      (liftM x : Run (σ × List (Event ι)) Fault α) :=
  .of_silent fun _ _ => rfl

theorem Watches.fail (f : Fault) :
    Watches debug errorOf (Run.fail f : Run σ Fault α)
      (Run.fail f : Run (σ × List (Event ι)) Fault α) :=
  .of_silent fun _ _ => rfl

theorem Watches.line (text : String) :
    Watches debug noError (Run.line text : Run σ Fault Unit)
      (Run.line text : Run (σ × List (Event ι)) Fault Unit) :=
  .of_silent fun _ _ => rfl

theorem Hands.pure {a : α} {e : Value} (h : errorOf a = some e) :
    Hands debug errorOf e (pure a : Run σ Fault α)
      (pure a : Run (σ × List (Event ι)) Fault α) :=
  fun _ _ => ⟨rfl, h⟩

theorem Watches.bind {x : Run σ Fault α} {y : Run (σ × List (Event ι)) Fault α}
    {f : α → Run σ Fault β} {g : α → Run (σ × List (Event ι)) Fault β}
    (hx : Watches debug errorOf x y) (hf : ∀ a, Watches debug errorOf' (f a) (g a))
    (hands : ∀ a e, errorOf a = some e → e.isError = true →
      Hands debug errorOf' e (f a) (g a)) :
    Watches debug errorOf' (x >>= f) (y >>= g) := by
  intro s log
  obtain ⟨events, hy, hlog⟩ := hx s log
  rcases hxs : x s with ⟨⟨lines, o⟩, t⟩
  rw [hxs] at hy hlog
  cases o with
  | error fault =>
    refine ⟨events, ?_, ?_⟩
    · rw [Run.bind_apply_error hxs, Run.bind_apply_error hy]
    · rw [Run.bind_apply_error hxs]
      exact hlog
  | ok a =>
    rw [Run.bind_apply_ok hxs, Run.bind_apply_ok hy]
    rcases hlog with hclean | ⟨e, hstop, hend⟩
    · obtain ⟨more, hg, hlog'⟩ := hf a t (log ++ events)
      refine ⟨events ++ more, by rw [hg, List.append_assoc], ?_⟩
      rcases hlog' with hclean' | ⟨e, hstop', hend'⟩
      · exact .inl (hclean.append hclean')
      · exact .inr ⟨e, hclean.append_stopped hstop', hend'⟩
    · have he : e.isError = true := by
        obtain ⟨_, _, _, _, he, _⟩ := hstop
        exact he
      obtain ⟨hg, hend'⟩ := hands a e hend he t (log ++ events)
      exact ⟨events, by rw [hg], .inr ⟨e, hstop, hend'⟩⟩

/-- A part whose result tells of no error has none to pass on. -/
theorem Watches.bind_noError {x : Run σ Fault α} {y : Run (σ × List (Event ι)) Fault α}
    {f : α → Run σ Fault β} {g : α → Run (σ × List (Event ι)) Fault β}
    (hx : Watches debug noError x y) (hf : ∀ a, Watches debug errorOf' (f a) (g a)) :
    Watches debug errorOf' (x >>= f) (y >>= g) :=
  hx.bind hf fun _ _ h => by cases h

/-- Reading a part of a node or a property of a value. -/
theorem Watches.lift_bind (x : Except Fault α) {f : α → Run σ Fault β}
    {g : α → Run (σ × List (Event ι)) Fault β} (hf : ∀ a, Watches debug errorOf' (f a) (g a)) :
    Watches debug errorOf' ((liftM x : Run σ Fault α) >>= f)
      ((liftM x : Run (σ × List (Event ι)) Fault α) >>= g) :=
  (Watches.lift x).bind_noError hf

end

end Tama.Eval
