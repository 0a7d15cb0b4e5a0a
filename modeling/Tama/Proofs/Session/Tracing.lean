import Tama.Proofs.Eval.Printing
import Tama.Proofs.Eval.Propagation
import Tama.Proofs.Session.Evaluation

/-!
# Evaluation with a trace

With `debug` on, evaluation prints what it does. In a safe environment that is all: `Traces` relates
the observed run without a trace to the one with it, which prints the same lines and others between
them, calls the same callbacks and ends alike. The trace writes out the arguments of standard
functions, and an integer among them may be too long for that; then the run with the trace stops at
that very call, with all printed that the calls before it print (`Follows.stopped`). No other text
of the trace can fail: the names and messages that it quotes come from the text of the script.

There is one lemma for each function of the evaluator, over whatever evaluates the nodes inside, and
the induction on the depth is at the end (`observe_traces`).
-/

set_option autoImplicit false

namespace Tama.Eval

open Run

variable {ι σ α β : Type}

/-! ## Runs beside their traces -/

/-- Some argument is an integer that is too long to be written. -/
def Unwritable (args : List Datum) : Prop :=
  ∃ n, .int n ∈ args ∧ Nat.pow 10 Decimal.maxDigits ≤ n.natAbs

/-- What an observed run printed and how it ended, with the host's state and the log. -/
abbrev Observation (ι σ ε α : Type) : Type :=
  Traced ε α × σ × List (Event ι)

/-- How a run with a trace ends beside the run without it, both from a log that holds `start`:
alike, with lines of the trace between the others; or at the limit of digits, where the run without
it makes a call whose arguments cannot be written. What the calls before that one print, both have
printed. -/
inductive Follows {ε : Type} (limit : ε) (start : List (Event ι)) :
    Observation ι σ ε α → Observation ι σ ε α → Prop
  | same {lines lines' : List String} {o : Except ε α} {s : σ} {log : List (Event ι)} :
      lines.Sublist lines' → Follows limit start (⟨lines, o⟩, s, log) (⟨lines', o⟩, s, log)
  | stopped {events later : List (Event ι)} {more lines' : List String} {o : Except ε α}
      {s t : σ} {callback : Callback ι} {args : List Datum} :
      (events.flatMap Event.printed).Sublist lines' → Unwritable args →
      Follows limit start
        (⟨events.flatMap Event.printed ++ more, o⟩, s,
          start ++ events ++ .called callback args :: later)
        (⟨lines', .error limit⟩, t, start ++ events)

/-- The first run prints what its calls print, and from anywhere the second run follows it. -/
structure Traces (x y : Run (σ × List (Event ι)) Fault α) : Prop where
  prints : Prints x
  follows (s : σ) (log : List (Event ι)) :
    Follows (.digits .writing) log (x (s, log)) (y (s, log))

/-- Events in front of both runs, and what they print. -/
theorem Follows.prepend {ε : Type} {limit : ε} {start events : List (Event ι)}
    {r r' : Observation ι σ ε α} {lines' : List String} (h : Follows limit (start ++ events) r r')
    (hl : (events.flatMap Event.printed).Sublist lines') :
    Follows limit start (⟨events.flatMap Event.printed ++ r.1.lines, r.1.outcome⟩, r.2)
      (⟨lines' ++ r'.1.lines, r'.1.outcome⟩, r'.2) := by
  cases h with
  | same hsub => exact .same (hl.append hsub)
  | stopped hsub hargs =>
    simp only [List.append_assoc start events, ← List.append_assoc (events.flatMap _),
      ← List.flatMap_append]
    refine .stopped ?_ hargs
    rw [List.flatMap_append]
    exact hl.append hsub

/-- Lines in front of the run with the trace. -/
theorem Follows.behind {ε : Type} {limit : ε} {start : List (Event ι)}
    {r r' : Observation ι σ ε α} (h : Follows limit start r r') (lines' : List String) :
    Follows limit start r (⟨lines' ++ r'.1.lines, r'.1.outcome⟩, r'.2) := by
  rw [← List.append_nil start] at h
  exact h.prepend (List.nil_sublist _)

theorem Follows.mapError {ε ε' : Type} {limit : ε} {start : List (Event ι)}
    {r r' : Observation ι σ ε α} (h : Follows limit start r r') (f : ε → ε') :
    Follows (f limit) start (r.1.mapError f, r.2) (r'.1.mapError f, r'.2) := by
  cases h with
  | same hsub => exact .same hsub
  | stopped hsub hargs => exact .stopped hsub hargs

/-- What following comes to, from an empty log, for what was printed, the outcome, the host's state
and the log. -/
theorem Follows.alike_or_stopped {ε : Type} {limit : ε} {r r' : Traced ε α} {s s' : σ}
    {log log' : List (Event ι)} (h : Follows limit [] (r, s, log) (r', s', log')) :
    (r'.outcome = r.outcome ∧ s' = s ∧ log' = log ∧ r.lines.Sublist r'.lines) ∨
      r'.outcome = .error limit ∧ ∃ callback args later more, Unwritable args ∧
        log = log' ++ .called callback args :: later ∧
        r.lines = log'.flatMap Event.printed ++ more ∧
        (log'.flatMap Event.printed).Sublist r'.lines := by
  cases h with
  | same hsub => exact .inl ⟨rfl, rfl, rfl, hsub⟩
  | stopped hsub hargs => exact .inr ⟨rfl, _, _, _, _, hargs, rfl, rfl, hsub⟩

namespace Traces

variable {x y : Run (σ × List (Event ι)) Fault α}

/-- A run that traces nothing. -/
theorem of_untraced (h : Prints x) : Traces x x := by
  refine ⟨h, fun s log => ?_⟩
  rcases x (s, log) with ⟨⟨lines, o⟩, t, log'⟩
  exact .same (.refl _)

/-- A run that is about to make a call whose arguments cannot be written. -/
theorem of_unwritable {callback : Callback ι} {args : List Datum} (hargs : Unwritable args)
    (hx : Prints x)
    (h : ∀ s log, ∃ later, (x (s, log)).2.2 = log ++ .called callback args :: later) :
    Traces x (fail (.digits .writing)) := by
  refine ⟨hx, fun s log => ?_⟩
  obtain ⟨later, hlater⟩ := h s log
  rcases hxs : x (s, log) with ⟨⟨lines, o⟩, t, log'⟩
  rw [hxs] at hlater
  obtain rfl : log' = log ++ [] ++ .called callback args :: later := by simpa using hlater
  have hsub : (([] : List (Event ι)).flatMap Event.printed).Sublist [] := .refl []
  have hstop : fail (.digits .writing) (s, log) =
      ((⟨[], .error (.digits .writing)⟩, s, log ++ []) : Observation ι σ Fault α) := by
    rw [List.append_nil]
    rfl
  rw [hstop]
  exact .stopped hsub hargs

theorem pure (a : α) : Traces (pure a : Run (σ × List (Event ι)) Fault α) (Pure.pure a) :=
  .of_untraced (.pure a)

theorem fail (f : Fault) : Traces (fail f : Run (σ × List (Event ι)) Fault α) (Run.fail f) :=
  .of_untraced (.fail f)

theorem lift (e : Except Fault α) :
    Traces (liftM e : Run (σ × List (Event ι)) Fault α) (liftM e) :=
  .of_untraced (.lift e)

theorem bind {f g : α → Run (σ × List (Event ι)) Fault β} {P : α → Prop} {E : Fault → Prop}
    (hx : Traces x y) (hP : Ensures P E x) (hf : ∀ a, P a → Traces (f a) (g a)) :
    Traces (x >>= f) (y >>= g) := by
  refine ⟨hx.prints.bind_of hP fun a ha => (hf a ha).prints, fun s log => ?_⟩
  obtain ⟨events, hlog, hlines⟩ := hx.prints s log
  have hfollows := hx.follows s log
  have hpost := hP (s, log)
  rcases hxs : x (s, log) with ⟨⟨lines, o⟩, t, log₁⟩
  rcases hys : y (s, log) with ⟨⟨lines', o'⟩, t', log₂⟩
  rw [hxs] at hlog hlines hfollows hpost
  rw [hys] at hfollows
  dsimp only at hlog hlines
  cases hfollows with
  | same hsub =>
    cases hpost with
    | error =>
      rw [bind_apply_error hxs, bind_apply_error hys]
      exact .same hsub
    | @ok a ha =>
      have hnext := (hf a ha).follows t log₁
      rw [bind_apply_ok hxs, bind_apply_ok hys]
      subst hlog hlines
      exact hnext.prepend hsub
  | @stopped _ later _ _ _ _ _ callback args hsub hargs =>
    rw [bind_apply_error hys]
    cases hpost with
    | error =>
      rw [bind_apply_error hxs]
      exact .stopped hsub hargs
    | @ok a ha =>
      -- what follows the call in the run without a trace comes behind it in the log
      obtain ⟨added, hadded, -⟩ := (hf a ha).prints t _
      rw [bind_apply_ok hxs]
      rcases hfs : f a _ with ⟨⟨rest, o⟩, u, log₃⟩
      rw [hfs] at hadded
      dsimp only at hadded ⊢
      subst hadded
      rw [List.append_assoc (List.flatMap _ _), List.append_assoc (log ++ _), List.cons_append]
      exact .stopped hsub hargs

/-- Going on alike with whatever the first part yields. -/
theorem bind_any {f g : α → Run (σ × List (Event ι)) Fault β} (hx : Traces x y)
    (hf : ∀ a, Traces (f a) (g a)) : Traces (x >>= f) (y >>= g) :=
  hx.bind (.any x) fun a _ => hf a

theorem lift_bind {e : Except Fault α} {a : α} {f g : α → Run (σ × List (Event ι)) Fault β}
    (he : e = .ok a) (hf : Traces (f a) (g a)) :
    Traces ((liftM e : Run (σ × List (Event ι)) Fault α) >>= f) ((liftM e) >>= g) := by
  rw [Run.lift_bind he, Run.lift_bind he]
  exact hf

theorem if_failed (v : Value) {x' y' : Run (σ × List (Event ι)) Fault α} (hx : Traces x x')
    (hy : Traces y y') :
    Traces (do if ← v.failed then x else y) (do if ← v.failed then x' else y') := by
  refine (lift v.failed).bind_any fun b => ?_
  cases b with
  | true => exact hx
  | false => exact hy

end Traces

/-! ## Texts of the trace -/

theorem trace_traces {text : Except Fault String} {words : String} (h : text = .ok words) :
    Traces (trace false text : Run (σ × List (Event ι)) Fault Unit) (trace true text) := by
  subst h
  exact ⟨.pure (), fun s log => .same (List.nil_sublist _)⟩

theorem stopText_result {v : Value} (h : v.Result) : ∃ words, stopText v = .ok words := by
  cases h with
  | value h => cases h <;> exact ⟨_, rfl⟩
  | rejected => exact ⟨_, rfl⟩
  | undefined => exact ⟨_, rfl⟩

theorem definitionText_map_text (name : String) (params : List String) :
    definitionText (.text name) (params.map .text) =
      .ok ("Defined function: " ++ name ++ "(" ++ ", ".intercalate params ++ ")") := by
  simp only [definitionText, Datum.joinItems_map_text]
  rfl

theorem write_cases (n : Int) :
    (∃ text, Decimal.write n = .ok text) ∨
      Decimal.write n = .error .writing ∧ Nat.pow 10 Decimal.maxDigits ≤ n.natAbs := by
  unfold Decimal.write
  split
  · exact .inl ⟨_, rfl⟩
  · rename_i h
    exact .inr ⟨rfl, Nat.le_of_not_lt h⟩

theorem literal_cases {d : Datum} (h : d.Native) :
    (∃ text, d.literal = .ok text) ∨ d.literal = .error .writing ∧ Unwritable [d] := by
  cases h with
  | null => exact .inl ⟨_, rfl⟩
  | bool b => exact .inl ⟨_, rfl⟩
  | int n =>
    rw [Datum.literal]
    exact (write_cases n).imp_right fun h => ⟨h.1, n, List.mem_singleton_self _, h.2⟩

theorem Unwritable.mono {args args' : List Datum} (h : Unwritable args) (hm : args ⊆ args') :
    Unwritable args' := by
  obtain ⟨n, hn, hdigits⟩ := h
  exact ⟨n, hm hn, hdigits⟩

theorem literals_cases {args : List Datum} (h : ∀ d ∈ args, d.Native) :
    (∃ texts, Datum.literals args = .ok texts) ∨
      Datum.literals args = .error .writing ∧ Unwritable args := by
  induction args with
  | nil => exact .inl ⟨_, rfl⟩
  | cons d rest ih =>
    rw [Datum.literals]
    rcases literal_cases (h d List.mem_cons_self) with ⟨text, hd⟩ | ⟨hd, hdigits⟩
    · rw [hd]
      rcases ih fun d hd => h d (List.mem_cons_of_mem _ hd) with ⟨texts, hr⟩ | ⟨hr, hdigits⟩
      · exact .inl ⟨text :: texts, by rw [hr]; rfl⟩
      · exact .inr ⟨by rw [hr]; rfl, hdigits.mono (List.subset_cons_self _ _)⟩
    · exact .inr ⟨by rw [hd]; rfl, hdigits.mono (by simp)⟩

/-- The trace of a call of a standard function can be written, unless an argument cannot. -/
theorem embeddedText_cases (name : String) {args : List Datum} (h : ∀ d ∈ args, d.Native) :
    (∃ words, embeddedText name args = .ok words) ∨
      embeddedText name args = .error (.digits .writing) ∧ Unwritable args := by
  simp only [embeddedText, Datum.literal]
  rcases literals_cases h with ⟨texts, hw⟩ | ⟨hw, hdigits⟩
  · rw [hw]
    exact .inl ⟨_, rfl⟩
  · rw [hw]
    exact .inr ⟨rfl, hdigits⟩

/-! ## Calls of standard functions -/

theorem mapM_lift_traces {γ δ : Type} (f : γ → Except Fault δ) (xs : List γ) :
    Traces (xs.mapM fun a => (liftM (f a) : Run (σ × List (Event ι)) Fault δ))
      (xs.mapM fun a => liftM (f a)) := by
  induction xs with
  | nil => exact .pure _
  | cons a rest ih =>
    rw [List.mapM_cons]
    exact (Traces.lift (f a)).bind_any fun b => ih.bind_any fun bs => .pure _

theorem logCalls_extends (invoke : Invoke ι σ) (callback : Callback ι) (args : List Datum)
    (s : σ) (log : List (Event ι)) :
    (logCalls invoke callback args (s, log)).2.2 = log ++ [.called callback args] :=
  rfl

/-- A call is in the log, whatever becomes of what it returns. -/
theorem logCalls_bind_extends (invoke : Invoke ι σ) (callback : Callback ι) (args : List Datum)
    (k : Datum → Except Fault Value) (s : σ) (log : List (Event ι)) :
    ((logCalls invoke callback args >>= fun result =>
      (liftM (k result) : Run (σ × List (Event ι)) Fault Value)) (s, log)).2.2 =
      log ++ [.called callback args] := by
  have hlog := logCalls_extends invoke callback args s log
  rcases hcall : logCalls invoke callback args (s, log) with ⟨⟨lines, o⟩, t⟩
  rw [hcall] at hlog
  cases o with
  | error f =>
    rw [bind_apply_error hcall]
    exact hlog
  | ok result =>
    rw [bind_apply_ok hcall]
    exact hlog

theorem callEmbedded_traces (host : Host ι σ) (name : String) (b : Builtin) {args : List Value}
    (h : ∀ v ∈ args, v.Canonical) :
    Traces (callEmbedded (logCalls (Callback.call host)) false name (.standard b) args)
      (callEmbedded (logCalls (Callback.call host)) true name (.standard b) args) := by
  refine (mapM_lift_traces Value.toHost args).bind (toHost_ensures h) fun native hnative => ?_
  have hlog := logCalls_bind_extends (Callback.call host) (.builtin b) native Value.ofHost
  have hprints := (logCalls_builtin_prints host b native).bind fun result =>
    Prints.lift (Value.ofHost result)
  rcases embeddedText_cases name hnative with ⟨words, hw⟩ | ⟨hw, hdigits⟩
  · exact (trace_traces hw).bind_any fun _ => .lift_bind rfl (.of_untraced hprints)
  · rw [hw]
    exact .of_unwritable hdigits hprints fun s log => ⟨_, hlog s log⟩

/-! ## Sequences and calls -/

section

variable {step step' : Step ι (σ × List (Event ι))}
  (hstep : ∀ (n : Ast) (env : Env ι), n.IsStatement → env.Safe → Ensures Good Stops (step n env))
  (htraces : ∀ (n : Ast) (env : Env ι), n.IsStatement → env.Safe →
    Traces (step n env) (step' n env))

include hstep htraces

theorem sequence_traces {body : List Ast} (hb : ∀ s ∈ body, s.IsStatement) :
    ∀ (v : Value) (env : Env ι), env.Safe →
      Traces (sequence step false v env body) (sequence step' true v env body) := by
  induction body with
  | nil => exact fun v env _ => .pure _
  | cons first rest ih =>
    intro v env henv
    have hfirst := hb first List.mem_cons_self
    refine (htraces first env hfirst henv).bind (hstep first env hfirst henv) fun r hr => ?_
    obtain ⟨words, hw⟩ := stopText_result hr.1
    refine .if_failed _ ((trace_traces hw).bind_any fun _ => .pure _) ?_
    exact ih (fun s hs => hb s (List.mem_cons_of_mem _ hs)) r.1 r.2 hr.2

theorem statements_traces {body : List Ast} (hb : ∀ s ∈ body, s.IsStatement) {env : Env ι}
    (henv : env.Safe) : Traces (statements step false body env) (statements step' true body env) :=
  sequence_traces hstep htraces hb .null env henv

theorem arguments_traces {args : List Ast} (ha : ∀ a ∈ args, a.IsExpression) :
    ∀ env : Env ι, env.Safe → Traces (arguments step env args) (arguments step' env args) := by
  induction args with
  | nil => exact fun env _ => .pure _
  | cons first rest ih =>
    intro env henv
    have hfirst : first.IsStatement := .expression (ha first List.mem_cons_self)
    refine (htraces first env hfirst henv).bind (hstep first env hfirst henv) fun r hr => ?_
    refine .if_failed _ (.pure _) ?_
    refine (ih (fun a h => ha a (List.mem_cons_of_mem _ h)) r.2 hr.2).bind_any fun vs => ?_
    cases vs <;> exact .pure _

omit hstep htraces in
theorem traceCount_traces (name : String) (params : List String) (body : List Ast) (given : Nat) :
    Traces
      (traceCount false name (.defined params body : Function ι) given :
        Run (σ × List (Event ι)) Fault Unit)
      (traceCount true name (.defined params body : Function ι) given) := by
  show Traces (pure ()) (liftM _ >>= fun declared => _)
  rw [Run.lift_bind (Function.count_defined params body)]
  split
  · exact .pure _
  · exact trace_traces rfl

theorem callDefined_traces (name : String) (params : List String) {body : List Ast}
    (hb : ∀ s ∈ body, s.IsStatement) {args : List Value} (ha : ∀ v ∈ args, v.Canonical)
    {env : Env ι} (henv : env.Safe) :
    Traces (callDefined step false name (.defined params body) args env)
      (callDefined step' true name (.defined params body) args env) := by
  refine (traceCount_traces name params body args.length).bind_any fun _ => ?_
  refine (trace_traces rfl).bind_any fun _ => ?_
  refine .lift_bind rfl (.lift_bind (Datum.names_map_text params args.length) ?_)
  refine .lift_bind rfl ?_
  exact (statements_traces hstep htraces hb (henv.callScope _ ha)).bind_any fun r => .pure _

theorem callFunction_traces (host : Host ι σ) (name : String) {key : Name} {f : Function ι}
    (hf : Function.Safe key f) {args : List Value} (ha : ∀ v ∈ args, v.Canonical) {env : Env ι}
    (henv : env.Safe) :
    Traces (callFunction (logCalls (Callback.call host)) step false name f args env)
      (callFunction (logCalls (Callback.call host)) step' true name f args env) := by
  cases hf with
  | standard b => exact callEmbedded_traces host name b ha
  | defined _ _ _ hb =>
    exact callDefined_traces hstep htraces name _ (Analysis.exists_block_iff.1 hb) ha henv

/-! ## Nodes -/

omit hstep htraces in
theorem settle_traces (v : Value) (before after : Env ι) :
    Traces (settle v before after : Run (σ × List (Event ι)) Fault (Value × Env ι))
      (settle v before after) :=
  .if_failed _ (.pure _) (.pure _)

theorem call_traces (host : Host ι σ) (f : String) {args : List Ast}
    (ha : ∀ a ∈ args, a.IsExpression) {env : Env ι} (henv : env.Safe) :
    Traces (node (logCalls (Callback.call host)) false step (.call f args) env)
      (node (logCalls (Callback.call host)) true step' (.call f args) env) := by
  refine (trace_traces rfl).bind_any fun _ => .lift_bind rfl ?_
  cases hf : env.lookupFunction f with
  | none => exact .lift_bind rfl (.pure _)
  | some fn =>
    obtain ⟨key, -, hsafe⟩ := henv.lookupFunction hf
    refine .lift_bind rfl ?_
    refine (arguments_traces hstep htraces ha env henv).bind
      (arguments_ensures hstep ha env henv) fun vs hvs => ?_
    cases hvs with
    | error => exact .pure _
    | values hvs henv' =>
      refine (callFunction_traces hstep htraces host f hsafe hvs henv').bind_any fun v => ?_
      exact settle_traces v env _

theorem expression_traces (host : Host ι σ) {n : Ast} (hn : n.IsExpression) {env : Env ι}
    (henv : env.Safe) :
    Traces (node (logCalls (Callback.call host)) false step n env)
      (node (logCalls (Callback.call host)) true step' n env) := by
  cases hn with
  | int n => exact (trace_traces rfl).bind_any fun _ => .pure _
  | bool b => exact (trace_traces rfl).bind_any fun _ => .pure _
  | null => exact (trace_traces rfl).bind_any fun _ => .pure _
  | var x => exact (trace_traces rfl).bind_any fun _ => .pure _
  | call f ha => exact call_traces hstep htraces host f ha henv
  | add hl hr =>
    refine (trace_traces rfl).bind_any fun _ => .lift_bind rfl ?_
    have hl := Ast.IsStatement.expression hl
    refine (htraces _ env hl henv).bind (hstep _ env hl henv) fun l hgood => ?_
    refine .if_failed _ (.pure _) (.lift_bind rfl ?_)
    refine (htraces _ l.2 (.expression hr) hgood.2).bind_any fun r => ?_
    refine .if_failed _ (.pure _) ?_
    exact (Traces.lift _).bind_any fun v => settle_traces v env r.2

theorem node_traces (host : Host ι σ) {n : Ast} (hn : n.IsStatement) {env : Env ι}
    (henv : env.Safe) :
    Traces (node (logCalls (Callback.call host)) false step n env)
      (node (logCalls (Callback.call host)) true step' n env) := by
  cases hn with
  | expression h => exact expression_traces hstep htraces host h henv
  | assignment x he =>
    refine (trace_traces rfl).bind_any fun _ => .lift_bind rfl ?_
    refine (htraces _ env (.expression he) henv).bind_any fun r => ?_
    exact .if_failed _ (.pure _) (.lift_bind rfl (.pure _))
  | conditional hc hb =>
    refine (trace_traces rfl).bind_any fun _ => .lift_bind rfl ?_
    have hc := Ast.IsStatement.expression hc
    refine (htraces _ env hc henv).bind (hstep _ env hc henv) fun c hgood => ?_
    refine .if_failed _ (.pure _) ((Traces.lift _).bind_any fun holds => ?_)
    split
    · refine .lift_bind rfl ?_
      refine (statements_traces hstep htraces hb hgood.2).bind_any fun r => ?_
      exact settle_traces r.1 env r.2
    · exact .pure _
  | @definition f params body hp hb =>
    refine (trace_traces rfl).bind_any fun _ => .lift_bind rfl ?_
    refine (trace_traces (definitionText_map_text f params)).bind_any fun _ => ?_
    exact .lift_bind rfl (.pure _)

end

/-! ## Evaluation -/

/-- Observing a run changes nothing about how it ends. -/
theorem Watches.ensures {debug : Bool} {errorOf : α → Option Value} {x : Run σ Fault α}
    {y : Run (σ × List (Event ι)) Fault α} {P : α → Prop} {E : Fault → Prop}
    (hw : Watches debug errorOf x y) (h : Ensures P E x) : Ensures P E y := by
  rintro ⟨s, log⟩
  obtain ⟨events, hy, -⟩ := hw s log
  rw [hy]
  exact h s

theorem logReturn_traces {step step' : Step ι (σ × List (Event ι))} {n : Ast} {env : Env ι}
    (h : Traces (step n env) (step' n env)) :
    Traces (logReturn step n env) (logReturn step' n env) :=
  h.bind_any fun r => .of_untraced fun _ _ => ⟨[.returned r.1], rfl, rfl⟩

theorem logReturn_ensures (host : Host ι σ) (depth : Nat) {n : Ast} {env : Env ι}
    (hn : n.IsStatement) (henv : env.Safe) :
    Ensures Good Stops (logReturn (observe (Callback.call host) false depth) n env) :=
  (logReturn_watches (observe_watches (Callback.call host) false depth n env)).ensures
    (eval_ensures host depth n env hn henv)

/-- In a safe environment a statement evaluates alike with a trace. -/
theorem observe_traces (host : Host ι σ) (depth : Nat) : ∀ (n : Ast) (env : Env ι),
    n.IsStatement → env.Safe →
      Traces (observe (Callback.call host) false depth n env)
        (observe (Callback.call host) true depth n env) := by
  induction depth with
  | zero => exact fun n env _ _ => .fail _
  | succ depth ih =>
    exact fun n env hn henv => node_traces (fun n env => logReturn_ensures host depth)
      (fun n env hn henv => logReturn_traces (ih n env hn henv)) host hn henv

/-- So does a program. -/
theorem observe_source_traces (host : Host ι σ) (depth : Nat) {body : List Ast}
    (hb : ∀ s ∈ body, s.IsStatement) {env : Env ι} (henv : env.Safe) :
    Traces (observe (Callback.call host) false depth (.source body) env)
      (observe (Callback.call host) true depth (.source body) env) := by
  cases depth with
  | zero => exact .fail _
  | succ depth =>
    refine (trace_traces rfl).bind_any fun _ => .lift_bind rfl ?_
    exact statements_traces (fun n env => logReturn_ensures host depth)
      (fun n env hn henv => logReturn_traces (observe_traces host depth n env hn henv)) hb henv

end Tama.Eval
