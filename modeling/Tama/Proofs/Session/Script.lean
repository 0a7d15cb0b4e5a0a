import Tama.Proofs.Analysis.Room
import Tama.Proofs.Eval.Atomic
import Tama.Proofs.Grammar.Joined
import Tama.Proofs.Session.Safety

/-!
# A session is a script

Texts that are run one after the other, each in the environment that the last one left, do what
their text joined by line feeds does in one run (`session_is_script`). The joined text has the
statements of each, in order, and so has the analyzed program; a sequence of statements behind
another goes on from its result and its environment, unless that was an error
(`sequence_append_eq`). The recursion limit is the exception: a program that meets it is back where
it began, which for the joined text lies further back. Nor has the stack room for the joined text
just because it has for its parts.
-/

set_option autoImplicit false

namespace Tama

open Run

variable {ι σ : Type}

/-! ## Analysis -/

namespace Analysis

theorem block_append_outcome {room : Nat} {xs ys : List Tree} {as bs : List Ast}
    (h : (block room xs).outcome = .ok as) (h' : (block room ys).outcome = .ok bs) :
    (block room (xs ++ ys)).outcome = .ok (as ++ bs) := by
  induction xs generalizing as with
  | nil =>
    cases (rfl : (block room []).outcome = _).symm.trans h
    exact h'
  | cons t rest ih =>
    obtain ⟨s, hs, h⟩ := Traced.of_bind_ok h
    obtain ⟨ss, hss, h⟩ := Traced.of_bind_ok h
    cases h
    rw [List.cons_append, block_cons_outcome, hs, ih hss]
    rfl

/-- Some trees are the statements of the grammar, and are analyzed where there is room enough. -/
def Accepts (trees : List Tree) (body : List Ast) : Prop :=
  (∀ t ∈ trees, t.IsStatement) ∧ ∃ room, (block room trees).outcome = .ok body

theorem Accepts.append {xs ys : List Tree} {as bs : List Ast} (h : Accepts xs as)
    (h' : Accepts ys bs) : Accepts (xs ++ ys) (as ++ bs) := by
  obtain ⟨hxs, i, hi⟩ := h
  obtain ⟨hys, j, hj⟩ := h'
  refine ⟨fun t ht => (List.mem_append.1 ht).elim (hxs t) (hys t), max i j, ?_⟩
  refine block_append_outcome ?_ ?_
  · rw [block_extends (Nat.le_max_left i j) hxs (by rw [hi]; nofun), hi]
  · rw [block_extends (Nat.le_max_right i j) hys (by rw [hj]; nofun), hj]

end Analysis

/-! ## Evaluation -/

namespace Eval

section

variable {step : Step ι σ} {debug : Bool} {v w : Value} {env env' : Env ι} {s t : σ}

/-- Statements behind others go on from their result, unless that is an error. -/
theorem sequence_append_eq (xs ys : List Ast) (hv : v.failed = .ok false) :
    sequence step debug v env (xs ++ ys) = (do
      let r ← sequence step debug v env xs
      if ← r.1.failed then pure r else sequence step debug r.1 r.2 ys) := by
  induction xs generalizing v env with
  | nil =>
    rw [List.nil_append, sequence, pure_bind, if_failed hv]
    rfl
  | cons first rest ih =>
    rw [List.cons_append, sequence, sequence, bind_assoc]
    refine bind_congr fun r => ?_
    obtain ⟨w, env'⟩ := r
    dsimp only
    cases hw : w.failed with
    | error f => rfl
    | ok b =>
      rw [lift_bind rfl, lift_bind rfl]
      cases b with
      | true =>
        simp only [if_true, bind_assoc, pure_bind]
        rw [if_failed hw]
        rfl
      | false => exact ih hw

/-- The result of a sequence is one that says whether it is an error. -/
theorem sequence_failed {xs : List Ast} (hv : v.failed = .ok false)
    (h : Returns (sequence step debug v env xs) s (w, env') t) : w.failed = .ok w.isError := by
  have h' := h
  rw [← List.append_nil xs, sequence_append_eq xs [] hv] at h'
  obtain ⟨r, mid, hr, h'⟩ := h'.of_bind
  cases (hr.unique h).1
  obtain ⟨b, hb, -⟩ := h'.of_lift_bind
  rw [hb, Value.isError_of_failed hb]

end

section

variable {host : Host ι σ} {body xs ys : List Ast} {env env₁ : Env ι} {s s₁ : σ}

/-- Evaluates the statements of a program one after the other. -/
abbrev runBody (host : Host ι σ) (body : List Ast) (env : Env ι) : Run σ Fault (Value × Env ι) :=
  statements (eval (Callback.call host) false (maxDepth - 1)) false body env

theorem eval_source (env : Env ι) :
    eval (Callback.call host) false maxDepth (.source body) env = runBody host body env :=
  rfl

/-- Programs end alike where their statements do. -/
theorem evaluate_source_congr (h : runBody host xs env s = runBody host ys env s) :
    evaluate host false (.source xs) env s = evaluate host false (.source ys) env s := by
  unfold evaluate
  rw [eval_source, eval_source, h]
  rfl

/-- A program within the recursion limit ends as its statements do. -/
theorem evaluate_source {r : Traced Fault (Value × Env ι)} (h : runBody host body env s = (r, s₁))
    (hlimit : r.outcome ≠ .error .tooDeep) :
    evaluate host false (.source body) env s = (r, s₁) := by
  obtain ⟨lines, o⟩ := r
  unfold evaluate
  rw [eval_source, h]
  cases o with
  | ok a => rfl
  | error f =>
    cases f with
    | tooDeep => exact absurd rfl hlimit
    | _ => rfl

/-- Behind a program that returned an error, at its limit or before it, nothing is run. -/
theorem evaluate_append_of_error {lines : List String} {v : Value} (ys : List Ast)
    (h : evaluate host false (.source xs) env s = (⟨lines, .ok (v, env₁)⟩, s₁))
    (hv : v.isError = true) :
    evaluate host false (.source (xs ++ ys)) env s = (⟨lines, .ok (v, env₁)⟩, s₁) := by
  rw [← h]
  apply evaluate_source_congr
  rw [runBody, statements, sequence_append_eq xs ys rfl]
  rcases hrun : runBody host xs env s with ⟨⟨said, o⟩, t⟩
  cases o with
  | error f => exact bind_apply_error hrun _
  | ok r =>
    have hr := (evaluate_source hrun nofun).symm.trans h
    cases hr
    refine (bind_apply_ok hrun _).trans ?_
    rw [if_failed (Value.failed_of_isError hv)]
    simp

theorem runBody_of_evaluate {r : Traced Fault (Value × Env ι)}
    (h : evaluate host false (.source body) env s = (r, s₁))
    (hlimit : (runBody host body env s).1.outcome ≠ .error .tooDeep) :
    runBody host body env s = (r, s₁) := by
  rcases hrun : runBody host body env s with ⟨r', t⟩
  rw [hrun] at hlimit
  rw [← h, evaluate_source hrun hlimit]

/-- A program that returns no error has not met the recursion limit. -/
theorem limit_of_evaluate {lines : List String} {v : Value}
    (h : evaluate host false (.source body) env s = (⟨lines, .ok (v, env₁)⟩, s₁))
    (hv : v.isError = false) : (runBody host body env s).1.outcome ≠ .error .tooDeep := by
  intro hdeep
  rcases hrun : runBody host body env s with ⟨⟨said, o⟩, t⟩
  rw [hrun] at hdeep
  cases hdeep
  unfold evaluate at h
  rw [eval_source, hrun] at h
  cases h
  cases hv

/-- A program that returned another value is gone on with from its environment. -/
theorem evaluate_append {lines : List String} {v : Value}
    (h : evaluate host false (.source xs) env s = (⟨lines, .ok (v, env₁)⟩, s₁))
    (hv : v.isError = false)
    (hlimit : (runBody host ys env₁ s₁).1.outcome ≠ .error .tooDeep) {more : List String}
    {o : Except Fault (Value × Env ι)} {t : σ}
    (h' : evaluate host false (.source ys) env₁ s₁ = (⟨more, o⟩, t)) :
    evaluate host false (.source (xs ++ ys)) env s =
      (⟨lines ++ more, if ys = [] then .ok (v, env₁) else o⟩, t) := by
  have hxs := runBody_of_evaluate h (limit_of_evaluate h hv)
  have hys := runBody_of_evaluate h' hlimit
  have hfailed : v.failed = .ok false := by
    rw [sequence_failed rfl ⟨lines, hxs⟩, hv]
  have hsplit : runBody host (xs ++ ys) env s =
      (runBody host xs env >>= fun r => do
        if ← r.1.failed then pure r
        else sequence (eval (Callback.call host) false (maxDepth - 1)) false r.1 r.2 ys) s :=
    congrFun (sequence_append_eq xs ys rfl) s
  rw [bind_apply_ok hxs, if_failed hfailed] at hsplit
  cases ys with
  | nil =>
    cases hys
    exact evaluate_source hsplit nofun
  | cons first rest =>
    -- what comes first in a sequence makes its initial result irrelevant
    have hrest : sequence (eval (Callback.call host) false (maxDepth - 1)) false v env₁
        (first :: rest) s₁ = (⟨more, o⟩, t) := hys
    simp only [Bool.false_eq_true, if_false, hrest] at hsplit
    refine evaluate_source hsplit ?_
    rw [hys] at hlimit
    exact hlimit

end
end Eval

/-! ## Texts -/

namespace Session

open Eval Grammar

variable {stack stack' joined : Stack} {host : Host ι σ}
  {source other filename filename' name : String} {body rest : List Ast} {env env₁ : Env ι}
  {s s₁ : σ}

/-- A text is read and analyzed to these statements. -/
def Yields (stack : Stack) (source filename : String) (body : List Ast) : Prop :=
  (prepare stack false source filename).outcome = .ok (.source body)

/-- The stack has no room for a text to be read and analyzed. -/
def RunsOut (stack : Stack) (source filename : String) : Prop :=
  (prepare stack false source filename).outcome = .error (.fault .tooDeep)

/-- A text whose expansion derives trees is read and analyzed, unless the stack runs out. -/
theorem yields_of_derives {trees : List Tree} (h : SourceDerives source trees)
    (ha : Analysis.Accepts trees body) (hroom : ¬ RunsOut stack source filename) :
    Yields stack source filename body := by
  obtain ⟨ht, room, ha⟩ := ha
  unfold Yields RunsOut at *
  have hfits : stack.runs source = true := by
    by_contra hfits
    exact hroom (prepare_of_unread (readWithin_eq_tooDeep.2 (Bool.eq_false_iff.2 hfits)) false)
  have hread : Program.readWithin stack.runs source filename = .ok trees :=
    readWithin_eq_ok.2 ⟨hfits, read_eq_ok.2 h⟩
  rw [prepare_of_read hread] at hroom ⊢
  rw [Analysis.program_eq_source ht ha fun hdeep => hroom (by rw [hdeep]; rfl)]
  rfl

theorem Yields.derives (h : Yields stack source filename body) :
    ∃ trees, SourceDerives source trees ∧ Analysis.Accepts trees body := by
  obtain ⟨trees, hread, ha⟩ := prepare_eq_ok.1 h
  obtain ⟨-, hread⟩ := readWithin_eq_ok.1 hread
  obtain ⟨-, _, hb, ⟨⟩⟩ := Analysis.program_eq_ok.1 ha
  have hderives := read_eq_ok.1 hread
  exact ⟨trees, hderives, hderives.isStatement, _, hb⟩

theorem Yields.append (h : Yields stack source filename body)
    (h' : Yields stack' other filename' rest)
    (hroom : ¬ RunsOut joined (source ++ "\n" ++ other) name) :
    Yields joined (source ++ "\n" ++ other) name (body ++ rest) := by
  obtain ⟨trees, hd, ha⟩ := h.derives
  obtain ⟨others, hd', ha'⟩ := h'.derives
  exact yields_of_derives (hd.append hd') (ha.append ha') hroom

theorem Yields.runSource (h : Yields stack source filename body) :
    runSource stack host false source filename env s =
      (evaluate host false (.source body) env).mapError .fault s :=
  runSource_of_ok h

theorem Yields.evaluate (h : Yields stack source filename body) {lines : List String}
    {r : Value × Env ι}
    (hrun : Session.runSource stack host false source filename env s = (⟨lines, .ok r⟩, s₁)) :
    Eval.evaluate host false (.source body) env s = (⟨lines, .ok r⟩, s₁) := by
  rcases he : Eval.evaluate host false (.source body) env s with ⟨⟨said, o⟩, t⟩
  rw [h.runSource, mapError_apply he] at hrun
  cases o with
  | error f => cases hrun
  | ok r' =>
    cases hrun
    rfl

theorem Yields.limit (h : Yields stack source filename body)
    (hlimit : ¬ MeetsLimit stack host source filename env s) :
    (runBody host body env s).1.outcome ≠ .error .tooDeep :=
  fun hd => hlimit ⟨_, h, hd⟩

/-! ## Lists of texts -/

/-- Texts are run one after the other, each in the environment and the host's state that the last
one left. All of them return, and none an error. -/
inductive Threads (host : Host ι σ) :
    List Input → Env ι × σ → List String → Env ι × σ → Prop
  | nil (at' : Env ι × σ) : Threads host [] at' [] at'
  | cons {input : Input} {rest : List Input} {env env₁ : Env ι} {s s₁ : σ}
      {last : Env ι × σ} {lines more : List String} {v : Value} :
      runSource input.stack host false input.source input.filename env s =
        (⟨lines, .ok (v, env₁)⟩, s₁) →
      v.isError = false → Threads host rest (env₁, s₁) more last →
      Threads host (input :: rest) (env, s) (lines ++ more) last

/-- A text of a session is read and analyzed to these statements. -/
abbrev Input.Yields (input : Input) (body : List Ast) : Prop :=
  Session.Yields input.stack input.source input.filename body

variable {inputs : List Input} {at' last : Env ι × σ} {lines : List String}

theorem Threads.foldl_next (h : Threads host inputs at' lines last) :
    inputs.foldl (next host) at' = last := by
  induction h with
  | nil => rfl
  | @cons input rest env env₁ s s₁ _ _ _ _ hrun _ _ ih =>
    have hnext : next host (env, s) input = (env₁, s₁) := by simp only [next, hrun]
    rw [List.foldl_cons, hnext, ih]

/-- The statements of all texts, as one program, do what the texts do one after the other. -/
theorem Threads.evaluate (h : Threads host inputs at' lines last) {bodies : List (List Ast)}
    (hb : List.Forall₂ Input.Yields inputs bodies) :
    ∃ v, Eval.evaluate host false (.source bodies.flatten) at'.1 at'.2 =
      (⟨lines, .ok (v, last.1)⟩, last.2) ∧ v.isError = false := by
  induction h generalizing bodies with
  | nil at' =>
    cases hb
    exact ⟨.null, rfl, rfl⟩
  | @cons input rest env env₁ s s₁ last lines more v hrun hv _ ih =>
    cases hb with
    | @cons _ body _ bodies hyields hrest =>
      obtain ⟨w, hw, hne⟩ := ih hrest
      have hfirst := hyields.evaluate hrun
      have happend := evaluate_append hfirst hv (limit_of_evaluate hw hne) hw
      rw [List.flatten_cons, happend]
      split
      · rename_i hnil
        rw [hnil, evaluate_source (rfl : runBody host [] env₁ s₁ = _) nofun] at hw
        have hresult := Except.ok.inj (congrArg (fun run => run.1.outcome) hw)
        exact ⟨v, by rw [(Prod.mk.inj hresult).2], hv⟩
      · exact ⟨w, rfl, hne⟩

theorem exists_bodies (h : ∀ input ∈ inputs, ∃ body, input.Yields body) :
    ∃ bodies, List.Forall₂ Input.Yields inputs bodies := by
  induction inputs with
  | nil => exact ⟨[], .nil⟩
  | cons input rest ih =>
    obtain ⟨body, hbody⟩ := h input List.mem_cons_self
    obtain ⟨bodies, hbodies⟩ := ih fun input hi => h input (List.mem_cons_of_mem _ hi)
    exact ⟨body :: bodies, .cons hbody hbodies⟩

theorem exists_trees {bodies : List (List Ast)} (hb : List.Forall₂ Input.Yields inputs bodies) :
    ∃ trees : List (List Tree), List.Forall₂ SourceDerives (inputs.map (·.source)) trees ∧
      Analysis.Accepts trees.flatten bodies.flatten := by
  induction hb with
  | nil => exact ⟨[], .nil, nofun, 0, rfl⟩
  | cons h _ ih =>
    obtain ⟨trees, hd, ha⟩ := h.derives
    obtain ⟨others, hds, has⟩ := ih
    exact ⟨trees :: others, .cons hd hds, ha.append has⟩

theorem yields_intercalate {bodies : List (List Ast)} (hb : List.Forall₂ Input.Yields inputs bodies)
    (hroom : ¬ RunsOut joined ("\n".intercalate (inputs.map (·.source))) name) :
    Yields joined ("\n".intercalate (inputs.map (·.source))) name bodies.flatten := by
  obtain ⟨trees, hd, ha⟩ := exists_trees hb
  exact yields_of_derives (SourceDerives.intercalate hd) ha hroom

/-! ## The main statement -/

/-- **A session is a script.** Let two texts be read and analyzed, and let the first return. The two
joined by a line feed do what the first did when that returned an error; else they do what the first
and then the second in the environment after it did, and end as the second, or as the first when the
second has no statement. So with any texts none of which ends in an error: their joined text
prints what they print one after the other, and leaves the environment and the host's state that
they leave in a session. Each text is run on a stack of its own; that it runs out before the joined
text is evaluated stands aside, and so does the recursion limit of the evaluator in the second
text. -/
theorem session_is_script (host : Host ι σ) (joined : Stack) (name : String) :
    (∀ stack stack' source other filename filename' body rest env env₁ s s₁ lines v,
      Yields stack source filename body → Yields stack' other filename' rest →
      ¬ RunsOut joined (source ++ "\n" ++ other) name →
      runSource stack host false source filename env s = (⟨lines, .ok (v, env₁)⟩, s₁) →
      (v.isError = true →
        runSource joined host false (source ++ "\n" ++ other) name env s =
          (⟨lines, .ok (v, env₁)⟩, s₁)) ∧
      (v.isError = false → ¬ MeetsLimit stack' host other filename' env₁ s₁ →
        ∀ more o t, runSource stack' host false other filename' env₁ s₁ = (⟨more, o⟩, t) →
          runSource joined host false (source ++ "\n" ++ other) name env s =
            (⟨lines ++ more, if rest = [] then .ok (v, env₁) else o⟩, t))) ∧
    ∀ inputs at' lines last, (∀ input ∈ inputs, ∃ body, input.Yields body) →
      ¬ RunsOut joined ("\n".intercalate (inputs.map (·.source))) name →
      Threads host inputs at' lines last →
      inputs.foldl (next host) at' = last ∧
      ∃ v, runSource joined host false ("\n".intercalate (inputs.map (·.source))) name at'.1 at'.2 =
        (⟨lines, .ok (v, last.1)⟩, last.2) := by
  constructor
  · intro stack stack' source other filename filename' body rest env env₁ s s₁ lines v h h' hroom
      hrun
    have hjoined : runSource joined host false (source ++ "\n" ++ other) name env s = _ :=
      (h.append h' hroom).runSource
    have hfirst := h.evaluate hrun
    refine ⟨fun hv => ?_, fun hv hlimit more o t hmore => ?_⟩
    · rw [hjoined, mapError_apply (evaluate_append_of_error rest hfirst hv)]
      rfl
    · rcases he : Eval.evaluate host false (.source rest) env₁ s₁ with ⟨⟨said, o'⟩, t'⟩
      rw [h'.runSource, mapError_apply he] at hmore
      cases hmore
      have happend := evaluate_append hfirst hv (h'.limit hlimit) he
      rw [hjoined, mapError_apply happend]
      by_cases hnil : rest = []
      · rw [if_pos hnil, if_pos hnil]
        rfl
      · rw [if_neg hnil, if_neg hnil]
        rfl
  · intro inputs at' lines last hyields hroom hthreads
    obtain ⟨bodies, hb⟩ := exists_bodies hyields
    obtain ⟨v, hv, -⟩ := hthreads.evaluate hb
    refine ⟨hthreads.foldl_next, v, ?_⟩
    rw [(yields_intercalate hb hroom).runSource, mapError_apply hv]
    rfl

/-- `print(x);` behind `x=true;#`: the line feed ends the comment, and `x` is bound by then. -/
theorem session_is_script_behind_comment :
    let host : Host Empty Unit := nofun
    let env : Env Empty := .standard .empty
    let stack := Stack.ofLimit 1000
    let inputs : List Input := [⟨stack, "x=true;#", ""⟩, ⟨stack, "print(x);", ""⟩]
    runSource stack host false ("x=true;#" ++ "\n" ++ "print(x);") "" env () =
      (⟨["true"], .ok (.null, env.bindVariable "x" (.bool true))⟩, ()) ∧
    ∃ v, runSource stack host false ("\n".intercalate (inputs.map (·.source))) "" env () =
      (⟨["true"], .ok (v, env.bindVariable "x" (.bool true))⟩, ()) := by
  intro host env stack inputs
  have hbinds : Yields stack "x=true;#" "" [.assignment "x" (.bool true)] :=
    prepare_of_program (by decide) (by cbv : Parser.program 5 _ = .done _ _) rfl
  have hprints : Yields stack "print(x);" "" [.call "print" [.var "x"]] :=
    prepare_of_program (by decide) (by cbv : Parser.program 5 _ = .done _ _) rfl
  have hboth : Yields stack ("x=true;#" ++ "\n" ++ "print(x);") ""
      [.assignment "x" (.bool true), .call "print" [.var "x"]] :=
    prepare_of_program (by decide) (by cbv : Parser.program 5 _ = .done _ _) rfl
  have hrun : runSource stack host false "x=true;#" "" env () =
      (⟨[], .ok (.null, env.bindVariable "x" (.bool true))⟩, ()) := hbinds.runSource.trans rfl
  have hrun' : runSource stack host false "print(x);" "" (env.bindVariable "x" (.bool true)) () =
      (⟨["true"], .ok (.null, env.bindVariable "x" (.bool true))⟩, ()) :=
    hprints.runSource.trans rfl
  have hlimit : ¬ MeetsLimit stack host "print(x);" "" (env.bindVariable "x" (.bool true)) () := by
    have hreturns : (runBody host [.call "print" [.var "x"]] (env.bindVariable "x" (.bool true))
        ()).1.outcome = .ok (.null, env.bindVariable "x" (.bool true)) := rfl
    rintro ⟨root, hroot, hd⟩
    cases hroot.symm.trans hprints
    rw [eval_source, hreturns] at hd
    cases hd
  have hroom : ¬ RunsOut stack ("x=true;#" ++ "\n" ++ "print(x);") "" := by
    intro hd
    cases hd.symm.trans hboth
  have hjoined : "\n".intercalate (inputs.map (·.source)) = "x=true;#" ++ "\n" ++ "print(x);" := rfl
  have hyields : ∀ input ∈ inputs, ∃ body, input.Yields body := by
    intro input hinput
    rcases List.mem_pair.1 hinput with rfl | rfl
    · exact ⟨_, hbinds⟩
    · exact ⟨_, hprints⟩
  have hthreads : Threads host inputs (env, ()) ([] ++ (["true"] ++ []))
      (env.bindVariable "x" (.bool true), ()) :=
    .cons hrun rfl (.cons hrun' rfl (.nil _))
  obtain ⟨hpair, hlist⟩ := session_is_script host stack ""
  constructor
  · have hsecond := (hpair _ _ _ _ _ _ _ _ _ _ _ _ _ _ hbinds hprints hroom hrun).2 rfl hlimit
    exact hsecond _ _ _ hrun'
  · exact (hlist inputs _ _ _ hyields (hjoined ▸ hroom) hthreads).2

end Session
end Tama
