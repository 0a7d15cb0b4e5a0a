import Tama.Proofs.Analysis.Room
import Tama.Proofs.Eval.Congruence
import Tama.Proofs.Eval.Observed
import Tama.Proofs.Value.Addition

/-!
# Regrouping additions

However several operands are grouped into additions, they are evaluated one after the other
(`InTurn`), and where that and the additions go well, the result is the sum of their values
(`sumOf_inTurn`, `sumOf_settles`). So the grouping makes no difference to an addition that yields
no error. Main statement: `addition_regroups`.

A debug trace shows the additions themselves, and so it shows the grouping; all other lines are the
same (`shown`).
-/

set_option autoImplicit false

namespace Tama

/-! ## Groupings -/

/-- A node adds up these operands, in this order and in whatever grouping. An operand may be an
addition itself. -/
inductive Ast.SumOf : List Ast → Ast → Prop
  | operand (n : Ast) : SumOf [n] n
  | add {front back : List Ast} {l r n : Ast} : n.form = .add (.ok l) (.ok r) → SumOf front l →
      SumOf back r → SumOf (front ++ back) n

theorem Ast.SumOf.ne_nil {operands : List Ast} {n : Ast} (h : n.SumOf operands) :
    operands ≠ [] := by
  induction h with
  | operand n => exact List.cons_ne_nil n []
  | add _ _ _ ih _ => exact List.append_ne_nil_of_left_ne_nil ih _

/-- A tree adds up these operands, in this order and in whatever grouping. -/
inductive Tree.SumOf : List Tree → Tree → Prop
  | operand (t : Tree) : SumOf [t] t
  | add {front back : List Tree} {l r : Tree} : SumOf front l → SumOf back r →
      SumOf (front ++ back) (.add l r)

/-- The grouping that the parser makes of a chain. -/
theorem Tree.SumOf.sum (first : Tree) (rest : List Tree) :
    SumOf (first :: rest) (Tree.sum first rest) := by
  suffices hfold : ∀ front t, SumOf front t → SumOf (front ++ rest) (rest.foldl .add t) from
    hfold [first] first (.operand first)
  induction rest with
  | nil => exact fun front t h => by simpa using h
  | cons next rest ih =>
    intro front t h
    have hnext := ih (front ++ [next]) (.add t next) (.add h (.operand next))
    simpa using hnext

namespace Analysis

theorem expressions_append_ok {room : Nat} {front back : List Tree} {nodes : List Ast}
    (h : (expressions room (front ++ back)).outcome = .ok nodes) :
    ∃ as bs, nodes = as ++ bs ∧ (expressions room front).outcome = .ok as ∧
      (expressions room back).outcome = .ok bs := by
  induction front generalizing nodes with
  | nil => exact ⟨[], nodes, rfl, rfl, h⟩
  | cons t rest ih =>
    obtain ⟨e, he, h⟩ := Traced.of_bind_ok h
    obtain ⟨es, hes, h⟩ := Traced.of_bind_ok h
    cases h
    obtain ⟨as, bs, rfl, has, hbs⟩ := ih hes
    exact ⟨e :: as, bs, rfl, by rw [expressions_cons_outcome, he, has]; rfl, hbs⟩

/-- A tree is analyzed to a node, if the stack has room enough. -/
def Reaches (t : Tree) (n : Ast) : Prop :=
  ∃ enough, ∀ room, enough ≤ room → (expression room t).outcome = .ok n

theorem Reaches.of_outcome {room : Nat} {t : Tree} {n : Ast}
    (h : (expression room t).outcome = .ok n) : Reaches t n := by
  refine ⟨room, fun room' hle => ?_⟩
  rw [expression_extends t hle (by rw [h]; nofun), h]

theorem Reaches.add {l r : Tree} {a b : Ast} (hl : Reaches l a) (hr : Reaches r b) :
    Reaches (.add l r) (.add a b) := by
  obtain ⟨i, hl⟩ := hl
  obtain ⟨j, hr⟩ := hr
  refine ⟨max i j + 2, fun room hle => ?_⟩
  rw [expression_add_outcome, within_of_le (by omega), hl _ (by omega), hr _ (by omega)]
  rfl

/-- Analysis keeps the grouping. -/
theorem expression_sumOf {room : Nat} {trees : List Tree} {t : Tree} (h : t.SumOf trees)
    {nodes : List Ast} (ha : (expressions room trees).outcome = .ok nodes) :
    ∃ n, Reaches t n ∧ n.SumOf nodes := by
  induction h generalizing nodes with
  | operand t =>
    obtain ⟨e, he, h⟩ := Traced.of_bind_ok ha
    cases h
    exact ⟨e, .of_outcome he, .operand e⟩
  | add _ _ ihl ihr =>
    obtain ⟨as, bs, rfl, has, hbs⟩ := expressions_append_ok ha
    obtain ⟨l, hl, hls⟩ := ihl has
    obtain ⟨r, hr, hrs⟩ := ihr hbs
    exact ⟨.add l r, hl.add hr, .add rfl hls hrs⟩

end Analysis

namespace Eval

open Run

variable {ι σ : Type} {invoke : Invoke ι σ} {debug : Bool} {env env' : Env ι} {s t : σ} {v : Value}
  {n l r : Ast}

/-! ## Additions -/

theorem kind_of_form_add {left right : Except Fault Ast} (h : n.form = .add left right) :
    n.kind = .text "Add" := by
  have hkind := n.kind_of_form
  rwa [h] at hkind

/-- What the visit of an addition prints. -/
def visitLines (debug : Bool) : List String :=
  if debug then ["Evaluating: Add"] else []

theorem trace_visit (debug : Bool) (s : σ) :
    trace debug (visitText (.text "Add")) s = (⟨visitLines debug, .ok ()⟩, s) := by
  cases debug <;> rfl

theorem eval_add (h : n.form = .add (.ok l) (.ok r)) (invoke : Invoke ι σ) (debug : Bool)
    (depth : Nat) (env : Env ι) :
    eval invoke debug (depth + 1) n env = (do
      trace debug (visitText (.text "Add"))
      let (a, env₁) ← eval invoke debug depth l env
      if ← a.failed then pure (a, env)
      else
        let (b, env₂) ← eval invoke debug depth r env₁
        if ← b.failed then pure (b, env) else settle (← Value.add a b) env env₂) := by
  simp only [eval, node, h, kind_of_form_add h]
  rfl

/-- A run that yields no error has not ended with the error that it branched on. -/
theorem of_if_failed {w : Value} {x : Run σ Fault (Value × Env ι)} {lines : List String}
    (hv : v.isError = false)
    (h : (do if ← w.failed then pure (w, env) else x : Run σ Fault (Value × Env ι)) s =
      (⟨lines, .ok (v, env')⟩, t)) :
    w.failed = .ok false ∧ x s = (⟨lines, .ok (v, env')⟩, t) := by
  obtain ⟨failed, hw, hbranch⟩ := of_lift_bind_eq_ok h
  cases failed with
  | true =>
    cases hbranch
    rw [Value.isError_of_failed hw] at hv
    cases hv
  | false => exact ⟨hw, hbranch⟩

/-- An addition yields a value that is no error exactly where its operands do, one after the other,
and have that value as their sum. -/
theorem settles_add_iff (h : n.form = .add (.ok l) (.ok r)) {lines : List String}
    (hv : v.isError = false) :
    Settles invoke debug n env s (⟨lines, .ok (v, env')⟩, t) ↔
      ∃ first a mid u more b, Settles invoke debug l env s (⟨first, .ok (a, mid)⟩, u) ∧
        a.failed = .ok false ∧ Settles invoke debug r mid u (⟨more, .ok (b, env')⟩, t) ∧
        b.failed = .ok false ∧ a.plus? b = some v ∧ lines = visitLines debug ++ first ++ more := by
  constructor
  · rintro ⟨depth, hdepth⟩
    have hrun := hdepth (depth + 1) (Nat.le_succ depth)
    rw [eval_add h] at hrun
    obtain ⟨_, ⟨⟩, _, _, htrace, hleft, hlines⟩ := of_bind_eq_ok hrun
    cases (trace_visit debug s).symm.trans htrace
    obtain ⟨first, ⟨a, mid⟩, u, _, hl, hbranch, rfl⟩ := of_bind_eq_ok hleft
    obtain ⟨ha, hright⟩ := of_if_failed hv hbranch
    obtain ⟨more, ⟨b, last⟩, _, _, hr, hlast, rfl⟩ := of_bind_eq_ok hright
    obtain ⟨hb, hsum⟩ := of_if_failed hv hlast
    obtain ⟨w, hadd, hsettle⟩ := of_lift_bind_eq_ok hsum
    obtain ⟨-, hpure⟩ := of_if_failed hv hsettle
    cases hpure
    -- the operands have settled too, as none of them ended at the limit
    refine ⟨first, a, mid, u, more, b, .of_eval hl nofun, ha, .of_eval hr nofun, hb, ?_, ?_⟩
    · exact Value.plus?_eq_some.2 ⟨hadd, hv⟩
    · simpa using hlines
  · rintro ⟨first, a, mid, u, more, b, ⟨depth, hl⟩, ha, ⟨depth', hr⟩, hb, hplus, rfl⟩
    refine ⟨max depth depth' + 1, fun deep hdeep => ?_⟩
    obtain ⟨deep, rfl⟩ : ∃ k, deep = k + 1 := ⟨deep - 1, by omega⟩
    have hadd := (Value.plus?_eq_some.1 hplus).1
    have hfailed := (Value.plus?_kinds hplus).2.2.2
    rw [eval_add h, bind_apply_ok (trace_visit debug s), bind_apply_ok (hl deep (by omega))]
    dsimp only
    rw [if_failed ha, if_neg Bool.false_ne_true, bind_apply_ok (hr deep (by omega))]
    dsimp only
    rw [if_failed hb, if_neg Bool.false_ne_true, lift_bind hadd, settle, if_failed hfailed]
    simp

/-! ## Operands one after the other -/

/-- Nodes settle one after the other, each in the environment and the state that the one before
left, on values that are no errors. -/
inductive InTurn (invoke : Invoke ι σ) (debug : Bool) :
    List Ast → Env ι → σ → List Value → List String → Env ι → σ → Prop
  | nil (env : Env ι) (s : σ) : InTurn invoke debug [] env s [] [] env s
  | cons {first : Ast} {rest : List Ast} {env mid env' : Env ι} {s u t : σ} {v : Value}
      {vs : List Value} {lines more : List String} :
      Settles invoke debug first env s (⟨lines, .ok (v, mid)⟩, u) → v.failed = .ok false →
      InTurn invoke debug rest mid u vs more env' t →
      InTurn invoke debug (first :: rest) env s (v :: vs) (lines ++ more) env' t

section
variable {operands front back : List Ast} {vs ws : List Value} {lines more : List String}
  {mid : Env ι} {u : σ}

theorem InTurn.length (h : InTurn invoke debug operands env s vs lines env' t) :
    vs.length = operands.length := by
  induction h with
  | nil _ _ => rfl
  | cons _ _ _ ih => rw [List.length_cons, List.length_cons, ih]

theorem InTurn.ne_nil (h : InTurn invoke debug operands env s vs lines env' t)
    (hn : operands ≠ []) : vs ≠ [] := by
  rw [ne_eq, ← List.length_eq_zero_iff, h.length, List.length_eq_zero_iff]
  exact hn

theorem InTurn.append (h : InTurn invoke debug front env s vs lines mid u)
    (h' : InTurn invoke debug back mid u ws more env' t) :
    InTurn invoke debug (front ++ back) env s (vs ++ ws) (lines ++ more) env' t := by
  induction h with
  | nil _ _ => exact h'
  | cons hfirst hv _ ih =>
    rw [List.append_assoc]
    exact .cons hfirst hv (ih h')

theorem InTurn.of_append (h : InTurn invoke debug (front ++ back) env s vs lines env' t) :
    ∃ vs₁ vs₂ first more mid u, vs = vs₁ ++ vs₂ ∧ lines = first ++ more ∧
      InTurn invoke debug front env s vs₁ first mid u ∧
      InTurn invoke debug back mid u vs₂ more env' t := by
  induction front generalizing env s vs lines with
  | nil => exact ⟨[], vs, [], lines, env, s, rfl, rfl, .nil env s, h⟩
  | cons n front ih =>
    cases h with
    | @cons _ _ _ _ _ _ _ _ _ _ said _ hn hv hrest =>
      obtain ⟨vs₁, vs₂, first, more, mid, u, rfl, rfl, hfront, hback⟩ := ih hrest
      exact ⟨_ :: vs₁, vs₂, said ++ first, more, mid, u, rfl, (List.append_assoc ..).symm,
        .cons hn hv hfront, hback⟩

end

/-! ## Lines -/

/-- Whether a line counts where the grouping does not matter: all lines do but those that trace an
addition. -/
def shown (debug : Bool) (line : String) : Bool :=
  !(debug && line == "Evaluating: Add")

theorem filter_shown_false (lines : List String) : lines.filter (shown false) = lines :=
  List.filter_eq_self.2 fun _ _ => rfl

theorem filter_visitLines (debug : Bool) : (visitLines debug).filter (shown debug) = [] := by
  cases debug <;> rfl

/-! ## Groupings and their operands -/

section
variable {operands : List Ast}

/-- A sum that yields no error yields the sum of what its operands yield one after the other. -/
theorem sumOf_inTurn (h : n.SumOf operands) {env env' : Env ι} {s t : σ} {v : Value}
    {lines : List String} (hv : v.failed = .ok false)
    (hn : Settles invoke debug n env s (⟨lines, .ok (v, env')⟩, t)) :
    ∃ vs said, InTurn invoke debug operands env s vs said env' t ∧ Value.total? vs = some v ∧
      lines.filter (shown debug) = said.filter (shown debug) := by
  -- one case for each way to be a sum; the operands on the left run before those on the right
  induction h generalizing env env' s t v lines with
  | operand n => exact ⟨[v], lines ++ [], .cons hn hv (.nil env' t), rfl, by rw [List.append_nil]⟩
  | add hform hl hr ihl ihr =>
    have hsettles := (settles_add_iff hform (Value.isError_of_failed hv)).1 hn
    obtain ⟨first, a, mid, u, more, b, hleft, ha, hright, hb, hplus, rfl⟩ := hsettles
    obtain ⟨vs, said, hvs, hsum, hsaid⟩ := ihl ha hleft
    obtain ⟨ws, told, hws, hsum', htold⟩ := ihr hb hright
    refine ⟨vs ++ ws, said ++ told, hvs.append hws, ?_, ?_⟩
    · rw [Value.total?_append (hvs.ne_nil hl.ne_nil) (hws.ne_nil hr.ne_nil), hsum, hsum']
      exact hplus
    · simp only [List.filter_append, filter_visitLines, hsaid, htold, List.nil_append]

/-- Where operands settle one after the other and have a sum, any grouping of them yields it. -/
theorem sumOf_settles (h : n.SumOf operands) {env env' : Env ι} {s t : σ} {v : Value}
    {vs : List Value} {said : List String}
    (hvs : InTurn invoke debug operands env s vs said env' t) (hv : Value.total? vs = some v) :
    ∃ lines, Settles invoke debug n env s (⟨lines, .ok (v, env')⟩, t) ∧ v.failed = .ok false ∧
      lines.filter (shown debug) = said.filter (shown debug) := by
  induction h generalizing env env' s t v vs said with
  | operand n =>
    cases hvs with
    | @cons _ _ _ _ _ _ _ _ w _ lines _ hn hw hrest =>
      cases hrest
      cases hv
      exact ⟨lines, hn, hw, by rw [List.append_nil]⟩
  | add hform hl hr ihl ihr =>
    obtain ⟨vs, ws, said, told, mid, u, rfl, rfl, hfront, hback⟩ := hvs.of_append
    rw [Value.total?_append (hfront.ne_nil hl.ne_nil) (hback.ne_nil hr.ne_nil)] at hv
    obtain ⟨a, ha, hv⟩ := Option.bind_eq_some_iff.1 hv
    obtain ⟨b, hb, hplus⟩ := Option.bind_eq_some_iff.1 hv
    obtain ⟨first, hleft, hleftOk, hsaid⟩ := ihl hfront ha
    obtain ⟨more, hright, hrightOk, htold⟩ := ihr hback hb
    have hfailed := (Value.plus?_kinds hplus).2.2.2
    refine ⟨visitLines debug ++ first ++ more, ?_, hfailed, ?_⟩
    · exact (settles_add_iff hform (Value.isError_of_failed hfailed)).2
        ⟨first, a, mid, u, more, b, hleft, hleftOk, hright, hrightOk, hplus, rfl⟩
    · simp only [List.filter_append, filter_visitLines, hsaid, htold, List.nil_append]

/-- A sum of two operands or more that is no error can say so. -/
theorem sumOf_failed (h : n.SumOf operands) (h2 : 2 ≤ operands.length) {lines : List String}
    (hv : v.isError = false) (hn : Settles invoke debug n env s (⟨lines, .ok (v, env')⟩, t)) :
    v.failed = .ok false := by
  cases h with
  | operand n => exact absurd h2 (by simp)
  | add hform _ _ =>
    obtain ⟨first, a, mid, u, more, b, -, -, -, -, hplus, -⟩ := (settles_add_iff hform hv).1 hn
    exact (Value.plus?_kinds hplus).2.2.2

/-- What one grouping yields any other grouping of its operands yields. -/
theorem settles_regrouped {m : Ast} (h2 : 2 ≤ operands.length) (hn : n.SumOf operands)
    (hm : m.SumOf operands) {lines : List String} (hv : v.isError = false)
    (hrun : Settles invoke debug n env s (⟨lines, .ok (v, env')⟩, t)) :
    ∃ more, Settles invoke debug m env s (⟨more, .ok (v, env')⟩, t) ∧
      lines.filter (shown debug) = more.filter (shown debug) := by
  obtain ⟨vs, said, hvs, hsum, hsaid⟩ := sumOf_inTurn hn (sumOf_failed hn h2 hv hrun) hrun
  obtain ⟨more, hother, -, htold⟩ := sumOf_settles hm hvs hsum
  exact ⟨more, hother, hsaid.trans htold.symm⟩

end

/-! ## The main statement -/

/-- What two groupings of the same operands have in common, the recursion limit aside. -/
structure Regrouped (invoke : Invoke ι σ) (debug : Bool) (operands : List Ast) (n m : Ast)
    (env : Env ι) : Prop where
  /-- One yields a value that is no error where the other does: the same value, in the same
  environment and the same state. -/
  same : ∀ s v env' t, v.isError = false →
    ((∃ lines, Settles invoke debug n env s (⟨lines, .ok (v, env')⟩, t)) ↔
      ∃ lines, Settles invoke debug m env s (⟨lines, .ok (v, env')⟩, t))
  /-- Then both print the same, but for where a debug trace shows the additions. -/
  output : ∀ s v env' t w env'' u lines more, v.isError = false →
    Settles invoke debug n env s (⟨lines, .ok (v, env')⟩, t) →
    Settles invoke debug m env s (⟨more, .ok (w, env'')⟩, u) →
    lines.filter (shown debug) = more.filter (shown debug) ∧ (debug = false → lines = more)
  /-- The value is the sum of what the operands yield one after the other, all of them integer
  values as it is one. -/
  sum : ∀ s v env' t lines, v.isError = false →
    Settles invoke debug n env s (⟨lines, .ok (v, env')⟩, t) →
    ∃ vs said, InTurn invoke debug operands env s vs said env' t ∧ Value.total? vs = some v ∧
      (∀ w ∈ vs, w.kind = .text "IntValue") ∧ v.kind = .text "IntValue" ∧
      ∀ ks, List.Forall₂ (fun (w : Value) (k : Int) => w.payload = .ok (.int k)) vs ks →
        v = .int ks.sum

theorem regrouped {operands : List Ast} {n m : Ast} (h2 : 2 ≤ operands.length)
    (hn : n.SumOf operands) (hm : m.SumOf operands) (invoke : Invoke ι σ) (debug : Bool)
    (env : Env ι) : Regrouped invoke debug operands n m env where
  same s v env' t hv := by
    constructor
    · rintro ⟨lines, hrun⟩
      obtain ⟨more, hother, -⟩ := settles_regrouped h2 hn hm hv hrun
      exact ⟨more, hother⟩
    · rintro ⟨lines, hrun⟩
      obtain ⟨more, hother, -⟩ := settles_regrouped h2 hm hn hv hrun
      exact ⟨more, hother⟩
  output s v env' t w env'' u lines more hv hrun hrun' := by
    obtain ⟨_, hother, hshown⟩ := settles_regrouped h2 hn hm hv hrun
    cases hother.unique hrun'
    refine ⟨hshown, ?_⟩
    rintro rfl
    rwa [filter_shown_false, filter_shown_false] at hshown
  sum s v env' t lines hv hrun := by
    obtain ⟨vs, said, hvs, hsum, -⟩ := sumOf_inTurn hn (sumOf_failed hn h2 hv hrun) hrun
    have hlength : 2 ≤ vs.length := hvs.length ▸ h2
    obtain ⟨hkinds, hkind⟩ := Value.total?_kinds hlength hsum
    exact ⟨vs, said, hvs, hsum, hkinds, hkind, fun ks hks =>
      Value.eq_int_of_total? hlength hks hsum⟩

/-- **Additions may be regrouped.** Of two groupings of the same operands one yields a value that is
no error where the other does, and then the value, the environment, the calls of callbacks and the
output are the same, and the value is the sum of those of the operands. So the chain that the parser
builds agrees with every other grouping of its operands, where the stack has room for both.
Decimal fractions, which only a host could write into a value, are left out (`Operator.apply`). -/
theorem addition_regroups (invoke : Invoke ι σ) (debug : Bool) (operands : List Ast)
    (h2 : 2 ≤ operands.length) :
    (∀ n m : Ast, n.SumOf operands → m.SumOf operands → ∀ env,
      Regrouped invoke debug operands n m env ∧
      Regrouped (logCalls invoke) debug operands n m env) ∧
    ∀ room first rest, (Analysis.expressions room (first :: rest)).outcome = .ok operands →
      ∀ tree : Tree, tree.SumOf (first :: rest) →
      ∃ n m, Analysis.Reaches (Tree.sum first rest) n ∧ Analysis.Reaches tree m ∧ ∀ env,
          Regrouped invoke debug operands n m env ∧
          Regrouped (logCalls invoke) debug operands n m env := by
  have hregroup : ∀ n m : Ast, n.SumOf operands → m.SumOf operands → ∀ env,
      Regrouped invoke debug operands n m env ∧
      Regrouped (logCalls invoke) debug operands n m env := fun n m hn hm env =>
    ⟨regrouped h2 hn hm invoke debug env, regrouped h2 hn hm (logCalls invoke) debug env⟩
  refine ⟨hregroup, fun room first rest hoperands tree htree => ?_⟩
  obtain ⟨n, hn, hchain⟩ := Analysis.expression_sumOf (.sum first rest) hoperands
  obtain ⟨m, hm, hother⟩ := Analysis.expression_sumOf htree hoperands
  exact ⟨n, m, hn, hm, hregroup n m hchain hother⟩

/-- `1 + f() + 3` and `1 + (f() + 3)`, where `f` calls a standard function. -/
theorem addition_regroups_around_call :
    let host : Host Empty Unit := nofun
    let f : Function Empty := .defined [] [.call "sub" [.int 5, .int 3]]
    let env := (Env.standard .empty).bindFunction "f" f
    let yields (n : Ast) : Prop := ∃ lines,
      Settles (logCalls (Callback.call host)) false n env ((), [])
        (⟨lines, .ok (.int 6, env)⟩, ((), [.called (.builtin .subtract) [.int 5, .int 3]]))
    yields (.add (.add (.int 1) (.call "f" [])) (.int 3)) ∧
    yields (.add (.int 1) (.add (.call "f" []) (.int 3))) := by
  intro host f env yields
  let n : Ast := .add (.add (.int 1) (.call "f" [])) (.int 3)
  let m : Ast := .add (.int 1) (.add (.call "f" []) (.int 3))
  have hn : n.SumOf [.int 1, .call "f" [], .int 3] :=
    .add rfl (.add rfl (.operand _) (.operand _)) (.operand _)
  have hm : m.SumOf [.int 1, .call "f" [], .int 3] :=
    .add rfl (.operand _) (.add rfl (.operand _) (.operand _))
  have hrun : eval (logCalls (Callback.call host)) false 9 n env ((), []) =
      (⟨[], .ok (.int 6, env)⟩, ((), [.called (.builtin .subtract) [.int 5, .int 3]])) := rfl
  have hchain : yields n := ⟨[], .of_eval hrun nofun⟩
  have hmain := (addition_regroups (Callback.call host) false _ (by decide)).1 n m hn hm env
  exact ⟨hchain, (hmain.2.same _ _ env _ rfl).1 hchain⟩

end Eval
end Tama
