import Tama.Proofs.Grammar.Listing
import Tama.Proofs.Grammar.Spelling
import Tama.Proofs.Text.Position
import Tama.Proofs.Text.Words

/-!
# Reading a layout back

The layout of a program says what the program is. Each line of it is a label, whose words name the
kind of the node and what stands in the node (`ofWords`), under an indentation. Going through the
lines from the last to the first, the children of a node are the trees read so far that are indented
further than its line (`graft`), up to the first that is not. So the trees of a program are read
back from their layout (`layoutAll_readsBack`), and no other program is laid out the same
(`layout_faithful`).
-/

set_option autoImplicit false

namespace Tama.Tree

open Grammar Word

/-! ## Labels -/

/-- The tree that the words of a label and the children under it stand for. -/
def ofWords (words : List String) (children : List Tree) : Option Tree :=
  match words, children with
  | ["INT", n], [] => some (.int (Digit.number n.toList))
  | ["BOOL", b], [] => some (.bool (b = "True"))
  | ["NULL"], [] => some .null
  | ["VARIABLE", x], [] => some (.var x)
  | ["ADD"], [left, right] => some (.add left right)
  | ["FUNCTION_CALL", f], args => some (.call f args)
  | ["ASSIGNMENT", x], [e] => some (.assignment x e)
  | ["IF"], condition :: body => some (.conditional condition body)
  | "FUNCTION_DEF" :: f :: params, body => some (.definition f params body)
  | _, _ => none

/-- A label is read back, and takes up one line that is indented no further. -/
structure Labels (label : String) (t : Tree) : Prop where
  read : ofWords (words label.toList) t.slots = some t
  flush : NotNext (· = ' ') label.toList
  line : '\n' ∉ label.toList

namespace Labels

variable {t : Tree}

theorem notNext_space {word : List Char} (h : IsWord word) (rest : List Char) :
    NotNext (· = ' ') (word ++ rest) := by
  refine h.notNext (fun c hc => decide_eq_false ?_) rest
  rintro rfl
  cases hc

theorem bare (tag : String) (htag : IsWord tag.toList) (h : ofWords [tag] t.slots = some t) :
    Labels tag t := by
  have hflush := notNext_space htag []
  rw [List.append_nil] at hflush
  exact ⟨by rw [htag.words_eq, h], hflush, htag.not_mem (by decide)⟩

theorem tagged (tag : String) (htag : IsWord tag.toList) {inside : String}
    (hinside : '\n' ∉ inside.toList)
    (h : ofWords (tag :: words inside.toList) t.slots = some t) :
    Labels (tag ++ "(" ++ inside ++ ")") t := by
  have htext : (tag ++ "(" ++ inside ++ ")").toList =
      tag.toList ++ '(' :: (inside.toList ++ [')']) := by
    simp
  have hwords : words (tag.toList ++ '(' :: (inside.toList ++ [')'])) =
      tag :: words inside.toList := by
    rw [words_append_cons (by decide), words_append_cons (by decide), htag.words_eq, words_nil]
    simp
  refine ⟨by rw [htext, hwords, h], ?_, ?_⟩
  · rw [htext]
    exact notNext_space htag _
  · rw [htext]
    simpa using ⟨htag.not_mem (by decide), hinside⟩

theorem quoted (tag : String) (htag : IsWord tag.toList) {x : String} (hx : IsWord x.toList)
    (h : ofWords [tag, x] t.slots = some t) : Labels (tag ++ "(" ++ Quoted.quote x ++ ")") t := by
  refine tagged tag htag ?_ (by rw [Quoted.words_quote hx, h])
  rw [Quoted.toList_quote hx]
  simpa using hx.not_mem (by decide)

theorem int (n : Nat) : Labels ("INT" ++ "(" ++ toString (n : Int) ++ ")") (.int n) := by
  have hdigits : (toString (n : Int)).toList = Nat.toDigits 10 n := by
    rw [Int.toString_eq_repr, Int.repr_eq_if]
    simp [Nat.toList_repr]
  have hparts : ∀ c ∈ Nat.toDigits 10 n, isPart c = true := fun c => isPart_of_mem_toDigits
  refine tagged _ (by decide) ?_ ?_
  · rw [hdigits]
    intro hm
    cases hparts _ hm
  · rw [hdigits, words_of_isPart Nat.toDigits_ne_nil hparts]
    simp [ofWords, slots, Digit.number_toDigits]

theorem definition {f : String} {params : List String} (body : List Tree) (hf : IsWord f.toList)
    (hp : ∀ p ∈ params, IsWord p.toList) :
    Labels ("FUNCTION_DEF(" ++ f ++ "(" ++ ", ".intercalate params ++ "))")
      (.definition f params body) := by
  have htext : "FUNCTION_DEF(" ++ f ++ "(" ++ ", ".intercalate params ++ "))" =
      "FUNCTION_DEF" ++ "(" ++ (f ++ "(" ++ ", ".intercalate params ++ ")") ++ ")" := by
    refine String.toList_inj.1 ?_
    simp
  have hinside : (f ++ "(" ++ ", ".intercalate params ++ ")").toList =
      f.toList ++ '(' :: ((", ".intercalate params).toList ++ [')']) := by
    simp
  rw [htext]
  refine tagged _ (by decide) ?_ ?_
  · rw [hinside, List.mem_append, List.mem_cons, List.mem_append]
    exact not_or.2 ⟨hf.not_mem (by decide), not_or.2 ⟨by decide,
      not_or.2 ⟨newline_not_mem_intercalate hp, by decide⟩⟩⟩
  · rw [hinside, words_append_cons (by decide), words_append_cons (by decide), hf.words_eq,
      words_intercalate hp, words_nil]
    simp [ofWords, slots]

end Labels

theorem IsStatement.labels {t : Tree} {text : String} (h : t.IsStatement) (hs : t.NodeSpelled)
    (hl : t.label = .ok text) : Labels text t := by
  cases h with
  | expression h =>
    cases h with
    | int n =>
      obtain ⟨m, rfl⟩ := Int.eq_ofNat_of_zero_le hs
      rw [label, Decimal.write] at hl
      split at hl
      · cases hl
        exact .int m
      · cases hl
    | bool b =>
      cases b <;> cases hl
      · exact Labels.tagged "BOOL" (by decide) (by decide : '\n' ∉ "False".toList) rfl
      · exact Labels.tagged "BOOL" (by decide) (by decide : '\n' ∉ "True".toList) rfl
    | null =>
      cases hl
      exact .bare _ (by decide) rfl
    | var x =>
      cases hl
      exact .quoted "VARIABLE" (by decide) hs rfl
    | add _ _ =>
      cases hl
      exact .bare _ (by decide) rfl
    | call f _ =>
      cases hl
      exact .quoted "FUNCTION_CALL" (by decide) hs rfl
  | assignment x _ =>
    cases hl
    exact .quoted "ASSIGNMENT" (by decide) hs rfl
  | conditional _ _ =>
    cases hl
    exact .bare _ (by decide) rfl
  | definition f params _ =>
    cases hl
    exact .definition _ hs.1 hs.2

/-! ## Lines -/

/-- The trees read from the lines below a line, each with its indentation, and then from the line
too. What is indented further than the line is below its node. -/
def graft (line : List Char) (below : List (Nat × Tree)) : List (Nat × Tree) :=
  let depth := (line.takeWhile (· = ' ')).length
  let inner := below.takeWhile (depth < ·.1)
  match ofWords (words line) (inner.map (·.2)) with
  | some t => (depth, t) :: below.dropWhile (depth < ·.1)
  | none => below

/-- The trees that a text lays out, each with its indentation. -/
def ofLayout (text : List Char) : List (Nat × Tree) :=
  (Position.lines text).foldr graft []

theorem ofLayout_line {line : List Char} (h : '\n' ∉ line) (text : List Char) :
    ofLayout (line ++ ['\n'] ++ text) = graft line (ofLayout text) := by
  obtain ⟨first, rest, hfirst, hlines⟩ := Position.lines_append h ('\n' :: text)
  rw [Position.lines_newline] at hfirst
  obtain ⟨rfl, rfl⟩ := List.cons.inj hfirst
  simp [ofLayout, hlines]

/-- A line is put in front of its children, and of what is not indented further. -/
theorem graft_line {label : String} {t : Tree} (level : Nat) (h : Labels label t)
    {rest : List (Nat × Tree)} (hr : ∀ p ∈ rest.head?, p.1 ≤ 2 * level) :
    graft (List.replicate (2 * level) ' ' ++ label.toList)
      (t.slots.map (2 * (level + 1), ·) ++ rest) = (2 * level, t) :: rest := by
  have hspaces : ∀ c ∈ List.replicate (2 * level) ' ', decide (c = ' ') = true := by simp
  have hinner : ∀ p ∈ t.slots.map (2 * (level + 1), ·), decide (2 * level < p.1) = true := by simp
  have hnext : rest.takeWhile (2 * level < ·.1) = [] ∧ rest.dropWhile (2 * level < ·.1) = rest := by
    cases rest with
    | nil => exact ⟨rfl, rfl⟩
    | cons p rest =>
      have hp : ¬ 2 * level < p.1 := Nat.not_lt.2 (hr p rfl)
      simp [hp]
  simp only [graft, takeWhile_append hspaces h.flush, List.length_replicate,
    words_replicate_append (c := ' ') (by decide), List.takeWhile_append_of_pos hinner,
    List.dropWhile_append_of_pos hinner, hnext, List.append_nil, List.map_map, Function.comp_def,
    List.map_id', h.read]

/-! ## Layouts -/

theorem layoutAll_nil (level : Int) : layoutAll level [] = pure "" :=
  rfl

theorem layoutAll_cons (level : Int) (t : Tree) (ts : List Tree) :
    layoutAll level (t :: ts) = do return (← layout level t) ++ (← layoutAll level ts) :=
  rfl

/-- A layout is the line of a node and the layouts of its children, one level further in. -/
theorem layout_eq (level : Int) (t : Tree) : layout level t = do
    return (← line level t) ++ (← layoutAll (level + 1) t.slots) := by
  cases t <;> simp [layout, layoutAll_nil, layoutAll_cons, slots, String.append_assoc]

theorem line_post (level : Nat) (t : Tree) :
    Run.Post (fun text => ∃ label, t.label = .ok label ∧
      text.toList = List.replicate (2 * level) ' ' ++ label.toList ++ ['\n']) (fun _ => True)
      (line level t) := by
  unfold line
  cases hl : t.label with
  | error f => exact .error trivial
  | ok label =>
    cases hc : t.children with
    | error f => exact .error trivial
    | ok _ => exact .ok ⟨label, rfl, by simp⟩

/-- The trees that are read from a text are indented no further than a level. -/
def Shallow (level : Nat) (text : List Char) : Prop :=
  ∀ p ∈ (ofLayout text).head?, p.1 ≤ 2 * level

theorem Shallow.succ {level : Nat} {text : List Char} (h : Shallow level text) :
    Shallow (level + 1) text :=
  fun p hp => Nat.le_trans (h p hp) (Nat.mul_le_mul_left 2 (Nat.le_succ level))

/-- Whatever a layout yields is read back, in front of what follows it. -/
abbrev ReadsBack (level : Nat) (ts : List Tree) (x : Except Fault String) : Prop :=
  Run.Post (fun text => ∀ more, Shallow level more →
    ofLayout (text.toList ++ more) = ts.map (2 * level, ·) ++ ofLayout more) (fun _ => True) x

theorem readsBack_layoutAll {level : Nat} {ts : List Tree}
    (h : ∀ t ∈ ts, ReadsBack level [t] (layout level t)) :
    ReadsBack level ts (layoutAll level ts) := by
  induction ts with
  | nil => exact .ok fun more _ => rfl
  | cons t rest ih =>
    refine (h t List.mem_cons_self).bind fun first hfirst => ?_
    refine (ih fun t ht => h t (List.mem_cons_of_mem _ ht)).bind fun others hothers => ?_
    refine .ok fun more hmore => ?_
    have hafter := hothers more hmore
    have hshallow : Shallow level (others.toList ++ more) := by
      rw [Shallow, hafter]
      cases rest with
      | nil => exact hmore
      | cons u rest => simp
    rw [String.toList_append, List.append_assoc, hfirst _ hshallow, hafter]
    simp

theorem IsStatement.readsBack {t : Tree} (h : t.IsStatement) :
    t.Spelled → ∀ level : Nat, ReadsBack level [t] (layout level t) := by
  refine h.induction_slots
    (P := fun t => t.Spelled → ∀ level : Nat, ReadsBack level [t] (layout level t))
    fun t ht ih hs level => ?_
  have hbelow := readsBack_layoutAll fun c hc => ih c hc (hs.of_mem_slots hc) (level + 1)
  rw [layout_eq]
  refine (line_post level t).bind fun head hhead => ?_
  refine Run.Post.bind hbelow fun below hslots => .ok fun more hmore => ?_
  obtain ⟨label, hl, hhead⟩ := hhead
  have hlabel := ht.labels hs.node hl
  have hline : '\n' ∉ List.replicate (2 * level) ' ' ++ label.toList := by
    simpa using hlabel.line
  rw [String.toList_append, hhead, List.append_assoc, ofLayout_line hline,
    hslots more hmore.succ]
  exact graft_line level hlabel hmore

/-! ## Programs -/

theorem layoutAll_eq_join (level : Int) (ts : List Tree) :
    layoutAll level ts = (ts.mapM (layout level)).map String.join := by
  induction ts with
  | nil => rfl
  | cons t rest ih =>
    rw [layoutAll_cons, ih, List.mapM_cons]
    cases layout level t with
    | error f => rfl
    | ok first =>
      cases rest.mapM (layout level) with
      | error f => rfl
      | ok others => exact congrArg Except.ok String.join_cons.symm

/-- The trees of a program are read back from what is laid out. -/
theorem ofLayout_join {text : List Char} {trees : List Tree} {texts : List String}
    (h : Derives text trees) (ht : trees.mapM (layout 0) = .ok texts) :
    (ofLayout (String.join texts).toList).map (·.2) = trees := by
  have hread : ReadsBack 0 trees (layoutAll 0 trees) :=
    readsBack_layoutAll fun t hm => (h.isStatement t hm).readsBack (h.spelled t hm) 0
  rw [layoutAll_eq_join, ht] at hread
  cases hread with
  | ok hread =>
    have hend : Shallow 0 [] := nofun
    have hnone : ofLayout [] = [] := rfl
    have htrees := hread [] hend
    rw [List.append_nil, hnone, List.append_nil] at htrees
    rw [htrees, List.map_map]
    exact List.map_id trees

/-- **The layout of a program is faithful.** Every tree of a program can be laid out, and the trees
are read back from these layouts, one below the other. So no other program is laid out the same. -/
theorem layout_faithful {nesting : Nat} {text : List Char} {trees : List Tree}
    (h : Parser.program nesting text = .done trees []) :
    ∃ texts, trees.mapM (layout 0) = .ok texts ∧
      (ofLayout (String.join texts).toList).map (·.2) = trees ∧
      ∀ {limit : Nat} {other : List Char} {others : List Tree} {laidOut : List String},
        Parser.program limit other = .done others [] → others.mapM (layout 0) = .ok laidOut →
        String.join laidOut = String.join texts → others = trees := by
  have hderives := exists_program_iff.1 ⟨nesting, h⟩
  obtain ⟨whole, hwhole⟩ := layoutAll_of_shows hderives.shows 0
  obtain ⟨texts, htexts⟩ : ∃ texts, trees.mapM (layout 0) = .ok texts := by
    rw [layoutAll_eq_join] at hwhole
    cases hm : trees.mapM (layout 0) with
    | error f =>
      rw [hm] at hwhole
      cases hwhole
    | ok texts => exact ⟨texts, rfl⟩
  have hback := ofLayout_join hderives htexts
  refine ⟨texts, htexts, hback, fun ho hl heq => ?_⟩
  rw [← ofLayout_join (exists_program_iff.1 ⟨_, ho⟩) hl, heq, hback]

/-- The condition of a conditional stands apart from its body in the layout of both. -/
theorem layout_faithful_conditional :
    Parser.program 9 "if (f(x)) \x7b y; \x7d".toList =
      .done [.conditional (.call "f" [.var "x"]) [.var "y"]] [] ∧
    [Tree.conditional (.call "f" [.var "x"]) [.var "y"]].mapM (layout 0) =
      .ok ["IF\n  FUNCTION_CALL('f')\n    VARIABLE('x')\n  VARIABLE('y')\n"] ∧
    ∀ {limit : Nat} {other : List Char} {others : List Tree},
      Parser.program limit other = .done others [] → others.mapM (layout 0) =
        .ok ["IF\n  FUNCTION_CALL('f')\n    VARIABLE('x')\n  VARIABLE('y')\n"] →
      others = [.conditional (.call "f" [.var "x"]) [.var "y"]] := by
  have hparse : Parser.program 9 "if (f(x)) \x7b y; \x7d".toList =
      .done [.conditional (.call "f" [.var "x"]) [.var "y"]] [] := by cbv
  obtain ⟨texts, htexts, -, hunique⟩ := layout_faithful hparse
  have hlaid : ([Tree.conditional (.call "f" [.var "x"]) [.var "y"]].mapM (layout 0)).toOption =
      some ["IF\n  FUNCTION_CALL('f')\n    VARIABLE('x')\n  VARIABLE('y')\n"] := by decide +kernel
  rw [htexts] at hlaid
  cases hlaid
  exact ⟨hparse, htexts, fun ho hl => hunique ho hl rfl⟩

end Tama.Tree
