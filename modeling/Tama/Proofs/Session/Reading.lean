import Tama.Proofs.Session.Interactive
import Tama.Proofs.Token.Braces

/-!
# How much a session reads at once

An input of a session is one line or several: it ends with the first line after which no more braces
have been opened than closed (`readStatement`). All braces count, those in comments too. Where no
comment holds one, an input ends as soon as its blocks are closed, and a program is never waited for
(`statement_read`); a comment with a brace in it can make a session wait behind a whole program, or
cut a block off.
-/

set_option autoImplicit false

namespace Tama.Repl

open Lexer

/-! ## Inputs of several lines -/

/-- Lines as one text. -/
def joined (lines : List String) : String :=
  "\n".intercalate lines

/-- Goes on reading behind some code while more braces are opened than closed. -/
def readOn (code : String) : List String → Option (String × List String)
  | [] => if isUnfinished code then none else some (code, [])
  | line :: rest =>
    if isUnfinished code then readOn (code ++ "\n" ++ line) rest else some (code, line :: rest)

/-- Reads the first input off some lines, unless they end before it does. -/
def readStatement : List String → Option (String × List String)
  | [] => none
  | line :: rest => readOn line rest

/-- Of some lines, those up to the first one after which nothing is open any more. -/
structure Stops (isOpen : String → Prop) (lines read rest : List String) : Prop where
  lines_eq : lines = read ++ rest
  ne_nil : read ≠ []
  closed : ¬ isOpen (joined read)
  first : ∀ front back, read = front ++ back → front ≠ [] → back ≠ [] → isOpen (joined front)

theorem joined_append_singleton {lines : List String} (h : lines ≠ []) (line : String) :
    joined (lines ++ [line]) = joined lines ++ "\n" ++ line := by
  rw [joined, String.intercalate_append_of_ne_nil h (List.cons_ne_nil line []),
    String.intercalate_singleton]
  rfl

section

variable {code line : String} {lines rest : List String}

theorem readOn_of_closed (h : isUnfinished code = false) (lines : List String) :
    readOn code lines = some (code, lines) := by
  cases lines <;> simp [readOn, h]

theorem readOn_nil_of_open (h : isUnfinished code = true) : readOn code [] = none := by
  simp [readOn, h]

theorem readOn_cons_of_open (h : isUnfinished code = true) (line : String) (rest : List String) :
    readOn code (line :: rest) = readOn (code ++ "\n" ++ line) rest := by
  simp [readOn, h]

/-- Behind the lines `front` an input goes on for the lines `read`, and ends with them. -/
structure GoesOn (front lines read rest : List String) : Prop where
  lines_eq : lines = read ++ rest
  closed : isUnfinished (joined (front ++ read)) = false
  first : ∀ start back, read = start ++ back → back ≠ [] →
    isUnfinished (joined (front ++ start)) = true

section

variable {front more read : List String}

theorem GoesOn.nil (h : isUnfinished (joined front) = false) (lines : List String) :
    GoesOn front lines [] lines := by
  refine ⟨rfl, by rwa [List.append_nil], fun start back hback hne => ?_⟩
  exact absurd (List.append_eq_nil_iff.1 hback.symm).2 hne

theorem GoesOn.eq_nil (h : GoesOn front lines read rest)
    (hc : isUnfinished (joined front) = false) : read = [] := by
  by_contra hne
  have hopen := h.first [] read rfl hne
  rw [List.append_nil, hc] at hopen
  cases hopen

theorem GoesOn.ne_nil (h : GoesOn front lines read rest)
    (ho : isUnfinished (joined front) = true) : read ≠ [] := by
  rintro rfl
  have hclosed := h.closed
  rw [List.append_nil, ho] at hclosed
  cases hclosed

theorem goesOn_cons_iff (ho : isUnfinished (joined front) = true) :
    GoesOn front (line :: more) (line :: read) rest ↔ GoesOn (front ++ [line]) more read rest := by
  have happend : ∀ text, front ++ line :: text = (front ++ [line]) ++ text := by simp
  constructor
  · intro h
    refine ⟨(List.cons.inj h.lines_eq).2, by rw [← happend]; exact h.closed, ?_⟩
    intro start back hread hne
    rw [← happend]
    exact h.first (line :: start) back (congrArg (line :: ·) hread) hne
  · intro h
    refine ⟨congrArg (line :: ·) h.lines_eq, by rw [happend]; exact h.closed, ?_⟩
    intro start back hread hne
    cases start with
    | nil => rwa [List.append_nil]
    | cons first start =>
      obtain ⟨rfl, htail⟩ := List.cons.inj hread
      rw [happend]
      exact h.first start back htail hne

theorem readOn_iff_of_closed (hc : isUnfinished (joined front) = false) :
    readOn (joined front) lines = some (code, rest) ↔
      ∃ read, GoesOn front lines read rest ∧ code = joined (front ++ read) := by
  rw [readOn_of_closed hc, Option.some.injEq, Prod.mk.injEq]
  constructor
  · rintro ⟨rfl, rfl⟩
    exact ⟨[], .nil hc lines, by rw [List.append_nil]⟩
  · rintro ⟨read, h, rfl⟩
    obtain rfl := h.eq_nil hc
    exact ⟨by rw [List.append_nil], h.lines_eq⟩

/-- What is read behind some lines, if the input ends. -/
theorem readOn_eq_some_iff (hf : front ≠ []) : readOn (joined front) lines = some (code, rest) ↔
    ∃ read, GoesOn front lines read rest ∧ code = joined (front ++ read) := by
  induction lines generalizing front with
  | nil =>
    cases hopen : isUnfinished (joined front) with
    | false => exact readOn_iff_of_closed hopen
    | true =>
      rw [readOn_nil_of_open hopen]
      refine ⟨nofun, fun ⟨read, h, _⟩ => ?_⟩
      exact absurd (List.append_eq_nil_iff.1 h.lines_eq.symm).1 (h.ne_nil hopen)
  | cons line more ih =>
    cases hopen : isUnfinished (joined front) with
    | false => exact readOn_iff_of_closed hopen
    | true =>
      rw [readOn_cons_of_open hopen, ← joined_append_singleton hf, ih (by simp)]
      constructor
      · rintro ⟨read, h, rfl⟩
        exact ⟨line :: read, (goesOn_cons_iff hopen).2 h, by simp⟩
      · rintro ⟨read, h, rfl⟩
        obtain ⟨first, read, rfl⟩ := List.exists_cons_of_ne_nil (h.ne_nil hopen)
        obtain ⟨rfl, -⟩ := List.cons.inj h.lines_eq
        exact ⟨read, (goesOn_cons_iff hopen).1 h, by simp⟩

end

end

theorem readStatement_eq_some_iff {lines : List String} {code : String} {rest : List String} :
    readStatement lines = some (code, rest) ↔
      ∃ read, Stops (isUnfinished · = true) lines read rest ∧ code = joined read := by
  have hstops : ∀ {line : String} {more read : List String},
      Stops (isUnfinished · = true) (line :: more) (line :: read) rest ↔
        GoesOn [line] more read rest := by
    intro line more read
    constructor
    · intro h
      refine ⟨(List.cons.inj h.lines_eq).2, by simpa using h.closed, fun start back hread => ?_⟩
      exact h.first (line :: start) back (congrArg (line :: ·) hread) (List.cons_ne_nil _ _)
    · intro h
      refine ⟨congrArg (line :: ·) h.lines_eq, List.cons_ne_nil _ _, by simpa using h.closed, ?_⟩
      intro front back hread hfront
      obtain ⟨first, start, rfl⟩ := List.exists_cons_of_ne_nil hfront
      obtain ⟨rfl, htail⟩ := List.cons.inj hread
      exact h.first start back htail
  cases lines with
  | nil =>
    refine ⟨nofun, fun ⟨read, h, _⟩ => ?_⟩
    exact absurd (List.append_eq_nil_iff.1 h.lines_eq.symm).1 h.ne_nil
  | cons line more =>
    rw [readStatement, ← String.intercalate_singleton (s := "\n") (t := line)]
    refine (readOn_eq_some_iff (List.cons_ne_nil line [])).trans ?_
    constructor
    · rintro ⟨read, h, rfl⟩
      exact ⟨line :: read, hstops.2 h, rfl⟩
    · rintro ⟨read, h, rfl⟩
      obtain ⟨first, read, rfl⟩ := List.exists_cons_of_ne_nil h.ne_nil
      obtain ⟨rfl, -⟩ := List.cons.inj h.lines_eq
      exact ⟨read, hstops.1 h, rfl⟩

/-! ## Sessions -/

section

variable {ι σ : Type} (host : Host ι σ) (raised : Stack) (debug : Bool)

/-- What a session prints behind an answer, and the fault that ends it, if one does. -/
def afterwards (answer : (String × Next ι) × σ) (inputs : List Input) : String × Option Fault :=
  match answer with
  | ((said, .reading next), t) =>
    (said ++ (transcript host raised debug next t inputs).1,
      (transcript host raised debug next t inputs).2)
  | ((said, .finished), _) => (said, none)
  | ((said, .crashed f), _) => (said, some f)

/-- Prints something first. -/
def printed (text : String) (rest : String × Option Fault) : String × Option Fault :=
  (text ++ rest.1, rest.2)

/-- The prompts for so many further lines of an input. -/
def continued (n : Nat) : String :=
  String.join (List.replicate n continuationPrompt)

theorem printed_printed (text more : String) (rest : String × Option Fault) :
    printed text (printed more rest) = printed (text ++ more) rest := by
  rw [printed, printed, printed, String.append_assoc]

theorem printed_continued (n : Nat) (rest : String × Option Fault) :
    printed continuationPrompt (printed (continued n) rest) = printed (continued (n + 1)) rest := by
  rw [printed_printed, continued, continued, List.replicate_succ, String.join_cons]

theorem continued_one : continued 1 = continuationPrompt := by
  simp [continued]

theorem transcript_cons (state : State ι) (s : σ) (input : Input) (inputs : List Input) :
    transcript host raised debug state s (input :: inputs) =
      printed state.prompt
        (afterwards host raised debug (step host raised debug state input s) inputs) := by
  unfold transcript afterwards printed
  rcases step host raised debug state input s with ⟨⟨said, next | _ | f⟩, t⟩
  · simp [String.append_assoc]
  · rfl
  · rfl

variable (env : Env ι) (stack : Stack) (s : σ) {state : State ι} {line : String}
  (inputs : List Input)

theorem transcript_open (h : isUnfinished (state.code line) = true) :
    transcript host raised debug state s (.line line :: inputs) =
      printed state.prompt (transcript host raised debug
        { state with unfinished := some (state.code line) } s inputs) := by
  rw [transcript_cons, step_unfinished h]
  simp [afterwards]

theorem transcript_closed (h : isUnfinished (state.code line) = false) :
    transcript host raised debug state s (.line line :: inputs) =
      printed state.prompt (afterwards host raised debug
        (perform host raised debug state (state.code line) s) inputs) := by
  rw [transcript_cons, step_complete host raised debug s h]

/-- The lines of an input that is read to its end do not matter to what it asks for. -/
theorem perform_unfinished (state : State ι) (unfinished : Option String) (code : String) :
    perform host raised debug { state with unfinished := unfinished } code s =
      perform host raised debug state code s := by
  have hafter : ∀ code env,
      goOn (State.after raised { state with unfinished := unfinished } code env) =
        goOn (state.after raised code env) := by
    intro code env
    unfold State.after
    dsimp only
    cases (Session.prepare state.stack false code "<input>").outcome <;> rfl
  unfold perform
  cases Command.ofInput code with
  | run code => simp only [runCode, hafter]
  | _ => rfl

/-- A session that is reading on takes up the lines that are read, and then does what they say. -/
theorem transcript_readOn {lines rest : List String} {code text : String}
    (h : readOn code lines = some (text, rest)) (ho : isUnfinished code = true) :
    ∃ read, lines = read ++ rest ∧
      transcript host raised debug ⟨env, some code, stack⟩ s (lines.map .line ++ inputs) =
        printed (continued read.length) (afterwards host raised debug
          (perform host raised debug ⟨env, none, stack⟩ text s) (rest.map .line ++ inputs)) := by
  induction lines generalizing code with
  | nil =>
    rw [readOn_nil_of_open ho] at h
    cases h
  | cons line more ih =>
    rw [readOn_cons_of_open ho] at h
    let state : State ι := ⟨env, some code, stack⟩
    cases hnext : isUnfinished (state.code line) with
    | true =>
      obtain ⟨read, rfl, hrest⟩ := ih h hnext
      refine ⟨line :: read, rfl, ?_⟩
      rw [List.map_cons, List.cons_append, transcript_open host raised debug s _ hnext]
      exact (congrArg (printed continuationPrompt) hrest).trans (printed_continued ..)
    | false =>
      have hread := (readOn_of_closed hnext more).symm.trans h
      obtain ⟨rfl, rfl⟩ := Prod.mk.inj (Option.some.inj hread)
      refine ⟨[line], rfl, ?_⟩
      have hperform : perform host raised debug state (state.code line) s =
          perform host raised debug ⟨env, none, stack⟩ (state.code line) s :=
        perform_unfinished host raised debug s ⟨env, none, stack⟩ (some code) _
      rw [List.map_cons, List.cons_append, transcript_closed host raised debug s _ hnext, hperform]
      exact congrArg (printed · _) continued_one.symm

/-- A session that is reading on when its lines end has asked for one more. -/
theorem transcript_readOn_of_none {lines : List String} {code : String}
    (h : readOn code lines = none) (ho : isUnfinished code = true) :
    transcript host raised debug ⟨env, some code, stack⟩ s (lines.map .line) =
      printed (continued (lines.length + 1)) (farewell, none) := by
  induction lines generalizing code with
  | nil => exact congrArg (printed · (farewell, none)) continued_one.symm
  | cons line more ih =>
    rw [readOn_cons_of_open ho] at h
    let state : State ι := ⟨env, some code, stack⟩
    cases hnext : isUnfinished (state.code line) with
    | true =>
      rw [List.map_cons, transcript_open host raised debug s _ hnext]
      exact (congrArg (printed continuationPrompt) (ih h hnext)).trans (printed_continued ..)
    | false => cases (readOn_of_closed hnext more).symm.trans h

/-- A session reads its first input off its lines, and then does what it says. -/
theorem transcript_readStatement {lines rest : List String} {code : String}
    (h : readStatement lines = some (code, rest)) : ∃ read, lines = read ++ rest ∧
      transcript host raised debug ⟨env, none, stack⟩ s (lines.map .line ++ inputs) =
        printed (prompt ++ continued (read.length - 1))
          (afterwards host raised debug (perform host raised debug ⟨env, none, stack⟩ code s)
            (rest.map .line ++ inputs)) := by
  cases lines with
  | nil => cases h
  | cons line more =>
    let state : State ι := ⟨env, none, stack⟩
    cases hline : isUnfinished (state.code line) with
    | true =>
      obtain ⟨read, rfl, hrest⟩ := transcript_readOn host raised debug env stack s inputs h hline
      refine ⟨line :: read, rfl, ?_⟩
      rw [List.map_cons, List.cons_append, transcript_open host raised debug s _ hline]
      exact (congrArg (printed prompt) hrest).trans (printed_printed ..)
    | false =>
      have hread := (readOn_of_closed hline more).symm.trans h
      obtain ⟨rfl, rfl⟩ := Prod.mk.inj (Option.some.inj hread)
      refine ⟨[line], rfl, ?_⟩
      rw [List.map_cons, List.cons_append, transcript_closed host raised debug s _ hline]
      rfl

/-- A session whose lines end within its first input has asked for one more. -/
theorem transcript_readStatement_of_none {lines : List String} (h : readStatement lines = none) :
    transcript host raised debug ⟨env, none, stack⟩ s (lines.map .line) =
      printed (prompt ++ continued lines.length) (farewell, none) := by
  cases lines with
  | nil => rfl
  | cons line more =>
    let state : State ι := ⟨env, none, stack⟩
    cases hline : isUnfinished (state.code line) with
    | true =>
      have hrest := transcript_readOn_of_none host raised debug env stack s h hline
      rw [List.map_cons, transcript_open host raised debug s _ hline]
      exact (congrArg (printed prompt) hrest).trans (printed_printed ..)
    | false => cases (readOn_of_closed hline more).symm.trans h

end

/-! ## Braces -/

/-- More blocks are opened than closed in a text: its opening braces are more than its closing ones,
comments apart. -/
def OpenBlock (code : String) : Prop :=
  (uncommented code.toList).count '\x7d' < (uncommented code.toList).count '\x7b'

/-- No comment of a text holds a brace. -/
def PlainComments (code : String) : Prop :=
  ∀ c ∈ comments code.toList, c ≠ '\x7b' ∧ c ≠ '\x7d'

section

variable {code : String}

/-- A session counts the braces in comments with the others. -/
theorem isUnfinished_iff (code : String) : isUnfinished code = true ↔
    (uncommented code.toList).count '\x7d' + (comments code.toList).count '\x7d' <
      (uncommented code.toList).count '\x7b' + (comments code.toList).count '\x7b' := by
  rw [isUnfinished, decide_eq_true_eq, count_eq (by decide : '\x7b' ≠ '\n'),
    count_eq (by decide : '\x7d' ≠ '\n')]

theorem isUnfinished_iff_openBlock (h : PlainComments code) :
    isUnfinished code = true ↔ OpenBlock code := by
  have hopening : (comments code.toList).count '\x7b' = 0 :=
    List.count_eq_zero_of_not_mem fun hm => (h _ hm).1 rfl
  have hclosing : (comments code.toList).count '\x7d' = 0 :=
    List.count_eq_zero_of_not_mem fun hm => (h _ hm).2 rfl
  rw [isUnfinished_iff, hopening, hclosing, OpenBlock, Nat.add_zero, Nat.add_zero]

theorem PlainComments.front {front back : List String} (h : PlainComments (joined (front ++ back)))
    (hf : front ≠ []) : PlainComments (joined front) := by
  cases back with
  | nil => rwa [List.append_nil] at h
  | cons line back =>
    have htext : (joined (front ++ line :: back)).toList =
        (joined front).toList ++ '\n' :: (joined (line :: back)).toList := by
      rw [joined, String.intercalate_append_of_ne_nil hf (List.cons_ne_nil line back)]
      simp [joined]
    rw [PlainComments, htext, comments_append_newline] at h
    exact fun c hc => h c (List.mem_append_left _ hc)

theorem Stops.congr {p q : String → Prop} {lines read rest : List String}
    (h : ∀ front back, lines = front ++ back → front ≠ [] → (p (joined front) ↔ q (joined front))) :
    Stops p lines read rest → Stops q lines read rest := by
  intro hp
  refine ⟨hp.lines_eq, hp.ne_nil, fun hq => ?_, fun front back hread hf hb => ?_⟩
  · exact hp.closed ((h read rest hp.lines_eq hp.ne_nil).2 hq)
  · have hlines : lines = front ++ (back ++ rest) := by
      rw [hp.lines_eq, hread, List.append_assoc]
    exact (h front _ hlines hf).1 (hp.first front back hread hf hb)

end

/-! ## The main statement -/

/-- **How much a session reads at once.** A session reads its first input off its lines, with a
prompt for each of them, and then does what it says; when the lines end before the input does, it
has asked for one more. The input is what the lines say up to the first one after which no more
braces have been opened than closed, those in comments included. Where no comment holds a brace,
these are the braces among the tokens. A program is waited for exactly when its comments open more
braces than they close. -/
theorem statement_read {ι σ : Type} (host : Host ι σ) (stack raised : Stack) (debug : Bool)
    (env : Env ι) (s : σ) (lines : List String) (inputs : List Input) :
    (∀ code rest, readStatement lines = some (code, rest) → ∃ read, lines = read ++ rest ∧
      transcript host raised debug ⟨env, none, stack⟩ s (lines.map .line ++ inputs) =
        printed (prompt ++ continued (read.length - 1))
          (afterwards host raised debug (perform host raised debug ⟨env, none, stack⟩ code s)
            (rest.map .line ++ inputs))) ∧
    (readStatement lines = none →
      transcript host raised debug ⟨env, none, stack⟩ s (lines.map .line) =
        printed (prompt ++ continued lines.length) (farewell, none)) ∧
    (∀ code rest, readStatement lines = some (code, rest) ↔
      ∃ read, Stops (isUnfinished · = true) lines read rest ∧ code = joined read) ∧
    (PlainComments (joined lines) → ∀ code rest, readStatement lines = some (code, rest) ↔
      ∃ read, Stops OpenBlock lines read rest ∧ code = joined read) ∧
    (∀ code filename tokens, tokenize code filename = .ok tokens → (OpenBlock code ↔
      tokens.countP (·.lexeme = .delimiter '\x7d') <
        tokens.countP (·.lexeme = .delimiter '\x7b'))) ∧
    ∀ code filename trees, Program.read code filename = .ok trees →
      (isUnfinished code = true ↔
        (comments code.toList).count '\x7d' < (comments code.toList).count '\x7b') := by
  refine ⟨fun code rest h => transcript_readStatement host raised debug env stack s inputs h,
    transcript_readStatement_of_none host raised debug env stack s,
    fun code rest => readStatement_eq_some_iff,
    fun hplain code rest => ?_, fun code filename tokens h => ?_, fun code filename trees h => ?_⟩
  · have hsame : ∀ front back, lines = front ++ back → front ≠ [] →
        (isUnfinished (joined front) = true ↔ OpenBlock (joined front)) :=
      fun front back hlines hf => isUnfinished_iff_openBlock ((hlines ▸ hplain).front hf)
    rw [readStatement_eq_some_iff]
    constructor
    · rintro ⟨read, hstops, rfl⟩
      exact ⟨read, hstops.congr hsame, rfl⟩
    · rintro ⟨read, hstops, rfl⟩
      exact ⟨read, hstops.congr fun front back hlines hf => (hsame front back hlines hf).symm, rfl⟩
  · rw [countP_tokens (by decide) h, countP_tokens (by decide) h]
    rfl
  · rw [isUnfinished_iff, Grammar.read_balanced h]
    exact Nat.add_lt_add_iff_left

/-- A block of three lines is read whole, and no line more. -/
theorem statement_read_of_block :
    PlainComments (joined ["if (a) \x7b", "b;", "\x7d # done", "c;"]) ∧
    ∃ read, Stops OpenBlock ["if (a) \x7b", "b;", "\x7d # done", "c;"] read ["c;"] ∧
      "if (a) \x7b\nb;\n\x7d # done" = joined read := by
  have hplain : PlainComments (joined ["if (a) \x7b", "b;", "\x7d # done", "c;"]) := by
    have hcomments : comments (joined ["if (a) \x7b", "b;", "\x7d # done", "c;"]).toList =
        "# done".toList := by cbv
    rw [PlainComments, hcomments]
    simp
  have hread : readStatement ["if (a) \x7b", "b;", "\x7d # done", "c;"] =
      some ("if (a) \x7b\nb;\n\x7d # done", ["c;"]) := by decide
  let host : Host Empty Unit := fun callback => callback.elim
  obtain ⟨-, -, -, hstops, -⟩ := statement_read host (.ofLimit 1000) (.ofLimit 10000) false
    (.standard .empty) () ["if (a) \x7b", "b;", "\x7d # done", "c;"] []
  exact ⟨hplain, (hstops hplain _ _).1 hread⟩

/-- Behind a program whose comment opens a brace a session waits for more, and takes `exit` for a
part of it. A block whose comment closes one is cut off. -/
theorem session_misled_by_comment :
    let host : Host Empty Unit := nofun
    Program.read "1;#\x7b" "<input>" = .ok [.int 1] ∧ ¬ OpenBlock "1;#\x7b" ∧
    transcript host Stacks.standard.raised false (start Stacks.standard.initial) ()
        [.line "1;#\x7b", .line "exit"] =
      ("tama> ....> ....> \nGoodbye!\n", none) ∧
    OpenBlock "if(a)\x7b#\x7d" ∧
    readStatement ["if(a)\x7b#\x7d", "b;", "\x7d"] = some ("if(a)\x7b#\x7d", ["b;", "\x7d"]) := by
  intro host
  have hread : Program.read "1;#\x7b" "<input>" = .ok [.int 1] :=
    Grammar.read_of_program (by cbv : Parser.program 5 _ = .done _ _)
  have hnone : readStatement ["1;#\x7b", "exit"] = none := by decide
  refine ⟨hread, by unfold OpenBlock; decide, ?_, by unfold OpenBlock; decide, by decide⟩
  rw [start]
  exact (transcript_readStatement_of_none host _ false (.standard .empty) _ () hnone).trans rfl

end Tama.Repl
