import Tama.Proofs.Grammar

/-!
# The trees of the grammar

The trees that expressions and statements stand for have the shape that their rules give them, at
every depth; none of them is hand-written or has a hole.
-/

set_option autoImplicit false

namespace Tama

/-! ## Shapes -/

/-- The trees of expressions. -/
inductive Tree.IsExpression : Tree → Prop
  | int (n : Int) : IsExpression (.int n)
  | bool (b : Bool) : IsExpression (.bool b)
  | null : IsExpression .null
  | var (x : String) : IsExpression (.var x)
  | add {l r : Tree} : IsExpression l → IsExpression r → IsExpression (.add l r)
  | call (f : String) {args : List Tree} : (∀ a ∈ args, IsExpression a) →
      IsExpression (.call f args)

/-- The trees of statements. -/
inductive Tree.IsStatement : Tree → Prop
  | expression {t : Tree} : t.IsExpression → IsStatement t
  | assignment (x : String) {e : Tree} : e.IsExpression → IsStatement (.assignment x e)
  | conditional {c : Tree} {body : List Tree} : c.IsExpression → (∀ s ∈ body, IsStatement s) →
      IsStatement (.conditional c body)
  | definition (f : String) (params : List String) {body : List Tree} :
      (∀ s ∈ body, IsStatement s) → IsStatement (.definition f params body)

namespace Grammar

/-! ## Derivations -/

mutual

theorem Operand.isExpression {ws : List Lexeme} {t : Tree} : Operand ws t → t.IsExpression
  | .integer _ => .int _
  | .true => .bool _
  | .false => .bool _
  | .null => .null
  | .call f h => .call f h.isExpression
  | .var x => .var x
  | .parenthesized h => Sum.isExpression h

theorem Sum.isExpression {ws : List Lexeme} {t : Tree} : Sum Operand ws t → t.IsExpression
  | .operand h => Operand.isExpression h
  | .add hl hr => .add (Sum.isExpression hl) (Operand.isExpression hr)

theorem Listed.isExpression {ws : List Lexeme} {ts : List Tree} :
    Listed (Sum Operand) ws ts → ∀ t ∈ ts, t.IsExpression
  | .none => nofun
  | .some h => Separated.isExpression h

theorem Separated.isExpression {ws : List Lexeme} {ts : List Tree} :
    Separated (Sum Operand) ws ts → ∀ t ∈ ts, t.IsExpression
  | .one h => by simpa using Sum.isExpression h
  | .cons h hs => by simpa using ⟨Sum.isExpression h, Separated.isExpression hs⟩

end

mutual

theorem Statement.isStatement {ws : List Lexeme} {t : Tree} : Statement ws t → t.IsStatement
  | .definition f _ hb => .definition f _ (Star.isStatement hb)
  | .conditional hc hb => .conditional (Sum.isExpression hc) (Star.isStatement hb)
  | .assignment x h => .assignment x (Sum.isExpression h)
  | .expression h => .expression (Sum.isExpression h)

theorem Star.isStatement {ws : List Lexeme} {ts : List Tree} :
    Star Statement ws ts → ∀ t ∈ ts, t.IsStatement
  | .nil => nofun
  | .cons h hs => by simpa using ⟨Statement.isStatement h, Star.isStatement hs⟩

end

/-- The trees of a program are trees of statements. -/
theorem Derives.isStatement {text : List Char} {trees : List Tree} (h : Derives text trees) :
    ∀ t ∈ trees, t.IsStatement := by
  obtain ⟨ws, -, hs⟩ := h
  exact hs.isStatement

end Grammar
end Tama
