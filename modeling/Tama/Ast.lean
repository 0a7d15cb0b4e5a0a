import Tama.Datum.Access

/-!
# Syntax trees

What the evaluator walks. The analyzer builds one from the parse trees of a program; a host may
also write a node by hand, as a record with a type tag and its parts as fields.
-/

set_option autoImplicit false

namespace Tama

/-- A syntax tree. -/
inductive Ast where
  /-- A whole program. -/
  | source (body : List Ast)
  | int (n : Int)
  | bool (b : Bool)
  | null
  | var (name : String)
  | assignment (name : String) (expression : Ast)
  | add (left right : Ast)
  | conditional (condition : Ast) (body : List Ast)
  | definition (name : String) (params : List String) (body : List Ast)
  | call (name : String) (args : List Ast)
  /-- A hand-written node, whatever data it is. -/
  | written (d : Datum)
  deriving Inhabited

namespace Ast

/-- The type tag of a node, null when it has none. -/
def kind : Ast → Datum
  | source _ => .text "Source"
  | int _ => .text "IntLiteral"
  | bool _ => .text "BoolLiteral"
  | null => .text "NullLiteral"
  | var _ => .text "Variable"
  | assignment _ _ => .text "Assignment"
  | add _ _ => .text "Add"
  | conditional _ _ => .text "If"
  | definition _ _ _ => .text "FunctionDefinition"
  | call _ _ => .text "FunctionCall"
  | written d => d.kind

/-! ## Records -/

/-- A record with a type tag. -/
def tagged (type : String) (fields : List (String × Datum)) : Datum :=
  .record (("type", .text type) :: fields)

mutual

/-- The record of a node. -/
def toDatum : Ast → Datum
  | source body => tagged "Source" [("statements", .list (toData body))]
  | int n => tagged "IntLiteral" [("value", .int n)]
  | bool b => tagged "BoolLiteral" [("value", .bool b)]
  | null => tagged "NullLiteral" []
  | var name => tagged "Variable" [("name", .text name)]
  | assignment name expression =>
    tagged "Assignment" [("name", .text name), ("expression", toDatum expression)]
  | add left right => tagged "Add" [("left", toDatum left), ("right", toDatum right)]
  | conditional condition body =>
    tagged "If" [("condition", toDatum condition), ("statements", .list (toData body))]
  | definition name params body =>
    tagged "FunctionDefinition"
      [("name", .text name), ("arguments", .list (params.map .text)),
        ("statements", .list (toData body))]
  | call name args =>
    tagged "FunctionCall" [("name", .text name), ("arguments", .list (toData args))]
  | written d => d

/-- The records of several nodes. -/
def toData : List Ast → List Datum
  | [] => []
  | t :: rest => toDatum t :: toData rest

end

theorem toData_eq_map (nodes : List Ast) : toData nodes = nodes.map toDatum := by
  induction nodes with
  | nil => rfl
  | cons t rest ih => simp only [toData, List.map_cons, ih]

end Ast
end Tama
