import Tama.Ast
import Tama.Value

/-!
# The form of a node

One look at a node, as the evaluator takes it: what the node asks for, with the parts that it has.
A part of a hand-written node may be missing or be of the wrong type; then the form holds the fault
of reading it, which arises only when the part is needed.

Main statement: the record of a node has the form of the node, with records for its children
(`form_asRecord`).
-/

set_option autoImplicit false

namespace Tama

/-- The parts of a function definition. -/
structure Ast.Definition where
  name : Datum
  params : List Datum
  body : List Ast

/-- What a node asks the evaluator to do. -/
inductive Ast.Form where
  | source (body : Except Fault (List Ast))
  | literal (v : Except Fault Value)
  | var (name : Except Fault Name)
  | assignment (name : Except Fault Name) (expression : Except Fault Ast)
  | add (left right : Except Fault Ast)
  | conditional (condition : Except Fault Ast) (body : Except Fault (List Ast))
  | definition (parts : Except Fault Ast.Definition)
  | call (name : Except Fault Name) (args : Except Fault (List Ast))
  /-- A node of a type that the language does not have. -/
  | unknown

namespace Ast.Form

/-! ## Hand-written parts -/

/-- The name in a field. -/
def name (d : Datum) : Except Fault Name := do
  (← d.get "name").name

/-- The child in a field. -/
def child (d : Datum) (field : String) : Except Fault Ast := do
  return .written (← d.get field)

/-- The children in a field. -/
def children (d : Datum) (field : String) : Except Fault (List Ast) := do
  return (← (← d.get field).items).map .written

/-- The value of a literal; its payload may be any data. -/
def payload (type : String) (d : Datum) : Except Fault Value := do
  return .holding type (← d.get "value")

/-- The parts of a function definition. That all of them are there is seen to before any of them is
looked into. -/
def parts (d : Datum) : Except Fault Definition := do
  let name ← d.get "name"
  let params ← d.get "arguments"
  let body ← d.get "statements"
  params.checkLength
  return ⟨name, ← params.items, (← body.items).map .written⟩

/-- The form of a hand-written node. -/
def ofDatum (d : Datum) : Form :=
  match d.kind with
  | .text "Source" => source (children d "statements")
  | .text "IntLiteral" => literal (payload "IntValue" d)
  | .text "BoolLiteral" => literal (payload "BoolValue" d)
  | .text "NullLiteral" => literal (.ok .null)
  | .text "Variable" => var (name d)
  | .text "Assignment" => assignment (name d) (child d "expression")
  | .text "Add" => add (child d "left") (child d "right")
  | .text "If" => conditional (child d "condition") (children d "statements")
  | .text "FunctionDefinition" => definition (parts d)
  | .text "FunctionCall" => call (name d) (children d "arguments")
  | _ => unknown

end Ast.Form

namespace Ast

/-- The form of a node. -/
def form : Ast → Form
  | source body => .source (.ok body)
  | int n => .literal (.ok (.int n))
  | bool b => .literal (.ok (.bool b))
  | null => .literal (.ok .null)
  | var name => .var (.ok name)
  | assignment name expression => .assignment (.ok name) (.ok expression)
  | add left right => .add (.ok left) (.ok right)
  | conditional condition body => .conditional (.ok condition) (.ok body)
  | definition name params body => .definition (.ok ⟨.text name, params.map .text, body⟩)
  | call name args => .call (.ok name) (.ok args)
  | written d => .ofDatum d

/-- What a node asks for tells its type. -/
theorem kind_of_form (node : Ast) :
    match node.form with
    | .source _ => node.kind = .text "Source"
    | .var _ => node.kind = .text "Variable"
    | .assignment _ _ => node.kind = .text "Assignment"
    | .add _ _ => node.kind = .text "Add"
    | .conditional _ _ => node.kind = .text "If"
    | .definition _ => node.kind = .text "FunctionDefinition"
    | .call _ _ => node.kind = .text "FunctionCall"
    | .literal _ | .unknown => True := by
  cases node with
  | written d =>
    simp only [form, Form.ofDatum]
    split <;> first | trivial | (split at * <;> simp_all [kind])
  | _ => trivial

/-- A node in the form of its record. -/
def asRecord (node : Ast) : Ast :=
  written node.toDatum

/-- A form with records for its children. -/
def Form.ofRecords : Form → Form
  | source body => source (body.map (·.map Ast.asRecord))
  | assignment name expression => assignment name (expression.map Ast.asRecord)
  | add left right => add (left.map Ast.asRecord) (right.map Ast.asRecord)
  | conditional condition body =>
    conditional (condition.map Ast.asRecord) (body.map (·.map Ast.asRecord))
  | definition parts =>
    definition (parts.map fun d => { d with body := d.body.map Ast.asRecord })
  | call name args => call name (args.map (·.map Ast.asRecord))
  | form => form

theorem map_asRecord (nodes : List Ast) :
    nodes.map asRecord = (toData nodes).map written := by
  rw [toData_eq_map, List.map_map]
  rfl

/-- A node and its record ask for the same. -/
theorem form_asRecord {node : Ast} (h : ∀ d, node ≠ written d) :
    node.asRecord.form = node.form.ofRecords := by
  cases node with
  | written d => exact absurd rfl (h d)
  | _ => simp only [form, Form.ofRecords, Except.map, map_asRecord]; rfl

end Ast
end Tama
