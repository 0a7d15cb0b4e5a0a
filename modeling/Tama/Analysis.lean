import Tama.Ast
import Tama.Run
import Tama.Tree.Record

/-!
# Analysis

Turns parse trees into the syntax tree of a program. Statements may not stand where an expression
is wanted, and the parameters of a function are distinct. Every analysis prints what it visits;
whether anyone sees these lines is up to its caller, so they cannot influence the result.

An analysis takes a frame of the stack for every expression and statement that it is in, and one for
what is called there last, be it only to make a node. A list that is made of the parts of a node
takes a frame of its own, and so do the block that the list is of and the definition that the block
belongs to. `room` is the number of frames that are left.
-/

set_option autoImplicit false

namespace Tama

/-- What is wrong with a program that parses. -/
inductive SemanticCause where
  /-- A node of this tag stands where an expression is wanted. -/
  | notExpression (tag : String)
  /-- Two parameters of a function have the same name. -/
  | duplicateParameter (parameter function : String)
  deriving DecidableEq, Repr

/-- The wording of what is wrong. -/
def SemanticCause.message : SemanticCause → String
  | notExpression tag => tag ++ " cannot be used as an expression"
  | duplicateParameter parameter function =>
    "Duplicate parameter '" ++ parameter ++ "' in definition of '" ++ function ++ "'"

/-- A semantic error, and the node where it is with its tag. -/
structure SemanticError where
  cause : SemanticCause
  tag : String
  node : Tree

/-- A message about a node with a tag, or about no node in particular. -/
def SemanticError.describe (message : String) (tag : Option String) : String :=
  match tag with
  | some tag => "Semantic error in " ++ tag ++ ": " ++ message
  | none => "Semantic error: " ++ message

/-- The wording of a semantic error. -/
def SemanticError.message (e : SemanticError) : String :=
  describe e.cause.message (some e.tag)

/-- Why an analysis fails. -/
inductive AnalysisFailure where
  | semantic (e : SemanticError)
  | fault (f : Fault)

namespace Analysis

instance : MonadLift (Except Fault) (Traced AnalysisFailure) :=
  ⟨fun x => ⟨[], x.mapError .fault⟩⟩

/-- The tag of a node as text. -/
def tagText (t : Tree) : Except Fault String := do
  let tag ← t.tag
  return ← tag.display

/-- Reports a semantic error at a node. -/
def reject {α : Type} (cause : SemanticCause) (node : Tree) : Traced AnalysisFailure α := do
  let tag ← tagText node
  Traced.fail (.semantic ⟨cause, tag, node⟩)

/-- Stops unless so many frames of the stack are left. -/
def reserve (frames room : Nat) : Traced AnalysisFailure Unit :=
  if frames ≤ room then return () else Traced.fail (.fault .tooDeep)

/-- Enters an expression and notes the visit. -/
def visitExpression (room : Nat) (t : Tree) : Traced AnalysisFailure Unit := do
  reserve 2 room
  Traced.line ("Analyzing expression: " ++ (← tagText t))

/-- Enters a statement and notes the visit. -/
def visitStatement (room : Nat) (t : Tree) : Traced AnalysisFailure Unit := do
  reserve 2 room
  Traced.line ("Analyzing statement: " ++ (← tagText t))

/-- Reports a node that stands where an expression is wanted. -/
def notExpression {α : Type} (room : Nat) (t : Tree) : Traced AnalysisFailure α := do
  let tag ← tagText t
  reserve 3 room
  reject (.notExpression tag) t

/-! ## Expressions -/

mutual

/-- Analyzes an expression. -/
def expression (room : Nat) : Tree → Traced AnalysisFailure Ast
  | .int n => do
    visitExpression room (.int n)
    return .int n
  | .bool b => do
    visitExpression room (.bool b)
    return .bool b
  | .null => do
    visitExpression room .null
    return .null
  | .var name => do
    visitExpression room (.var name)
    return .var name
  | .add left right => do
    visitExpression room (.add left right)
    let l ← expression (room - 1) left
    let r ← expression (room - 1) right
    return .add l r
  | .call name args => do
    visitExpression room (.call name args)
    let args' ← expressions (room - 2) args
    return .call name args'
  | .written d parts => do
    visitExpression room (.written d parts)
    let (tag, value) ← d.pair
    match tag with
    | .text "INT" => return .written (Ast.tagged "IntLiteral" [("value", value)])
    | .text "BOOL" => return .written (Ast.tagged "BoolLiteral" [("value", value)])
    | .text "NULL" => return .null
    | .text "VARIABLE" => return .written (Ast.tagged "Variable" [("name", value)])
    | .text "ADD" => do
      match ← expressions (room - 1) parts with
      | [l, r] => return .add l r
      | _ => notExpression room (.written d parts)
    | .text "FUNCTION_CALL" => do
      let name ← value.get "name"
      let args' ← expressions (room - 2) parts
      return .written (Ast.tagged "FunctionCall"
        [("name", name), ("arguments", .list (Ast.toData args'))])
    | _ => notExpression room (.written d parts)
  | .hole f => Traced.fail (.fault f)
  | t => do
    visitExpression room t
    notExpression room t

/-- Analyzes the arguments of a call, each with so much room. -/
def expressions (room : Nat) : List Tree → Traced AnalysisFailure (List Ast)
  | [] => return []
  | t :: rest => do
    let e ← expression room t
    let es ← expressions room rest
    return e :: es

end

/-! ## Statements -/

/-- The first of several parameters whose name has already come. -/
def firstRepeated (seen : List Name) : List Datum → Except Fault (Option Datum)
  | [] => .ok none
  | d :: rest => do
    let x ← d.name
    if x.canon ∈ seen then return some d else firstRepeated (x.canon :: seen) rest

/-- Refuses parameters that are not distinct. The function's name is only read for the message. -/
def distinctParameters (node : Tree) (name : Except Fault Datum) (params : List Datum) :
    Traced AnalysisFailure Unit := do
  match ← firstRepeated [] params with
  | some d =>
    let parameter ← d.display
    let function ← (← name).display
    reject (.duplicateParameter parameter function) node
  | none => return ()

/-- The name and the parameters of a hand-written function definition. -/
def signature (node : Tree) (value : Datum) : Traced AnalysisFailure (Datum × List Datum) := do
  let params ← (← value.get "params").items
  distinctParameters node (value.get "name") params
  return (← value.get "name", params)

/-- The node of a function definition with hand-written parts. -/
def definitionNode (name : Datum) (params : List Datum) (body : List Ast) : Ast :=
  .written (Ast.tagged "FunctionDefinition"
    [("name", name), ("arguments", .list params), ("statements", .list (Ast.toData body))])

mutual

/-- Analyzes a statement. -/
def statement (room : Nat) : Tree → Traced AnalysisFailure Ast
  | .assignment name e => do
    visitStatement room (.assignment name e)
    let e' ← expression (room - 1) e
    return .assignment name e'
  | .conditional condition body => do
    visitStatement room (.conditional condition body)
    let c ← expression (room - 1) condition
    let b ← block (room - 3) body
    return .conditional c b
  | .definition name params body => do
    visitStatement room (.definition name params body)
    reserve 4 room
    distinctParameters (.definition name params body) (.ok (.text name)) (params.map .text)
    let b ← block (room - 4) body
    return .definition name params b
  | .written d parts => do
    visitStatement room (.written d parts)
    let (tag, value) ← d.pair
    match tag, parts with
    | .text "ASSIGNMENT", [e] => do
      let name ← value.get "name"
      let e' ← expression (room - 1) e
      return .written (Ast.tagged "Assignment" [("name", name), ("expression", e'.toDatum)])
    | .text "IF", condition :: body => do
      let c ← expression (room - 1) condition
      let b ← block (room - 3) body
      return .conditional c b
    | .text "FUNCTION_DEF", body => do
      reserve 4 room
      let (name, params) ← signature (.written d body) value
      let b ← block (room - 4) body
      return definitionNode name params b
    | _, parts => expression (room - 1) (.written d parts)
  | .hole f => Traced.fail (.fault f)
  | t => do
    visitStatement room t
    expression (room - 1) t

/-- Analyzes the statements of a block, each with so much room. -/
def block (room : Nat) : List Tree → Traced AnalysisFailure (List Ast)
  | [] => return []
  | t :: rest => do
    let s ← statement room t
    let ss ← block room rest
    return s :: ss

end

/-- Analyzes the value of a node as the parts of a function definition, whatever the node's tag. -/
def definitionOf (room : Nat) (node : Tree) (value : Datum) : Traced AnalysisFailure Ast := do
  reserve 3 room
  let (name, params) ← signature node value
  let body ← block (room - 3) (Tree.ofDatum (.list [.text "FUNCTION_DEF", value])).slots
  return definitionNode name params body

/-- Analyzes a function definition whatever its tag says. -/
def definition (room : Nat) (node : Tree) : Traced AnalysisFailure Ast :=
  match node with
  | .definition name params body => do
    reserve 3 room
    distinctParameters (.definition name params body) (.ok (.text name)) (params.map .text)
    let b ← block (room - 3) body
    return .definition name params b
  | .hole f => Traced.fail (.fault f)
  | t => do
    let (_, value) ← t.toDatum.pair
    definitionOf room t value

/-- Analyzes a whole program. -/
def program (room : Nat) (trees : List Tree) : Traced AnalysisFailure Ast := do
  reserve 3 room
  let body ← block (room - 3) trees
  Traced.line ("Analyzed " ++ toString body.length ++ " statements")
  return .source body

end Analysis
end Tama
