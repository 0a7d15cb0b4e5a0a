import Tama.Datum.Access

/-!
# Parse trees

What the parser makes of a program. A tree has one node for each piece of syntax that means
something; parentheses and punctuation leave none. A host may also write a node by hand, as the
pair of a tag and a value; whoever needs a part that such a node does not have reports the fault of
reading it.
-/

set_option autoImplicit false

namespace Tama

/-- A parse tree. -/
inductive Tree where
  | int (n : Int)
  | bool (b : Bool)
  | null
  | var (name : String)
  | add (left right : Tree)
  | call (name : String) (args : List Tree)
  | assignment (name : String) (expression : Tree)
  | conditional (condition : Tree) (body : List Tree)
  | definition (name : String) (params : List String) (body : List Tree)
  /-- A hand-written node, whatever data it is, with the trees that its tag calls for in source
  order. -/
  | written (d : Datum) (parts : List Tree)
  /-- Stands where a hand-written node lacks a child or its children: the fault of reading them. -/
  | hole (f : Fault)
  deriving Inhabited

namespace Tree

/-- The tag of a node. -/
def tag : Tree → Except Fault Datum
  | int _ => .ok (.text "INT")
  | bool _ => .ok (.text "BOOL")
  | null => .ok (.text "NULL")
  | var _ => .ok (.text "VARIABLE")
  | add _ _ => .ok (.text "ADD")
  | call _ _ => .ok (.text "FUNCTION_CALL")
  | assignment _ _ => .ok (.text "ASSIGNMENT")
  | conditional _ _ => .ok (.text "IF")
  | definition _ _ _ => .ok (.text "FUNCTION_DEF")
  | written d _ => do return (← d.pair).1
  | hole f => .error f

/-- The children in source order, holes included. -/
def slots : Tree → List Tree
  | add left right => [left, right]
  | call _ args => args
  | assignment _ expression => [expression]
  | conditional condition body => condition :: body
  | definition _ _ body => body
  | written _ parts => parts
  | _ => []

/-- Reports the first hole of a list of children. -/
def filled : List Tree → Except Fault (List Tree)
  | [] => .ok []
  | hole f :: _ => .error f
  | t :: rest => do return t :: (← filled rest)

/-- The children of a hand-written conditional are its condition and then its body, which has to be
a list for that. -/
def checkConditional (value : Datum) : Except Fault Unit := do
  let _ ← value.get "condition"
  match ← value.get "statements" with
  | .list _ => return ()
  | body => (Misuse.notConcatenable "list" body.typeName).raise

/-- Refuses a hand-written node whose children cannot be listed. -/
def checkSlots : Tree → Except Fault Unit
  | written d _ => do
    match ← d.pair with
    | (.text "IF", value) => checkConditional value
    | _ => return ()
  | _ => .ok ()

/-- The children of a node in source order. -/
def children (t : Tree) : Except Fault (List Tree) := do
  t.checkSlots
  filled t.slots

/-- The line of a hand-written node. -/
def pairLabel (tag value : Datum) : Except Fault String :=
  match tag with
  | .text "INT" | .text "BOOL" | .text "VARIABLE" => do
    return (← tag.display) ++ "(" ++ (← value.literal) ++ ")"
  | .text "ASSIGNMENT" | .text "FUNCTION_CALL" => do
    return (← tag.display) ++ "(" ++ (← (← value.get "name").literal) ++ ")"
  | .text "FUNCTION_DEF" => do
    let name ← (← value.get "name").display
    return (← tag.display) ++ "(" ++ name ++ "(" ++ (← (← value.get "params").join ", ") ++ "))"
  | .text s => .ok s
  | tag => (Misuse.notConcatenable "str" tag.typeName).raise

/-- A node on one line, without its children. -/
def label : Tree → Except Fault String
  | int n => do return "INT(" ++ (← Decimal.write n) ++ ")"
  | bool b => .ok (if b then "BOOL(True)" else "BOOL(False)")
  | null => .ok "NULL"
  | var name => .ok ("VARIABLE(" ++ Quoted.quote name ++ ")")
  | add _ _ => .ok "ADD"
  | call name _ => .ok ("FUNCTION_CALL(" ++ Quoted.quote name ++ ")")
  | assignment name _ => .ok ("ASSIGNMENT(" ++ Quoted.quote name ++ ")")
  | conditional _ _ => .ok "IF"
  | definition name params _ =>
    .ok ("FUNCTION_DEF(" ++ name ++ "(" ++ ", ".intercalate params ++ "))")
  | written d _ => do
    let (tag, value) ← d.pair
    pairLabel tag value
  | hole f => .error f

/-! ## Layout -/

/-- The line of one node at an indentation level; a negative level indents by nothing. -/
def line (level : Int) (t : Tree) : Except Fault String := do
  let label ← t.label
  let _ ← t.children
  return String.ofList (List.replicate (2 * level.toNat) ' ') ++ label ++ "\n"

mutual

/-- A tree laid out with one node a line, children below their parent and one level further in. -/
def layout (level : Int) : Tree → Except Fault String
  | add left right => do
    let head ← line level (add left right)
    let first ← layout (level + 1) left
    return head ++ first ++ (← layout (level + 1) right)
  | call name args => do
    let head ← line level (call name args)
    return head ++ (← layoutAll (level + 1) args)
  | assignment name expression => do
    let head ← line level (assignment name expression)
    return head ++ (← layout (level + 1) expression)
  | conditional condition body => do
    let head ← line level (conditional condition body)
    let first ← layout (level + 1) condition
    return head ++ first ++ (← layoutAll (level + 1) body)
  | definition name params body => do
    let head ← line level (definition name params body)
    return head ++ (← layoutAll (level + 1) body)
  | written d parts => do
    let head ← line level (written d parts)
    return head ++ (← layoutAll (level + 1) parts)
  | t => line level t

/-- Several trees at one level, one below the other. -/
def layoutAll (level : Int) : List Tree → Except Fault String
  | [] => .ok ""
  | t :: rest => do
    let first ← layout level t
    return first ++ (← layoutAll level rest)

end

mutual

/-- The levels of a tree. -/
def height : Tree → Nat
  | add left right => max left.height right.height + 1
  | call _ args => heightAll args + 1
  | assignment _ expression => expression.height + 1
  | conditional condition body => max condition.height (heightAll body) + 1
  | definition _ _ body => heightAll body + 1
  | written _ parts => heightAll parts + 1
  | _ => 1

/-- The levels of the highest of several trees. -/
def heightAll : List Tree → Nat
  | [] => 0
  | t :: rest => max t.height (heightAll rest)

end

/-- A tree laid out where so many frames of the stack are left. Every level of the tree takes one,
and so does what is called for a node. -/
def layoutOn (room : Nat) (t : Tree) : Except Fault String :=
  if t.height < room then t.layout 0 else .error .tooDeep

/-! ## Search -/

/-- The node itself if it has the tag. -/
def findHere (tag : Datum) (t : Tree) : Except Fault (List Tree) := do
  let _ ← t.children
  return if (← t.tag) == tag then [t] else []

mutual

/-- The nodes with a tag in a tree, each in front of those below it. -/
def find (tag : Datum) : Tree → Except Fault (List Tree)
  | add left right => do
    let here ← findHere tag (add left right)
    let first ← find tag left
    return here ++ first ++ (← find tag right)
  | call name args => do
    let here ← findHere tag (call name args)
    return here ++ (← findAll tag args)
  | assignment name expression => do
    let here ← findHere tag (assignment name expression)
    return here ++ (← find tag expression)
  | conditional condition body => do
    let here ← findHere tag (conditional condition body)
    let first ← find tag condition
    return here ++ first ++ (← findAll tag body)
  | definition name params body => do
    let here ← findHere tag (definition name params body)
    return here ++ (← findAll tag body)
  | written d parts => do
    let here ← findHere tag (written d parts)
    return here ++ (← findAll tag parts)
  | t => findHere tag t

/-- The nodes with a tag in several trees. -/
def findAll (tag : Datum) : List Tree → Except Fault (List Tree)
  | [] => .ok []
  | t :: rest => do
    let first ← find tag t
    return first ++ (← findAll tag rest)

end

/-! ## Sums -/

/-- Left-nested addition of several operands. -/
def sum (first : Tree) (rest : List Tree) : Tree :=
  rest.foldl add first

/-- Left-nested addition of operands of which there has to be one. -/
def sumAll : List Tree → Except Fault Tree
  | first :: rest => .ok (sum first rest)
  | [] => (Misuse.noItem "list").raise

end Tree
end Tama
