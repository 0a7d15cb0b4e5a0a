import Tama.Tree

/-!
# Parse trees as host data

A node is the pair of its tag and its value: a literal or a name, or a record of the parts. Main
statement: a hand-written pair is kept as it was given (`toDatum_ofDatum`).
-/

set_option autoImplicit false

namespace Tama.Tree

/-! ## Writing -/

mutual

/-- The pair of a node. -/
def toDatum : Tree → Datum
  | int n => .list [.text "INT", .int n]
  | bool b => .list [.text "BOOL", .bool b]
  | null => .list [.text "NULL", .null]
  | var name => .list [.text "VARIABLE", .text name]
  | add left right =>
    .list [.text "ADD", .record [("left", toDatum left), ("right", toDatum right)]]
  | call name args =>
    .list [.text "FUNCTION_CALL", .record [("name", .text name), ("args", .list (toData args))]]
  | assignment name expression =>
    .list [.text "ASSIGNMENT",
      .record [("name", .text name), ("expression", toDatum expression)]]
  | conditional condition body =>
    .list [.text "IF",
      .record [("condition", toDatum condition), ("statements", .list (toData body))]]
  | definition name params body =>
    .list [.text "FUNCTION_DEF",
      .record [("name", .text name), ("params", .list (params.map .text)),
        ("statements", .list (toData body))]]
  | written d _ => d
  | hole _ => .null

/-- The pairs of several nodes. -/
def toData : List Tree → List Datum
  | [] => []
  | t :: rest => toDatum t :: toData rest

end

/-! ## Reading -/

/-- What a field can be read as: a node, or several nodes. -/
structure Part where
  node : Tree
  nodes : Except Fault (List Tree)

namespace Part

/-- The fault of reading a field that is not there. -/
def absent (value : Datum) (key : String) : Fault :=
  match value.get key with
  | .error f => f
  | .ok _ => .missingField key

/-- The child in a field of a value, or a hole. -/
def child (value : Datum) (fields : List (String × Part)) (key : String) : Tree :=
  match fields.lookup key with
  | some part => part.node
  | none => hole (absent value key)

/-- The children in a field of a value, or a hole in their place. -/
def children (value : Datum) (fields : List (String × Part)) (key : String) : List Tree :=
  match fields.lookup key with
  | some ⟨_, .ok nodes⟩ => nodes
  | some ⟨_, .error f⟩ => [hole f]
  | none => [hole (absent value key)]

/-- The trees that a tag calls for, in source order. -/
def ofFields (tag value : Datum) (fields : List (String × Part)) : List Tree :=
  match tag with
  | .text "ADD" => [child value fields "left", child value fields "right"]
  | .text "ASSIGNMENT" => [child value fields "expression"]
  | .text "IF" => child value fields "condition" :: children value fields "statements"
  | .text "FUNCTION_DEF" => children value fields "statements"
  | .text "FUNCTION_CALL" => children value fields "args"
  | _ => []

/-- The trees of a node whose value is no record. -/
def ofPair (d : Datum) : List Tree :=
  match d.pair with
  | .ok (tag, value) => ofFields tag value []
  | .error _ => []

/-- The nodes in data that is no list. -/
def leaves (d : Datum) : Except Fault (List Tree) := do
  return (← d.items).map fun item => written item []

end Part

mutual

/-- The node that a datum is. -/
def ofDatum : Datum → Tree
  | .list [tag, .record fields] =>
    written (.list [tag, .record fields]) (Part.ofFields tag (.record fields) (ofFields fields))
  | d => written d (Part.ofPair d)

/-- The nodes that several data are. -/
def ofData : List Datum → List Tree
  | [] => []
  | d :: rest => ofDatum d :: ofData rest

/-- What the fields of a record can be read as. -/
def ofFields : List (String × Datum) → List (String × Part)
  | [] => []
  | (key, .list items) :: rest =>
    (key, ⟨ofDatum (.list items), .ok (ofData items)⟩) :: ofFields rest
  | (key, d) :: rest => (key, ⟨ofDatum d, Part.leaves d⟩) :: ofFields rest

end

theorem toDatum_ofDatum (d : Datum) : (ofDatum d).toDatum = d := by
  unfold ofDatum
  split <;> rfl

end Tama.Tree
