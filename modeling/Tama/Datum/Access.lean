import Tama.Fault
import Tama.Name

/-!
# Reading host data

What a host writes by hand need not have the shape that is wanted. Each operation here takes data
of any type, reads what it needs from it, and reports the misuse when the data does not have it.
-/

set_option autoImplicit false

namespace Tama

/-- Reports a misuse. -/
def Misuse.raise {α : Type} (cause : Misuse) : Except Fault α :=
  .error (.misuse cause)

namespace Datum

/-! ## Fields -/

/-- A field that has to be there. -/
def get (d : Datum) (key : String) : Except Fault Datum :=
  match d with
  | record fields =>
    match fields.lookup key with
    | some field => .ok field
    | none => .error (.missingField key)
  | d => (Misuse.noField d.typeName).raise

/-- A field that may be absent. -/
def getOptional (d : Datum) (key : String) : Except Fault (Option Datum) :=
  match d with
  | record fields => .ok (fields.lookup key)
  | d => (Misuse.notRecord d.typeName).raise

/-- The type tag of a record, null when it has none and for data that is no record. -/
def kind (d : Datum) : Datum :=
  d.tag?.getD null

/-! ## Items -/

/-- The items of a list, the characters of a text, or the keys of a record. -/
def items? : Datum → Option (List Datum)
  | list items => some items
  | text s => some (s.toList.map fun c => text (String.singleton c))
  | record fields => some (fields.map fun f => text f.1)
  | _ => none

/-- The items of data that has to have some. -/
def items (d : Datum) : Except Fault (List Datum) :=
  match d.items? with
  | some items => .ok items
  | none => (Misuse.notIterable d.typeName).raise

/-- Refuses data without a length. -/
def checkLength (d : Datum) : Except Fault Unit :=
  match d.items? with
  | some _ => .ok ()
  | none => (Misuse.noLength d.typeName).raise

/-- The two items of a pair. -/
def pair (d : Datum) : Except Fault (Datum × Datum) :=
  match d.items? with
  | some [first, second] => .ok (first, second)
  | some items => (Misuse.notPair items.length).raise
  | none => (Misuse.notUnpackable d.typeName).raise

/-! ## Texts and names -/

/-- The texts of items that all have to be texts; items are counted from a position. -/
def textsFrom (position : Nat) : List Datum → Except Fault (List String)
  | [] => .ok []
  | text s :: rest => do return s :: (← textsFrom (position + 1) rest)
  | d :: _ => (Misuse.notText position d.typeName).raise

/-- Joins items that all have to be texts. -/
def joinItems (separator : String) (items : List Datum) : Except Fault String := do
  return separator.intercalate (← textsFrom 0 items)

/-- Joins the items of a datum. -/
def join (d : Datum) (separator : String) : Except Fault String :=
  match d.items? with
  | some items => joinItems separator items
  | none => Misuse.notJoinable.raise

/-- The name that a datum is. -/
def name : Datum → Except Fault Name
  | text s => .ok (.text s)
  | int n => .ok (.int n)
  | decimal digits places => .ok (.decimal digits places)
  | bool b => .ok (.bool b)
  | null => .ok .null
  | d => (Misuse.notName d.typeName).raise

/-- The names that the first so many items of a datum are. -/
def names (d : Datum) (count : Nat) : Except Fault (List Name) := do
  ((← d.items).take count).mapM name

/-! ## Laws -/

@[simp] theorem name_text (s : String) : (text s).name = .ok (.text s) := rfl

@[simp] theorem items_list (items : List Datum) : (list items).items = .ok items := rfl

theorem mapM_name_map_text (names : List String) :
    (names.map text).mapM name = .ok (names.map .text) := by
  induction names with
  | nil => rfl
  | cons s rest ih => simp only [List.map_cons, List.mapM_cons, ih, name_text]; rfl

theorem names_map_text (params : List String) (count : Nat) :
    (list (params.map text)).names count = .ok ((params.take count).map .text) := by
  rw [← mapM_name_map_text, List.map_take]
  rfl

theorem textsFrom_map_text (position : Nat) (names : List String) :
    textsFrom position (names.map text) = .ok names := by
  induction names generalizing position with
  | nil => rfl
  | cons s rest ih => simp only [List.map_cons, textsFrom, ih]; rfl

theorem joinItems_map_text (separator : String) (names : List String) :
    joinItems separator (names.map text) = .ok (separator.intercalate names) := by
  simp only [joinItems, textsFrom_map_text]; rfl

end Datum
end Tama
