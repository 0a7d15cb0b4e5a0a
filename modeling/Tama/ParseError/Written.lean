import Tama.Datum.Access
import Tama.ParseError

/-!
# Hand-written reports

The parts of a parse error may also be host data that was written by hand. They are worded as those
of a real parse error are, as far as they are of the types that this takes.
-/

set_option autoImplicit false

namespace Tama

/-- Hints from a quotation and a list of expectations that may be any data. -/
def Hint.ofData (got expected : Datum) : Except Fault (List String) := do
  let wanted ← expected.join " "
  match got with
  | .text s => return Hint.suggest s [wanted]
  | .list _ => (Misuse.notSearchable "list").raise
  | .record fields =>
    -- The quotation is looked through for a double quote, then cut, and then searched.
    if (fields.lookup "\"").isSome then (Misuse.notSearchable "dict").raise
    else (Misuse.notName "slice").raise
  | d => (Misuse.noMembers d.typeName).raise

namespace ParseError

/-- The lines of a report behind its first one. -/
def detailLines (fields : Datum) : Except Fault (List Datum) := do
  let part (key : String) : Datum := (fields.field? key).getD .null
  let expected ← if (part "expected").truthy then do
      pure [Datum.text ("  Expected: " ++ (← (part "expected").join ", "))]
    else pure []
  let got ← if (part "got").truthy then do
      pure [Datum.text ("  Got: " ++ (← (part "got").display))]
    else pure []
  let context := if (part "context").truthy then [part "context"] else []
  let hints ← if (part "suggestions").truthy then (part "suggestions").items else pure []
  let hintLines ← hints.mapM fun hint => do
    return Datum.text ("  Hint: " ++ (← (hint.display : Except DigitLimit String)))
  return expected ++ got ++ context ++ hintLines

/-- The text of a parse error that is given as a record of its parts. -/
def ofRecord (fields : Datum) : Except Fault String := do
  let message ← fields.get "message"
  let part (key : String) (default : Datum) : Datum := (fields.field? key).getD default
  let filename ← (part "filename" (.text "<input>")).display
  let line := part "line" (.int 0)
  if line.truthy then
    let head := filename ++ ":" ++ (← line.display) ++ ":" ++
      (← (part "column" (.int 0)).display) ++ ": " ++ (← message.display)
    Datum.joinItems "\n" (.text head :: (← detailLines fields))
  else return filename ++ ": " ++ (← message.display)

end ParseError
end Tama
