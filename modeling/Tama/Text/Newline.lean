/-!
# Line ends of a file

Files and terminal input may end their lines in `\n`, `\r\n` or `\r`; inside the program a line
always ends in `\n`.
-/

set_option autoImplicit false

namespace Tama.Newline

/-- Writes every line end as one line feed. -/
def normalize : List Char → List Char
  | [] => []
  | '\r' :: '\n' :: text => '\n' :: normalize text
  | c :: text => (if c = '\r' then '\n' else c) :: normalize text

/-- The lines that can be read from terminal input: each ends at a line feed, and a last line
without one counts when it is not empty. -/
def inputLines (text : List Char) : List (List Char) :=
  go [] (normalize text)
where
  /-- Reads on with the current line so far, last character first. -/
  go (current : List Char) : List Char → List (List Char)
    | [] => if current.isEmpty then [] else [current.reverse]
    | c :: text => if c = '\n' then current.reverse :: go [] text else go (c :: current) text

end Tama.Newline
